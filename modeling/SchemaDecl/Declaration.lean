import SchemaDecl.Config
import SchemaDecl.Directive
import SchemaDecl.Import
import SchemaDecl.Output

/-!
# Declarations

The file of an entity is a list of lines: its imports, in a class the external imports, the header, for every field its
directives and its member, and the closing brace.  The lines stay structured until `Line.text`, so the two modes can be
compared line by line.
-/

namespace SchemaDecl

/-! ### Fields -/

/-- What a field is to a declaration: entities and tables are alike. -/
inductive FieldKind where
  | native (type : NativeType)
  | enum (name : String)
  | nested (name : String)
  deriving DecidableEq

def FieldType.kind : FieldType → FieldKind
  | .native t => .native t
  | .enum name => .enum name
  | .schema name => .nested name
  | .table name => .nested name

/-- The name of the type of one value. -/
def FieldKind.name : FieldKind → String
  | .native t => t.name
  | .enum name => name
  | .nested name => name

namespace Field

def kind (f : Field) : FieldKind := f.type.kind

def typeText (f : Field) : String := f.kind.name ++ if f.array then "[]" else ""

/-- The member, with the mark of a required one and what ends the line. -/
def memberLine (f : Field) (marker terminator : String) : String :=
  f.key ++ (if f.required then marker else "?") ++ ": " ++ f.typeText ++ terminator

/-- The directives on the type of a native field. -/
def nativeDirectives (f : Field) (type : NativeType) : List Directive :=
  ((Coercion.forNative? type f.array).map Directive.transform).toList ++
    [match type with
      | .number => .isNumber f.key f.array
      | .boolean => .isBoolean f.key f.array
      | .string => .isString f.key f.array]

/-- The directives on a field that refers to a declaration. -/
def nestedDirectives (f : Field) (name : String) : List Directive :=
  if f.array then [.isArray, .validateNested true, .type name]
  else [.validateNested false, .isObject, .type name]

/-- The directives of a field: whether it must be given, then what its type asks. -/
def directives (f : Field) : List Directive :=
  (if f.required then .isNotEmpty f.key else .isOptional) ::
    match f.kind with
    | .native type => f.nativeDirectives type
    | .enum name => [.isEnum name f.key f.array]
    | .nested name => f.nestedDirectives name

end Field

/-! ### Modes -/

namespace Mode

/-- The directives of a field in a mode; an interface has none. -/
def directives (mode : Mode) (f : Field) : List Directive :=
  match mode with
  | .classes => f.directives
  | .interfaces => []

def member (mode : Mode) (f : Field) : String :=
  match mode with
  | .classes => f.memberLine "!" ""
  | .interfaces => f.memberLine "" ";"

/-- The lines that import what directives need. -/
def preamble (mode : Mode) (config : Config) : List String :=
  match mode with
  | .classes =>
    ["import \x7b Transform, Type \x7d from \"class-transformer\";",
      "import \x7b IsNotEmpty, IsNumber, IsObject, IsBoolean, IsOptional, IsString, IsEnum, ValidateNested, " ++
        "IsArray \x7d from \"class-validator\";",
      "import \x7b " ++ ", ".intercalate (Coercion.all.map Coercion.helperName) ++ " \x7d from '" ++
        Import.specifier config.helperPath ++ "';"]
  | .interfaces => []

end Mode

def helperFile (config : Config) : SourceFile :=
  ⟨config.withExtension config.helperPath, Coercion.helperSource⟩

def Mode.support (mode : Mode) (config : Config) : List SourceFile :=
  match mode with
  | .classes => [helperFile config]
  | .interfaces => []

/-! ### Lines -/

inductive Line where
  | imported (i : Import)
  | external (text : String)
  | blank
  | header (mode : Mode) (name : String)
  | directive (d : Directive)
  | member (mode : Mode) (f : Field)
  | footer
  deriving DecidableEq

namespace Line

/-- The text of a line; what is between the header and the footer is indented. -/
def text : Line → String
  | .imported i => i.line
  | .external text => text
  | .blank => ""
  | .header mode name => "export " ++ mode.keyword ++ " " ++ name ++ " \x7b"
  | .directive d => "  " ++ d.text
  | .member mode f => "  " ++ mode.member f
  | .footer => "\x7d"

end Line

namespace Mode

def fieldLines (mode : Mode) (f : Field) : List Line :=
  (mode.directives f).map .directive ++ [.member mode f]

/-- The lines of external imports, and a blank one if there are any. -/
def preambleLines (mode : Mode) (config : Config) : List Line :=
  match mode.preamble config with
  | [] => []
  | lines => lines.map .external ++ [.blank]

def lines (mode : Mode) (config : Config) (e : Entity) (imports : List Import) : List Line :=
  imports.map .imported ++ [.blank] ++ mode.preambleLines config ++ [.header mode e.name] ++
    e.fields.flatMap mode.fieldLines ++ [.footer]

end Mode

/-- The content of a file with the given lines; every line is ended. -/
def contentOfLines (lines : List Line) : String :=
  String.ofList (lines.flatMap fun l => l.text.toList ++ ['\n'])

structure Rendered where
  name : String
  logicalPath : String
  file : SourceFile
  deriving DecidableEq

def Entity.render (e : Entity) (config : Config) (imports : List Import) : Rendered :=
  ⟨e.name, config.logicalPath e.name,
    ⟨config.filePath e.name, contentOfLines (config.mode.lines config e imports)⟩⟩

end SchemaDecl
