import SchemaDecl.Coercion

/-!
# Directives

A directive annotates a member of a class: it validates or converts the value.  `Directive.text` is its source text.  A
message names the key of the member between single quotes, with backslashes and quotes escaped; the name of an enum
stands as it is.
-/

namespace SchemaDecl

/-- A directive; `each` asks it of every element of an array. -/
inductive Directive where
  | isNotEmpty (key : String)
  | isOptional
  | transform (coercion : Coercion)
  | isNumber (key : String) (each : Bool)
  | isBoolean (key : String) (each : Bool)
  | isString (key : String) (each : Bool)
  | isEnum (name key : String) (each : Bool)
  | isArray
  | validateNested (each : Bool)
  | isObject
  | type (name : String)
  deriving DecidableEq

namespace Directive

/-- A text with a replacement for every occurrence of a character. -/
def replaceChar (c : Char) (replacement text : List Char) : List Char :=
  text.flatMap fun d => if d = c then replacement else [d]

/-- A text to stand between single quotes.  Backslashes come first: the quotes bring new ones. -/
def escape (s : String) : String :=
  String.ofList (replaceChar '\'' ['\\', '\''] (replaceChar '\\' ['\\', '\\'] s.toList))

/-- The options of a validator: a message about a key, and whether every element is meant. -/
def options (key message : String) (each : Bool) : String :=
  "\x7b message: '" ++ escape key ++ message ++ "'" ++ (if each then ", each: true" else "") ++ " \x7d"

def text : Directive → String
  | .isNotEmpty key => "@IsNotEmpty(" ++ options key " cannot be empty" false ++ ")"
  | .isOptional => "@IsOptional()"
  | .transform coercion => "@Transform(" ++ coercion.helperName ++ ")"
  | .isNumber key each => "@IsNumber(\x7b\x7d, " ++ options key " must be a number (decimal)" each ++ ")"
  | .isBoolean key each => "@IsBoolean(" ++ options key " must be a boolean" each ++ ")"
  | .isString key each => "@IsString(" ++ options key " must be a string" each ++ ")"
  | .isEnum name key each => "@IsEnum(" ++ name ++ ", " ++ options key (" must be enum " ++ name) each ++ ")"
  | .isArray => "@IsArray()"
  | .validateNested each => "@ValidateNested(" ++ (if each then "\x7b each: true \x7d" else "") ++ ")"
  | .isObject => "@IsObject()"
  | .type name => "@Type(() => " ++ name ++ ")"

end Directive

end SchemaDecl
