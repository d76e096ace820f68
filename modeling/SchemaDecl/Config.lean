import SchemaDecl.Json.Print
import SchemaDecl.Json.Value
import SchemaDecl.Text.Edge

/-!
# Settings

What is generated and where: the mode, the folder and the extension of the files, whether a repeated name is allowed and
whether enums are imported.  From the folder follow the path of an entity, the name of its file and the path of the
shared helpers.
-/

namespace SchemaDecl

open Json

/-- What entities become. -/
inductive Mode where
  | classes
  | interfaces
  deriving DecidableEq

namespace Mode

/-- The word that starts a declaration, which is also the name of the mode. -/
def keyword : Mode → String
  | .classes => "class"
  | .interfaces => "interface"

/-- A mode by name, in the singular or plural and in any case.  No letter outside ASCII has one of the letters of these
words as its lower case. -/
def parse? (text : String) : Option Mode :=
  let name := text.toLower
  if name = "class" ∨ name = "classes" then some .classes
  else if name = "interface" ∨ name = "interfaces" then some .interfaces
  else none

/-- The modes by the name that settings use. -/
def choices : List (String × Mode) := [("class", .classes), ("interface", .interfaces)]

/-- A mode: its name, or an object that has the name as its only key and nothing as its value. -/
def decoder : Decoder Mode
  | [] => .error .truncated
  | .openObject :: ts =>
    (do
      let mode ← Decoder.choose choices (← Decoder.key)
      Decoder.colon
      Decoder.null
      closeObject
      return mode : Decoder Mode) ts
  | t :: ts => if t.text?.isSome then Decoder.choice choices (t :: ts) else .error .malformed
where
  closeObject : Decoder Unit
    | [] => .error .truncated
    | .closeObject :: ts => .ok ((), ts)
    | _ :: _ => .error .malformed

end Mode

structure Config where
  mode : Mode := .classes
  outputDir : String := "ts-schema"
  extension : String := "ts"
  allowDuplicateNames : Bool := false
  importEnums : Bool := false
  deriving DecidableEq

namespace Config

/-- The path of a module in the folder of generated files, without extension. -/
def logicalPath (config : Config) (name : String) : String :=
  "./" ++ trimBoth '/' config.outputDir ++ "/" ++ name

/-- A path with the extension of generated files. -/
def withExtension (config : Config) (path : String) : String :=
  if config.extension = "" then path else path ++ "." ++ trimLeft '.' config.extension

theorem withExtension_append (config : Config) (p name : String) :
    config.withExtension (p ++ name) = p ++ config.withExtension name := by
  unfold withExtension
  split
  · rfl
  · simp only [String.append_assoc]

theorem withExtension_eq_append (config : Config) (name : String) :
    config.withExtension name = name ++ config.withExtension "" := by
  rw [← withExtension_append, String.append_empty]

/-- The name of the file of an entity. -/
def filePath (config : Config) (name : String) : String := config.withExtension (config.logicalPath name)

def helperPath (config : Config) : String := config.logicalPath "runtime/transform"

/-! ### Settings as JSON -/

structure Parts where
  mode : Option Mode := none
  outputDir : Option String := none
  extension : Option String := none
  allowDuplicateNames : Option Bool := none
  importEnums : Option Bool := none

/-- Settings with defaults for what has not been read. -/
def Parts.toConfig (p : Parts) : Config :=
  let config : Config := {}
  ⟨p.mode.getD config.mode, p.outputDir.getD config.outputDir, p.extension.getD config.extension,
    p.allowDuplicateNames.getD config.allowDuplicateNames, p.importEnums.getD config.importEnums⟩

def member (p : Parts) (k : String) : Decoder Parts := do
  if k = "mode" then return { p with mode := ← Decoder.once k p.mode Mode.decoder }
  if k = "output_dir" then return { p with outputDir := ← Decoder.once k p.outputDir Decoder.text }
  if k = "extension" then return { p with extension := ← Decoder.once k p.extension Decoder.text }
  if k = "allow_duplicate_names" then
    return { p with allowDuplicateNames := ← Decoder.once k p.allowDuplicateNames Decoder.boolean }
  if k = "import_enums" then return { p with importEnums := ← Decoder.once k p.importEnums Decoder.boolean }
  Decoder.ignoredMember
  return p

def fromMembers : Decoder Config := Parts.toConfig <$> Decoder.allMembers member {}

def fromElements : Decoder Config := do
  let mode ← Decoder.optional true Mode.decoder
  let outputDir ← Decoder.optional false Decoder.text
  let extension ← Decoder.optional false Decoder.text
  let allowDuplicateNames ← Decoder.optional false Decoder.boolean
  let importEnums ← Decoder.optional false Decoder.boolean
  return Parts.toConfig ⟨mode, outputDir, extension, allowDuplicateNames, importEnums⟩

def decoder : Decoder Config := Decoder.record "struct CompilerConfig" fromMembers fromElements

def parse (text : String) : Except Fault Config := decoder.run text

def tokens (config : Config) : List Token :=
  Token.object [("mode", [.ofText config.mode.keyword]), ("output_dir", [.ofText config.outputDir]),
    ("extension", [.ofText config.extension]), ("allow_duplicate_names", [.boolean config.allowDuplicateNames]),
    ("import_enums", [.boolean config.importEnums])]

def toJson (config : Config) : String := Token.print config.tokens

end Config

end SchemaDecl
