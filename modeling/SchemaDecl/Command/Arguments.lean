import SchemaDecl.Config

/-!
# Arguments of the command line

Two paths and some options, in any order.  An option takes its value from the next argument or after an equals sign, a
short one also directly.  Anything else is no invocation: an unknown or repeated option, a missing value, a value on a
flag, an empty path, a mode that is none, or another number of paths.

The help page and the options that ask for it, `-h` and `--help`, are left out: here they are unknown options.  What is
printed about arguments that are no invocation is only the line with the usage.
-/

namespace SchemaDecl

/-- What the command line asks for. -/
structure Invocation where
  input : String
  outDir : String
  config : Config
  tables : Option String
  dryRun : Bool
  deriving DecidableEq

namespace Invocation

/-- The options with a value. -/
inductive Setting where
  | mode
  | tables
  | outputDir
  | extension

/-- The options without a value. -/
inductive Flag where
  | allowDuplicateNames
  | importEnums
  | dryRun

/-- The options with a value, by long name. -/
def settings : List (String × Setting) :=
  [("mode", .mode), ("tables", .tables), ("output-dir", .outputDir), ("extension", .extension)]

/-- The options with a value, by letter. -/
def shortSettings : List (Char × Setting) := [('m', .mode), ('t', .tables)]

/-- The options without a value, by long name. -/
def flags : List (String × Flag) :=
  [("allow-duplicate-names", .allowDuplicateNames), ("import-enums", .importEnums), ("dry-run", .dryRun)]

structure Parts where
  mode : Option Mode := none
  tables : Option String := none
  outputDir : Option String := none
  extension : Option String := none
  allowDuplicateNames : Bool := false
  importEnums : Bool := false
  dryRun : Bool := false
  paths : List String := []

/-- A value for an option that has none yet. -/
def assign? {α : Type} (earlier value : Option α) : Option (Option α) :=
  if earlier.isSome ∨ value.isNone then none else some value

/-- A path must not be empty. -/
def path? (value : String) : Option String := if value = "" then none else some value

def Parts.set? (p : Parts) (value : String) : Setting → Option Parts
  | .mode => (assign? p.mode (Mode.parse? value)).map fun v => { p with mode := v }
  | .tables => (assign? p.tables (path? value)).map fun v => { p with tables := v }
  | .outputDir => (assign? p.outputDir (some value)).map fun v => { p with outputDir := v }
  | .extension => (assign? p.extension (some value)).map fun v => { p with extension := v }

def Parts.raise? (p : Parts) : Flag → Option Parts
  | .allowDuplicateNames => if p.allowDuplicateNames then none else some { p with allowDuplicateNames := true }
  | .importEnums => if p.importEnums then none else some { p with importEnums := true }
  | .dryRun => if p.dryRun then none else some { p with dryRun := true }

inductive Argument where
  | path (value : String)
  | endOfOptions
  | flag (f : Flag)
  | setting (s : Setting)
  | assignment (s : Setting) (value : String)
  | unknown

/-- A long option, without the dashes. -/
def longArgument (text : List Char) : Argument :=
  let name := String.ofList (text.takeWhile (· ≠ '='))
  match text.dropWhile (· ≠ '='), settings.lookup name, flags.lookup name with
  | [], some s, _ => .setting s
  | [], none, some f => .flag f
  | _ :: value, some s, _ => .assignment s (String.ofList value)
  | _, _, _ => .unknown

/-- A short option, without the dash. -/
def shortArgument (letter : Char) (rest : List Char) : Argument :=
  match shortSettings.lookup letter, rest with
  | none, _ => .unknown
  | some s, [] => .setting s
  | some s, '=' :: value => .assignment s (String.ofList value)
  | some s, value => .assignment s (String.ofList value)

/-- What one argument is; a single dash is a path. -/
def Argument.ofText (text : String) : Argument :=
  match text.toList with
  | ['-', '-'] => .endOfOptions
  | '-' :: '-' :: long => longArgument long
  | '-' :: letter :: rest => shortArgument letter rest
  | _ => .path text

def readArguments (p : Parts) : List String → Option Parts
  | [] => some p
  | a :: rest =>
    match Argument.ofText a with
    | .unknown => none
    | .endOfOptions => some { p with paths := p.paths ++ rest }
    | .path value => readArguments { p with paths := p.paths ++ [value] } rest
    | .flag f => do readArguments (← p.raise? f) rest
    | .assignment s value => do readArguments (← p.set? value s) rest
    | .setting s =>
      match rest with
      | [] => none
      | v :: rest =>
        match Argument.ofText v with
        | .path value => do readArguments (← p.set? value s) rest
        | _ => none

def Parts.config (p : Parts) : Config :=
  let config : Config := {}
  ⟨p.mode.getD config.mode, p.outputDir.getD config.outputDir, p.extension.getD config.extension,
    p.allowDuplicateNames, p.importEnums⟩

def parse? (arguments : List String) : Option Invocation := do
  let p ← readArguments {} arguments
  match p.paths with
  | [input, outDir] => return ⟨← path? input, ← path? outDir, p.config, p.tables, p.dryRun⟩
  | _ => none

end Invocation

end SchemaDecl
