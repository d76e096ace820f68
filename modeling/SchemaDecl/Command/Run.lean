import SchemaDecl.Command.Arguments
import SchemaDecl.Load
import SchemaDecl.Writer

/-!
# Running a command

An invocation loads the document and the tables, compiles, and lists or writes the files.  Nothing is written before
everything has been checked.  A failure is worded as the chain of its causes.
-/

namespace SchemaDecl

inductive Failure where
  | load (path : String) (e : LoadError)
  | readTables (path : String) (e : FileError)
  | decodeTables (path : String) (fault : Json.Fault)
  | compile (e : CompileError)
  | write (path : String) (e : FileError)
  deriving DecidableEq

/-- The message of a failure: its causes from the outermost in.  A cause inside another one is told again on its own. -/
def Failure.message : Failure → String
  | .load path (.file e) => "failed to load " ++ path ++ ": IO error: " ++ e.message ++ ": " ++ e.message
  | .load path (.json _) => "failed to load " ++ path
  | .readTables path e => "failed to read tables " ++ path ++ ": " ++ e.message
  | .decodeTables path _ => "invalid tables " ++ path
  | .compile (.duplicate name) => (CompileError.duplicate name).message ++ ": " ++ duplicateMessage name
  | .compile e => e.message
  | .write path e => "failed to write into " ++ path ++ ": " ++ e.message

/-- What an invocation does when it succeeds. -/
inductive Report where
  | listed (filenames : List String)
  | written (paths : List String)
  deriving DecidableEq

namespace Invocation

/-- The tables in a file. -/
def loadTables (path : String) : Script (Except Failure PathMap) :=
  .readText path fun
    | .error e => .done (.error (.readTables path e))
    | .ok text => .done ((PathMap.parse text).mapError (.decodeTables path))

/-- The document with the tables of the `--tables` file. -/
def loadDocument (i : Invocation) : ExceptT Failure Script Document := do
  let document ← ExceptT.mk ((·.mapError (.load i.input)) <$> Document.load i.input)
  match i.tables with
  | none => return document
  | some path => return document.mergeTables (← ExceptT.mk (loadTables path))

def run (i : Invocation) : ExceptT Failure Script Report := do
  let document ← i.loadDocument
  let output ← ExceptT.mk (pure ((i.config.compileDocument document).mapError .compile))
  if i.dryRun then return .listed (output.allFiles.map SourceFile.filename)
  return .written (← ExceptT.mk ((·.mapError (.write i.outDir)) <$> output.write i.outDir))

end Invocation

/-- How a command ends. -/
inductive Ending where
  | usage
  | failed (failure : Failure)
  | finished (report : Report)
  deriving DecidableEq

namespace Ending

def exitCode : Ending → Nat
  | .usage => 2
  | .failed _ => 1
  | .finished _ => 0

def stdout : Ending → String
  | .finished (.listed filenames) => String.join (filenames.map (· ++ "\n"))
  | _ => ""

def stderr : Ending → String
  | .usage => "Usage: declforge [OPTIONS] <INPUT> <OUT_DIR>\n"
  | .failed failure => "Error: " ++ failure.message ++ "\n"
  | _ => ""

end Ending

/-- A command with its arguments. -/
def command (arguments : List String) : Script Ending :=
  match Invocation.parse? arguments with
  | none => .done .usage
  | some i => do
    match ← i.run.run with
    | .ok report => return .finished report
    | .error failure => return .failed failure

end SchemaDecl
