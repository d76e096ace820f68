import SchemaDecl.Command.Run

/-!
# The command line

Performs the script of a command on the file system of the machine.
-/

namespace SchemaDecl

/-- The cause that an error number stands for; the machine also gives the number negated. -/
def FileError.ofNumber? (number : UInt32) : Option FileError :=
  [(2, .notFound), (17, .alreadyExists), (20, .notFolder), (21, .isFolder), (36, .nameTooLong)].lookup
    (if number < 0x80000000 then number else 0 - number)

/-- The cause of a failed operation of the machine. -/
def FileError.ofMachine (e : IO.Error) : FileError :=
  match e with
  | .noFileOrDirectory _ n _ | .alreadyExists _ n _ | .inappropriateType _ n _ | .invalidArgument _ n _ =>
    (FileError.ofNumber? n).getD (.other (toString e))
  | e => .other (toString e)

/-- An operation of the machine on a path, its failure as a value. -/
def attempt {α : Type} (path : String) (action : IO α) : IO (Except FileError α) := do
  match FileTree.checkPath path with
  | .error e => return .error e
  | .ok () =>
    try return .ok (← action)
    catch e => return .error (.ofMachine e)

/-- The text of a file of the machine. -/
def readMachineText (path : String) : IO (Except FileError String) := do
  match ← attempt path (IO.FS.readBinFile path) with
  | .error e => return .error e
  | .ok bytes =>
    match String.fromUTF8? bytes with
    | some text => return .ok text
    | none => return .error .notText

def Script.perform {α : Type} : Script α → IO α
  | .done a => return a
  | .readText path next => do (next (← readMachineText path)).perform
  | .isFolder path next => do (next (← ((← IO.currentDir) / path).isDir)).perform
  | .makeFolder path next => do (next (← attempt path (IO.FS.createDir path))).perform
  | .writeText path content next => do (next (← attempt path (IO.FS.writeFile path content))).perform

end SchemaDecl

def main (arguments : List String) : IO UInt32 := do
  let ending ← (SchemaDecl.command arguments).perform
  IO.print ending.stdout
  IO.eprint ending.stderr
  return UInt32.ofNat ending.exitCode
