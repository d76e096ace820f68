import SchemaDecl.FileTree.Script
import SchemaDecl.Output

/-!
# Writing generated files

Every file goes below a root.  All names are checked before the first file is written: a name that is empty, absolute or
climbs out of the root refuses the whole output.
-/

namespace SchemaDecl

/-- The path of a generated file below a root. -/
def targetPath (root filename : String) : Except FileError String :=
  let path := Path.stripHere filename
  if path = "" ∨ Path.isAbsolute path ∨ ".." ∈ Path.segments path then .error (.outside filename)
  else .ok (Path.join root path)

/-- Writes one file, in folders that are made as needed. -/
def writeTarget (path content : String) : Script.Failing Unit := do
  Script.makeParent path
  Script.write path content

/-- Writes files in their order, up to the first failure. -/
def writeTargets : List (String × String) → Script.Failing (List String)
  | [] => return []
  | (path, content) :: rest => do
    writeTarget path content
    return path :: (← writeTargets rest)

namespace Output

/-- The paths and contents of all files below a root. -/
def targets (o : Output) (root : String) : Except FileError (List (String × String)) :=
  o.allFiles.mapM fun f => (targetPath root f.filename).map (·, f.content)

/-- Writes all files below a root and gives their paths. -/
def write (o : Output) (root : String) : Script.Failing (List String) := do
  writeTargets (← o.targets root)

end Output

end SchemaDecl
