import SchemaDecl.Text.Edge

/-!
# Imports

An import names what it takes and the path of the module that has it.  The specifier reads the path from a folder one
level below: paths that are already relative to a parent, or absolute, stay as they are.
-/

namespace SchemaDecl

/-- A name taken from the module at a path. -/
structure Import where
  name : String
  path : String
  deriving DecidableEq

namespace Import

/-- The module specifier of a path. -/
def specifier (path : String) : String :=
  if startsWith path "./" then "." ++ path
  else if startsWith path "../" ∨ startsWith path "/" then path
  else "../" ++ path

def line (i : Import) : String :=
  "import \x7b " ++ i.name ++ " \x7d from '" ++ specifier i.path ++ "'"

end Import

end SchemaDecl
