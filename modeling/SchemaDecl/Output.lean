import SchemaDecl.PathMap
import SchemaDecl.Text.Edge

/-!
# Generated files

The files of the entities, the shared files, and the paths of the entities by name.
-/

namespace SchemaDecl

structure SourceFile where
  filename : String
  content : String
  deriving DecidableEq

structure Output where
  files : List SourceFile := []
  map : PathMap := .empty
  support : List SourceFile := []
  deriving DecidableEq

namespace Output

/-- The files of the entities and then the shared ones. -/
def allFiles (o : Output) : List SourceFile := o.files ++ o.support

def fileCount (o : Output) : Nat := o.files.length + o.support.length

/-- Whether a filename is a path, or a path with an extension: a point, and no further folder. -/
def isFileOf (path filename : String) : Bool :=
  filename = path ||
    (after? path.toList filename.toList).any fun rest => rest.head? = some '.' && !rest.contains '/'

/-- The file of an entity: the first one that has its path. -/
def fileFor? (o : Output) (name : String) : Option SourceFile :=
  match o.map.get? name with
  | none => none
  | some path => o.files.find? fun f => isFileOf path f.filename

end Output

end SchemaDecl
