import SchemaDecl.FileTree.Basic

/-!
# Scripts of file operations

A script is a sequence of file operations in which each step may depend on what the earlier ones gave.  `Script.run` is
its effect on a file tree: a failed operation changes nothing, and what was done before stays.
-/

namespace SchemaDecl

/-- File operations that end in a value. -/
inductive Script (α : Type) where
  | done (a : α)
  | readText (path : String) (next : Except FileError String → Script α)
  | isFolder (path : String) (next : Bool → Script α)
  | makeFolder (path : String) (next : Except FileError Unit → Script α)
  | writeText (path content : String) (next : Except FileError Unit → Script α)

namespace Script

/-- One script after another. -/
def andThen {α β : Type} (s : Script α) (f : α → Script β) : Script β :=
  match s with
  | .done a => f a
  | .readText path next => .readText path fun r => (next r).andThen f
  | .isFolder path next => .isFolder path fun r => (next r).andThen f
  | .makeFolder path next => .makeFolder path fun r => (next r).andThen f
  | .writeText path content next => .writeText path content fun r => (next r).andThen f

instance : Monad Script where
  pure := .done
  bind := andThen

/-- The tree after an operation, and the result without the tree. -/
def settle (t : FileTree) : Except FileError FileTree → Except FileError Unit × FileTree
  | .ok t' => (.ok (), t')
  | .error e => (.error e, t)

/-- The value of a script on a file tree, and the tree it leaves. -/
def run {α : Type} : Script α → FileTree → α × FileTree
  | .done a, t => (a, t)
  | .readText path next, t => (next (t.readText path)).run t
  | .isFolder path next, t => (next (t.isFolder path)).run t
  | .makeFolder path next, t =>
    let (r, t) := settle t (t.makeFolder path)
    (next r).run t
  | .writeText path content next, t =>
    let (r, t) := settle t (t.writeText path content)
    (next r).run t

/-- A script after another starts from the tree that the first one leaves. -/
theorem run_andThen {α β : Type} (s : Script α) (f : α → Script β) (t : FileTree) :
    (s.andThen f).run t = (f (s.run t).1).run (s.run t).2 := by
  induction s generalizing t with
  | done a => rfl
  | readText path next ih => exact ih _ _
  | isFolder path next ih => exact ih _ _
  | makeFolder path next ih => exact ih _ _
  | writeText path content next ih => exact ih _ _

/-- A script that may fail. -/
abbrev Failing (α : Type) := ExceptT FileError Script α

def read (path : String) : Failing String := ExceptT.mk (.readText path .done)

def write (path content : String) : Failing Unit := ExceptT.mk (.writeText path content .done)

/-- Makes a folder and the folders it lies in; its segments come last one first.  Those above are made only if they are
missing, and a folder that is there already is fine. -/
def makeFolders : List String → Script (Except FileError Unit)
  | [] => .done (.ok ())
  | segment :: above =>
    let path := Path.ofSegments (segment :: above).reverse
    let accept (r : Except FileError Unit) : Script (Except FileError Unit) :=
      match r with
      | .ok () => .done (.ok ())
      | .error e => .isFolder path fun there => .done (if there then .ok () else .error e)
    if Path.isHere segment then makeFolders above
    else
      .makeFolder path fun
        | .error .notFound =>
          (makeFolders above).andThen fun
            | .ok () => .makeFolder path accept
            | .error e => .done (.error e)
        | r => accept r

def makeParent (path : String) : Failing Unit :=
  ExceptT.mk (makeFolders (Path.above path))

end Script

end SchemaDecl
