import SchemaDecl.FileTree.Path

/-!
# File trees

A file system without links: a folder or a file at each location, which is the list of names from the root.  A path is
walked segment by segment, and everything passed on the way must be a folder.  Reading, making a folder and writing a
file each say what stands in the way.
-/

namespace SchemaDecl

/-- What a file holds. -/
inductive Content where
  | text (s : String)
  | binary (bytes : List Nat)
  deriving DecidableEq

/-- What stands at a location. -/
inductive Node where
  | folder
  | file (content : Content)
  deriving DecidableEq

inductive FileError where
  | notFound
  | alreadyExists
  | notFolder
  | isFolder
  | nameTooLong
  | notText
  | nulCharacter
  | outside (filename : String)
  | other (message : String)
  deriving DecidableEq

def FileError.message : FileError → String
  | .notFound => "No such file or directory (os error 2)"
  | .alreadyExists => "File exists (os error 17)"
  | .notFolder => "Not a directory (os error 20)"
  | .isFolder => "Is a directory (os error 21)"
  | .nameTooLong => "File name too long (os error 36)"
  | .notText => "stream did not contain valid UTF-8"
  | .nulCharacter => "file name contained an unexpected NUL byte"
  | .outside filename => "generated file " ++ filename ++ " is outside the output directory"
  | .other message => message

/-- A location: the names from the root. -/
abbrev Location := List String

/-- A file system, and the folder that relative paths start from. -/
structure FileTree where
  entries : List (Location × Node)
  home : Location

namespace FileTree

/-- What stands at a location; the root is always a folder. -/
def get? (t : FileTree) (l : Location) : Option Node :=
  if l = [] then some .folder else t.entries.lookup l

/-- Puts something at a location, in the place of what stood there. -/
def putEntry (l : Location) (node : Node) : List (Location × Node) → List (Location × Node)
  | [] => [(l, node)]
  | (k, n) :: rest => if k = l then (l, node) :: rest else (k, n) :: putEntry l node rest

/-- The tree with something else at a location. -/
def put (t : FileTree) (l : Location) (node : Node) : FileTree :=
  { t with entries := putEntry l node t.entries }

private theorem lookup_putEntry (l : Location) (node : Node) (entries : List (Location × Node)) (k : Location) :
    (putEntry l node entries).lookup k = if k = l then some node else entries.lookup k := by
  induction entries with
  | nil =>
    rw [putEntry, List.lookup_cons]
    by_cases h : k = l
    · simp [h]
    · simp [h, beq_eq_false_iff_ne.2 h]
  | cons e entries ih =>
    obtain ⟨m, n⟩ := e
    unfold putEntry
    split
    · rename_i hm
      subst hm
      rw [List.lookup_cons, List.lookup_cons]
      by_cases h : k = m
      · simp [h]
      · simp [h, beq_eq_false_iff_ne.2 h]
    · rename_i hm
      rw [List.lookup_cons, List.lookup_cons, ih]
      by_cases h : k = m
      · subst h
        simp [hm]
      · simp [beq_eq_false_iff_ne.2 h]

/-- Putting something at a location changes that location and no other; the root stays a folder. -/
theorem get?_put (t : FileTree) (l : Location) (node : Node) (k : Location) (hk : k ≠ []) :
    (t.put l node).get? k = if k = l then some node else t.get? k := by
  simp [get?, put, hk, lookup_putEntry]

@[simp] theorem home_put (t : FileTree) (l : Location) (node : Node) : (t.put l node).home = t.home := rfl

/-- The greatest number of bytes in a name. -/
def maxName : Nat := 255

/-- The greatest number of bytes in a path. -/
def maxPath : Nat := 4095

/-- Fails unless a folder stands at a location. -/
def requireFolder (t : FileTree) (l : Location) : Except FileError Unit :=
  match t.get? l with
  | some .folder => .ok ()
  | some (.file _) => .error .notFolder
  | none => .error .notFound

/-- Walks along segments; each starts from a folder, and the last one may lead to a file. -/
def walk (t : FileTree) (l : Location) : List String → Except FileError Location
  | [] => .ok l
  | s :: rest => do
    t.requireFolder l
    if Path.isHere s then walk t l rest
    else if s = ".." then walk t l.dropLast rest
    else if maxName < s.utf8ByteSize then .error .nameTooLong
    else if (t.get? (l ++ [s])).isNone then .error .notFound
    else walk t (l ++ [s]) rest

/-- Fails on a text that is no path. -/
def checkPath (path : String) : Except FileError Unit :=
  if path.toList.any (·.toNat = 0) then .error .nulCharacter
  else if path = "" then .error .notFound
  else if maxPath < path.utf8ByteSize then .error .nameTooLong
  else .ok ()

/-- Where walking along a path starts. -/
def start (t : FileTree) (path : String) : Location := if Path.isAbsolute path then [] else t.home

/-- The location that a path leads to. -/
def locate (t : FileTree) (path : String) : Except FileError Location := do
  checkPath path
  t.walk (t.start path) (Path.segments path)

def isFolder (t : FileTree) (path : String) : Bool :=
  match t.locate path with
  | .ok l => t.get? l = some .folder
  | .error _ => false

def readText (t : FileTree) (path : String) : Except FileError String := do
  match t.get? (← t.locate path) with
  | some (.file (.text s)) => .ok s
  | some (.file (.binary _)) => .error .notText
  | some .folder => .error .isFolder
  | none => .error .notFound

/-- The last segment that is not empty, with the segments before it; slashes at the end do not count. -/
def lastSegment? (path : String) : Option (List String × String) :=
  match (Path.segments path).reverse.dropWhile (· = "") with
  | [] => none
  | s :: before => some (before.reverse, s)

/-- The location that a path names for something new: the folder before the last segment, and the last segment. -/
def place (t : FileTree) (path : String) (taken : FileError) : Except FileError (Location × String) := do
  checkPath path
  match lastSegment? path with
  | none => .error taken
  | some (before, s) =>
    let folder ← t.walk (t.start path) before
    t.requireFolder folder
    if s = "." ∨ s = ".." then .error taken else .ok (folder, s)

def makeFolder (t : FileTree) (path : String) : Except FileError FileTree := do
  let (folder, name) ← t.place path .alreadyExists
  if maxName < name.utf8ByteSize then .error .nameTooLong
  else if (t.get? (folder ++ [name])).isSome then .error .alreadyExists
  else .ok (t.put (folder ++ [name]) .folder)

/-- Writes a file, over an earlier one; a path that ends in a slash names no file. -/
def writeText (t : FileTree) (path content : String) : Except FileError FileTree := do
  let (folder, name) ← t.place path .isFolder
  if path.toList.getLast? = some '/' then .error .isFolder
  else if maxName < name.utf8ByteSize then .error .nameTooLong
  else if t.get? (folder ++ [name]) = some .folder then .error .isFolder
  else .ok (t.put (folder ++ [name]) (.file (.text content)))

/-- The tree with a node along names from home, and folders on the way. -/
def plant (t : FileTree) (names : List String) (node : Node) : FileTree :=
  let folders := (List.range names.length).map fun k => t.home ++ names.take k
  let t := folders.foldl (fun t l => if (t.get? l).isSome then t else t.put l .folder) t
  t.put (t.home ++ names) node

/-- A tree with nothing but the folder that relative paths start from. -/
def fresh (home : Location) : FileTree :=
  ⟨((List.range home.length).map fun k => (home.take (k + 1), Node.folder)), home⟩

end FileTree

end SchemaDecl
