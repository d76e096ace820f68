/-!
# Paths

A path is a text cut at slashes.  Its names are the segments other than the empty one and the single point: the others
do not change where it leads.
-/

namespace SchemaDecl.Path

def isAbsolute (path : String) : Bool := path.toList.head? = some '/'

/-- The segments between slashes. -/
def segments (path : String) : List String := (path.toList.splitOn '/').map String.ofList

/-- Whether a segment stays where it is. -/
def isHere (segment : String) : Bool := segment = "" || segment = "."

/-- The names along a path. -/
def names (path : String) : List String := (segments path).filter (!isHere ·)

/-- The path with the given segments. -/
def ofSegments (segments : List String) : String :=
  String.ofList (List.intercalate ['/'] (segments.map String.toList))

/-- The segments before the last name, the last one first.  Segments after that name, which stay where they are, go with
it; those before it are kept as they stand, for they count in the length of a path. -/
def above (path : String) : List String := ((segments path).reverse.dropWhile isHere).drop 1

/-- A relative path below another one. -/
def join (root path : String) : String :=
  if root = "" ∨ root.toList.getLast? = some '/' then root ++ path else root ++ "/" ++ path

/-- A path without the `./` in front of it, however often it is there. -/
def stripHere (path : String) : String := String.ofList (go path.toList)
where
  go : List Char → List Char
    | '.' :: '/' :: rest => go rest
    | rest => rest

end SchemaDecl.Path
