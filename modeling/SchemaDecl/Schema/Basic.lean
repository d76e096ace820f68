import SchemaDecl.PathMap

/-!
# Schema documents

A document lists entities and maps the names of tables and enums to the modules that declare them.  An entity has a name
and fields; the type of a field is native, or refers by name to an enum, another entity or a table.
-/

namespace SchemaDecl

/-- The types that need no declaration. -/
inductive NativeType where
  | number
  | boolean
  | string
  deriving DecidableEq

/-- The name of a native type, in documents and in declarations. -/
def NativeType.name : NativeType → String
  | .number => "number"
  | .boolean => "boolean"
  | .string => "string"

inductive FieldType where
  | native (type : NativeType)
  | enum (name : String)
  | schema (name : String)
  | table (name : String)
  deriving DecidableEq

/-- A member of an entity. -/
structure Field where
  key : String
  required : Bool := false
  array : Bool := false
  type : FieldType
  deriving DecidableEq

/-- An entity with its fields in the order of declaration. -/
structure Entity where
  name : String
  fields : List Field := []
  deriving DecidableEq

/-- Entities, and the modules of the tables and enums they refer to. -/
structure Document where
  entities : List Entity := []
  tables : PathMap := .empty
  deriving DecidableEq

/-- The first name that also stands earlier in the list. -/
def firstRepeated? (names : List String) : Option String :=
  go [] names
where
  go (seen : List String) : List String → Option String
    | [] => none
    | n :: ns => if n ∈ seen then some n else go (n :: seen) ns

/-- The first repeated name of a list of entities. -/
def firstDuplicate? (entities : List Entity) : Option String :=
  firstRepeated? (entities.map Entity.name)

def duplicateMessage (name : String) : String :=
  "duplicate schema definition: '" ++ name ++ "'"

/-- The first entity of a name. -/
def findEntity? (entities : List Entity) (name : String) : Option Entity :=
  entities.find? (·.name = name)

/-- The entity with one more field. -/
def Entity.withField (e : Entity) (f : Field) : Entity := { e with fields := e.fields ++ [f] }

namespace Document

/-- The document with further tables, which count before its own. -/
def mergeTables (d : Document) (tables : PathMap) : Document :=
  { d with tables := d.tables.merge tables }

end Document

end SchemaDecl
