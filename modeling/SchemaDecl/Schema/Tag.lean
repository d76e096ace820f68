import SchemaDecl.Schema.Basic

/-!
# Tags of field types

In a document a field type is an alternative, named by its tag, with one member beside the tag.
-/

namespace SchemaDecl

/-- The alternatives of a field type. -/
inductive FieldTag where
  | native
  | enum
  | schema
  | table
  deriving DecidableEq

namespace FieldTag

def name : FieldTag → String
  | .native => "native"
  | .enum => "enum"
  | .schema => "schema"
  | .table => "table"

/-- The member beside the tag. -/
def member : FieldTag → String
  | .native => "native_type"
  | .enum => "enum_name"
  | .schema => "schema_name"
  | .table => "table_name"

/-- The name of an alternative in a message. -/
def title : FieldTag → String
  | .native => "Native"
  | .enum => "Enum"
  | .schema => "Schema"
  | .table => "Table"

/-- The tags by name. -/
def choices : List (String × FieldTag) :=
  [.native, .enum, .schema, .table].map fun t => (t.name, t)

end FieldTag

/-- The native types by name. -/
def NativeType.choices : List (String × NativeType) :=
  [.number, .boolean, .string].map fun t => (t.name, t)

namespace FieldType

def tag : FieldType → FieldTag
  | .native _ => .native
  | .enum _ => .enum
  | .schema _ => .schema
  | .table _ => .table

/-- The text of the member beside the tag. -/
def memberText : FieldType → String
  | .native t => t.name
  | .enum name => name
  | .schema name => name
  | .table name => name

end FieldType

end SchemaDecl
