import SchemaDecl.Json.Value
import SchemaDecl.Schema.Tag

/-!
# Reading schema documents

`Document.parse` decodes a JSON text.  Members that are not known are ignored.  The type of a field is read whole before
its member is looked at, but its tag is checked where it stands.

A record may be written as an object or as an array.  `fromMembers` reads the members of an object into `Parts`, in any
order, and `fromElements` the elements of an array, in the order of declaration.
-/

namespace SchemaDecl

open Json

/-- How a value is named in a message. -/
def Json.Value.found : Value → Found
  | .null => .null
  | .boolean b => .boolean b
  | .number n => .number n
  | .string s => .string s
  | .array _ => .sequence
  | .object _ => .map

/-- The fault of a value of another kind than expected. -/
def Json.Value.unexpected (v : Value) (expected : String) : Fault :=
  .mismatch (.kind v.found expected)

def NativeType.ofName (name : String) : Except Fault NativeType :=
  match choices.lookup name with
  | some t => .ok t
  | none => .error (.mismatch (.choice name (choices.map Prod.fst)))

/-- A native type: its name, or an object that has the name as its only key and nothing as its value. -/
def NativeType.ofValue : Value → Except Fault NativeType
  | .string name => ofName name
  | .object [(name, v)] => do
    let t ← ofName name
    match v with
    | .null | .object [] => .ok t
    | v => .error (v.unexpected "unit")
  | .object _ => .error (.mismatch .singleKey)
  | v => .error (v.unexpected "string or map")

/-- The name that a type refers to. -/
def referenceOfValue : Value → Except Fault String
  | .string name => .ok name
  | v => .error (v.unexpected "a string")

namespace FieldType

/-- A field type from its tag and the value of the member beside it. -/
def ofTag (tag : FieldTag) (v : Value) : Except Fault FieldType :=
  match tag with
  | .native => (NativeType.ofValue v).map .native
  | .enum => (referenceOfValue v).map .enum
  | .schema => (referenceOfValue v).map .schema
  | .table => (referenceOfValue v).map .table

/-- Looks for the member of a tag among the members of an object; `found` is what has been found so far. -/
def ofMembers (tag : FieldTag) (found : Option FieldType) : List (String × Value) → Except Fault FieldType
  | [] =>
    match found with
    | some t => .ok t
    | none => .error (.mismatch (.missing tag.member))
  | (k, v) :: rest =>
    if k ≠ tag.member then ofMembers tag found rest
    else if found.isSome then .error (.mismatch (.repeated k))
    else do ofMembers tag (some (← ofTag tag v)) rest

/-- The member of a tag is the only other element of an array. -/
def ofElements (tag : FieldTag) : List Value → Except Fault FieldType
  | [] => .error (.mismatch (.length 0 ("struct variant FieldType::" ++ tag.title ++ " with 1 element")))
  | v :: rest => do
    let t ← ofTag tag v
    if rest.isEmpty then .ok t else .error (.mismatch (.length (rest.length + 1) "1 element in sequence"))

/-- How many levels of arrays and objects a text may have. -/
def maxLevels : Nat := 127

/-- How many levels are open inside the type of a field: document, entities, entity, fields, field, type. -/
def levels : Nat := 6

/-- A value inside the type of a field. -/
def memberValue : Decoder Value := Decoder.value (maxLevels - levels)

/-- What has been read of a type that is written as an object. -/
structure Parts where
  tag : Option FieldTag := none
  members : List (String × Value) := []

/-- A member of a type that is written as an object. -/
def member (p : Parts) (k : String) : Decoder Parts := do
  if k = "type" then return { p with tag := ← Decoder.once k p.tag (Decoder.choice FieldTag.choices) }
  Decoder.colon
  return { p with members := p.members ++ [(k, ← memberValue)] }

/-- A type that is written as an object. -/
def fromMembers : Decoder FieldType := do
  let p ← Decoder.allMembers member {}
  let tag ← Decoder.require "type" p.tag
  ofMembers tag none p.members

/-- The tag and the other elements of a type that is written as an array. -/
def fromElements : Decoder (FieldTag × List Value) := do
  let tag ← Decoder.require "type" (← Decoder.optional true (Decoder.choice FieldTag.choices))
  return (tag, ← Decoder.allElements memberValue false)

def decoder : Decoder FieldType
  | [] => .error .truncated
  | .openObject :: ts => fromMembers ts
  | .openArray :: ts =>
    (do
      let (tag, values) ← fromElements
      Decoder.closeArray
      ofElements tag values : Decoder FieldType) ts
  | t :: _ => .error (t.unexpected "internally tagged enum FieldType")

end FieldType

namespace Field

structure Parts where
  key : Option String := none
  required : Option Bool := none
  array : Option Bool := none
  type : Option FieldType := none

def member (p : Parts) (k : String) : Decoder Parts := do
  if k = "key" then return { p with key := ← Decoder.once k p.key Decoder.text }
  if k = "required" then return { p with required := ← Decoder.once k p.required Decoder.boolean }
  if k = "array" then return { p with array := ← Decoder.once k p.array Decoder.boolean }
  if k = "type" then return { p with type := ← Decoder.once k p.type FieldType.decoder }
  Decoder.ignoredMember
  return p

def fromMembers : Decoder Field := do
  let p ← Decoder.allMembers member {}
  let key ← Decoder.require "key" p.key
  let type ← Decoder.require "type" p.type
  return ⟨key, p.required.getD false, p.array.getD false, type⟩

def fromElements : Decoder Field := do
  let key ← Decoder.requireElement 0 "struct Field with 4 elements" (← Decoder.optional true Decoder.text)
  let required ← Decoder.optional false Decoder.boolean
  let array ← Decoder.optional false Decoder.boolean
  let type ← Decoder.requireElement 3 "struct Field with 4 elements" (← Decoder.optional false FieldType.decoder)
  return ⟨key, required.getD false, array.getD false, type⟩

def decoder : Decoder Field := Decoder.record "struct Field" fromMembers fromElements

end Field

namespace Entity

structure Parts where
  name : Option String := none
  fields : Option (List Field) := none

def member (p : Parts) (k : String) : Decoder Parts := do
  if k = "name" then return { p with name := ← Decoder.once k p.name Decoder.text }
  if k = "items" then return { p with fields := ← Decoder.once k p.fields (Decoder.array Field.decoder) }
  Decoder.ignoredMember
  return p

def fromMembers : Decoder Entity := do
  let p ← Decoder.allMembers member {}
  let name ← Decoder.require "name" p.name
  return ⟨name, p.fields.getD []⟩

def fromElements : Decoder Entity := do
  let name ← Decoder.requireElement 0 "struct SchemaEntity with 2 elements" (← Decoder.optional true Decoder.text)
  let fields ← Decoder.optional false (Decoder.array Field.decoder)
  return ⟨name, fields.getD []⟩

def decoder : Decoder Entity := Decoder.record "struct SchemaEntity" fromMembers fromElements

end Entity

namespace PathMap

/-- An entry; a later one of the same name replaces it. -/
def member (m : PathMap) (k : String) : Decoder PathMap := do
  Decoder.colon
  return m.insert k (← Decoder.text)

def decoder : Decoder PathMap
  | [] => .error .truncated
  | .openObject :: ts => Decoder.allMembers member empty ts
  | t :: _ => .error (t.unexpected "a map")

def parse (text : String) : Except Fault PathMap := decoder.run text

end PathMap

namespace Document

structure Parts where
  entities : Option (List Entity) := none
  tables : Option PathMap := none

def member (p : Parts) (k : String) : Decoder Parts := do
  if k = "schemas" then return { p with entities := ← Decoder.once k p.entities (Decoder.array Entity.decoder) }
  if k = "tables" then return { p with tables := ← Decoder.once k p.tables PathMap.decoder }
  Decoder.ignoredMember
  return p

def fromMembers : Decoder Document := do
  let p ← Decoder.allMembers member {}
  return ⟨p.entities.getD [], p.tables.getD .empty⟩

def fromElements : Decoder Document := do
  let entities ← Decoder.optional true (Decoder.array Entity.decoder)
  let tables ← Decoder.optional false PathMap.decoder
  return ⟨entities.getD [], tables.getD .empty⟩

def decoder : Decoder Document := Decoder.record "struct SchemaDocument" fromMembers fromElements

def parse (text : String) : Except Fault Document := decoder.run text

end Document

end SchemaDecl
