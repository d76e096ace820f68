import SchemaDecl.Json.Print
import SchemaDecl.Schema.Tag

/-!
# Writing schema documents

All members are written, in the order of declaration, and the tables in the order of their names.
-/

namespace SchemaDecl

open Json

/-- A field type as tokens: the tag and then its member. -/
def FieldType.tokens (t : FieldType) : List Token :=
  Token.object [("type", [.ofText t.tag.name]), (t.tag.member, [.ofText t.memberText])]

def Field.tokens (f : Field) : List Token :=
  Token.object [("key", [.ofText f.key]), ("required", [.boolean f.required]), ("array", [.boolean f.array]),
    ("type", f.type.tokens)]

def Entity.tokens (e : Entity) : List Token :=
  Token.object [("name", [.ofText e.name]), ("items", Token.array (e.fields.map Field.tokens))]

/-- A map as tokens, in the order of its names. -/
def PathMap.tokens (m : PathMap) : List Token :=
  Token.object (m.entries.map fun (name, path) => (name, [.ofText path]))

def Document.tokens (d : Document) : List Token :=
  Token.object [("schemas", Token.array (d.entities.map Entity.tokens)), ("tables", d.tables.tokens)]

def Field.toJson (f : Field) : String := Token.print f.tokens

def Entity.toJson (e : Entity) : String := Token.print e.tokens

def Document.toJson (d : Document) : String := Token.print d.tokens

end SchemaDecl
