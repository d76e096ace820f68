import SchemaDecl.Trace

/-!
# References

The type of a field may refer to an entity, a table or an enum.  `Scope.resolve` turns the references of an entity into
imports, field by field, and stops at the first one that is missing.  Enums are looked up only when they are imported.
-/

namespace SchemaDecl

/-- What names can refer to. -/
structure Scope where
  entities : List Entity
  tables : PathMap
  config : Config

namespace Scope

/-- The module of a table or enum. -/
def lookup (scope : Scope) (kind : ReferenceKind) (entity field name : String) : Except CompileError Import :=
  match scope.tables.get? name with
  | some path => .ok ⟨name, path⟩
  | none => .error (.unresolved kind entity field name)

/-- The import that a field needs, if it needs one. -/
def resolveField (scope : Scope) (entity : String) (f : Field) : Except CompileError (Option Import) :=
  match f.type with
  | .native _ => .ok none
  | .schema name =>
    match findEntity? scope.entities name with
    | some e => .ok (some ⟨e.name, scope.config.logicalPath e.name⟩)
    | none => .error (.unresolved .schema entity f.key name)
  | .table name => (scope.lookup .table entity f.key name).map some
  | .enum name => if scope.config.importEnums then (scope.lookup .enum entity f.key name).map some else .ok none

/-- The imports of fields, in their order. -/
def resolveFields (scope : Scope) (entity : String) : List Field → Traced (List Import)
  | [] => pure []
  | f :: fs => do
    match ← Traced.ofExcept (scope.resolveField entity f) with
    | none => resolveFields scope entity fs
    | some i =>
      Traced.record (.imported entity f.key i)
      let is ← resolveFields scope entity fs
      return i :: is

def resolve (scope : Scope) (e : Entity) : Traced (List Import) := scope.resolveFields e.name e.fields

end Scope

end SchemaDecl
