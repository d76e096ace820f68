import SchemaDecl.Config
import SchemaDecl.Import
import SchemaDecl.Schema.Basic

/-!
# Errors and events of a compilation

A compilation stops at a repeated name or at a reference to something that is missing.  On the way it records events,
and `Traced` keeps them also when it stops.
-/

namespace SchemaDecl

/-- The kinds of references. -/
inductive ReferenceKind where
  | schema
  | table
  | enum
  deriving DecidableEq

/-- Why a compilation stops. -/
inductive CompileError where
  | duplicate (name : String)
  | unresolved (kind : ReferenceKind) (entity field name : String)
  deriving DecidableEq

namespace CompileError

def message : CompileError → String
  | .duplicate name => "schema error: " ++ duplicateMessage name
  | .unresolved .schema entity field name => "schema \"" ++ name ++ "\" is not available" ++ place entity field
  | .unresolved .table entity field name => "table \"" ++ name ++ "\" is not available on models" ++ place entity field
  | .unresolved .enum entity field name => "enum \"" ++ name ++ "\" is not available on models" ++ place entity field
where
  place (entity field : String) : String := " (field '" ++ field ++ "' of '" ++ entity ++ "')"

/-- The name that is missing. -/
def missingName? : CompileError → Option String
  | .duplicate _ => none
  | .unresolved _ _ _ name => some name

end CompileError

/-! ### Events -/

/-- What happens during a compilation. -/
inductive Event where
  | repeated (name : String)
  | imported (entity field : String) (i : Import)
  | compiled (entity : String) (fields imports : Nat)
  | finished (files : Nat) (mode : Mode) (support : Nat)
  deriving DecidableEq

/-- How much an event matters. -/
inductive Level where
  | warn
  | info
  | debug
  deriving DecidableEq

namespace Event

def level : Event → Level
  | .repeated _ => .warn
  | .imported _ _ _ => .debug
  | .compiled _ _ _ => .debug
  | .finished _ _ _ => .info

def message : Event → String
  | .repeated name => duplicateMessage name ++ ", keeping the later entry"
  | .imported entity field i => entity ++ "." ++ field ++ " imports " ++ i.name ++ " from " ++ i.path
  | .compiled entity fields imports =>
    "Compiled " ++ entity ++ " (" ++ toString fields ++ " fields, " ++ toString imports ++ " imports)"
  | .finished files mode support =>
    "Compiled " ++ toString files ++ " schemas as " ++ mode.keyword ++ " declarations (" ++ toString support ++
      " support files)"

end Event

/-- A result together with the events on the way to it; an error keeps them. -/
structure Traced (α : Type) where
  events : List Event
  result : Except CompileError α

namespace Traced

/-- A result without events. -/
def ofExcept {α : Type} (result : Except CompileError α) : Traced α := ⟨[], result⟩

def record (event : Event) : Traced Unit := ⟨[event], .ok ()⟩

instance : Monad Traced where
  pure a := ⟨[], .ok a⟩
  bind x f :=
    match x.result with
    | .error e => ⟨x.events, .error e⟩
    | .ok a =>
      let y := f a
      ⟨x.events ++ y.events, y.result⟩

end Traced

end SchemaDecl
