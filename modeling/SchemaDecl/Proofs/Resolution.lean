import Mathlib.Data.List.ReduceOption
import SchemaDecl.Compile
import SchemaDecl.Proofs.Traversal

/-!
# The result of a compilation

The events of a compilation do not decide its result: without them it is a traversal of the entities, each of which is
a traversal of its fields, and both stop at the first error (`Config.compile_eq`, `Config.compileEntity_eq`).  What a
single field contributes is said by two relations on its type: `Scope.Missing`, a name that leads nowhere, and
`Scope.LeadsTo`, the import that a name leads to.
-/

namespace SchemaDecl

/-! ### Results without events -/

namespace Traced

variable {α β : Type}

@[simp] theorem result_pure (a : α) : (pure a : Traced α).result = .ok a := rfl

@[simp] theorem result_record (event : Event) : (record event).result = .ok () := rfl

@[simp] theorem result_ofExcept (x : Except CompileError α) : (ofExcept x).result = x := rfl

@[simp] theorem result_bind (x : Traced α) (f : α → Traced β) :
    (x >>= f).result = x.result >>= fun a => (f a).result := by
  obtain ⟨events, result⟩ := x
  cases result <;> rfl

end Traced

namespace Scope

theorem resolveFields_result (scope : Scope) (entity : String) (fs : List Field) :
    (scope.resolveFields entity fs).result = (fs.mapM (scope.resolveField entity)).map List.reduceOption := by
  induction fs with
  | nil => rfl
  | cons f fs ih =>
    rw [resolveFields, List.mapM_cons, Traced.result_bind, Traced.result_ofExcept]
    cases scope.resolveField entity f with
    | error e => rfl
    | ok o =>
      cases o with
      | none =>
        show (scope.resolveFields entity fs).result = _
        rw [ih]
        cases fs.mapM (scope.resolveField entity) <;> rfl
      | some i =>
        show (Traced.record (.imported entity f.key i) >>= fun _ =>
          scope.resolveFields entity fs >>= fun is => pure (i :: is)).result = _
        simp only [Traced.result_bind, ih]
        cases fs.mapM (scope.resolveField entity) <;> rfl

end Scope

namespace Config

/-- An entity compiles to what it renders to with the imports of its fields. -/
theorem compileEntity_eq (config : Config) (e : Entity) (entities : List Entity) (tables : PathMap) :
    config.compileEntity e entities tables =
      (e.fields.mapM (Scope.resolveField ⟨entities, tables, config⟩ e.name)).map
        fun is => e.render config is.reduceOption := by
  rw [compileEntity, Scope.resolve, Scope.resolveFields_result]
  cases e.fields.mapM (Scope.resolveField ⟨entities, tables, config⟩ e.name) <;> rfl

theorem renderEntity_result (config : Config) (e : Entity) (entities : List Entity) (tables : PathMap) :
    (Scope.renderEntity ⟨entities, tables, config⟩ e).result = config.compileEntity e entities tables := by
  rw [Scope.renderEntity, compileEntity, Traced.result_bind]
  cases (Scope.resolve ⟨entities, tables, config⟩ e).result <;> rfl

theorem renderAll_result (config : Config) (entities : List Entity) (tables : PathMap) (es : List Entity) :
    (Scope.renderAll ⟨entities, tables, config⟩ es).result =
      es.mapM fun e => config.compileEntity e entities tables := by
  induction es with
  | nil => rfl
  | cons e es ih =>
    rw [Scope.renderAll, List.mapM_cons, Traced.result_bind, renderEntity_result]
    cases config.compileEntity e entities tables with
    | error err => rfl
    | ok r =>
      show (Scope.renderAll ⟨entities, tables, config⟩ es >>= fun rs => pure (r :: rs)).result = _
      rw [Traced.result_bind, ih]
      rfl

/-- A compilation checks the names and then compiles the entities one by one. -/
theorem compile_eq (config : Config) (entities : List Entity) (tables : PathMap) :
    config.compile entities tables =
      (config.checkNames entities).result >>= fun _ =>
        (entities.mapM fun e => config.compileEntity e entities tables).map config.assemble := by
  rw [compile, trace, Traced.result_bind]
  cases (config.checkNames entities).result with
  | error err => rfl
  | ok u =>
    show (Scope.renderAll ⟨entities, tables, config⟩ entities >>= fun rs => _).result = _
    rw [Traced.result_bind, renderAll_result]
    cases entities.mapM fun e => config.compileEntity e entities tables <;> rfl

/-- A compilation that succeeds compiles every entity and puts the results together. -/
theorem compile_eq_ok {config : Config} {entities : List Entity} {tables : PathMap} {out : Output}
    (h : config.compile entities tables = .ok out) :
    ∃ rs, List.Forall₂ (fun e r => config.compileEntity e entities tables = .ok r) entities rs ∧
      out = config.assemble rs := by
  rw [compile_eq] at h
  cases hcheck : (config.checkNames entities).result with
  | error err => rw [hcheck] at h; cases h
  | ok u =>
    cases hrs : entities.mapM fun e => config.compileEntity e entities tables with
    | error err => rw [hcheck, hrs] at h; cases h
    | ok rs =>
      rw [hcheck, hrs] at h
      exact ⟨rs, mapM_eq_ok_iff.1 hrs, (Except.ok.inj h).symm⟩

end Config

/-! ### The reference of a field -/

/-- The names that a map has a path for. -/
def PathMap.names (m : PathMap) : List String := m.entries.map Prod.fst

theorem PathMap.get?_eq_none_iff {m : PathMap} {name : String} : m.get? name = none ↔ name ∉ m.names := by
  rw [get?, names, List.lookup_eq_none_iff, List.mem_map]
  constructor
  · rintro h ⟨p, hp, rfl⟩
    simpa using h p hp
  · intro h p hp
    rw [bne_iff_ne]
    rintro rfl
    exact h ⟨p, hp, rfl⟩

theorem findEntity?_eq_none_iff {entities : List Entity} {name : String} :
    findEntity? entities name = none ↔ name ∉ entities.map Entity.name := by
  rw [findEntity?, List.find?_eq_none, List.mem_map]
  constructor
  · rintro h ⟨e, he, rfl⟩
    simpa using h e he
  · intro h e he heq
    exact h ⟨e, he, of_decide_eq_true heq⟩

private theorem name_of_findEntity? {entities : List Entity} {name : String} {e : Entity}
    (h : findEntity? entities name = some e) : e.name = name := by
  have := List.find?_some h
  exact of_decide_eq_true this

/-- Whether a field needs an import: a reference to an entity or a table always does. -/
def Field.needsImport (f : Field) (config : Config) : Bool :=
  match f.type with
  | .native _ => false
  | .enum _ => config.importEnums
  | .schema _ | .table _ => true

namespace Scope

/-- A name that leads nowhere: no entity is called so, or nothing is known of the module of the table or of the enum.
An enum needs a module only when enums are imported. -/
inductive Missing (scope : Scope) : FieldType → ReferenceKind → String → Prop
  | schema {name : String} (absent : name ∉ scope.entities.map Entity.name) : Missing scope (.schema name) .schema name
  | table {name : String} (absent : name ∉ scope.tables.names) : Missing scope (.table name) .table name
  | enum {name : String} (imported : scope.config.importEnums = true) (absent : name ∉ scope.tables.names) :
    Missing scope (.enum name) .enum name

/-- The import that a type leads to: for an entity its own module, for a table or an imported enum the module on
record. -/
inductive LeadsTo (scope : Scope) : FieldType → Import → Prop
  | schema {name : String} (present : name ∈ scope.entities.map Entity.name) :
    LeadsTo scope (.schema name) ⟨name, scope.config.logicalPath name⟩
  | table {name path : String} (present : scope.tables.get? name = some path) : LeadsTo scope (.table name) ⟨name, path⟩
  | enum {name path : String} (imported : scope.config.importEnums = true)
    (present : scope.tables.get? name = some path) : LeadsTo scope (.enum name) ⟨name, path⟩

private theorem LeadsTo.needsImport {scope : Scope} {f : Field} {i : Import} (h : scope.LeadsTo f.type i) :
    f.needsImport scope.config = true := by
  obtain ⟨key, required, array, type⟩ := f
  cases h with
  | schema present => rfl
  | table present => rfl
  | enum imported present => exact imported

theorem Missing.resolveField {scope : Scope} {entity : String} {f : Field} {kind : ReferenceKind} {name : String}
    (h : scope.Missing f.type kind name) :
    scope.resolveField entity f = .error (.unresolved kind entity f.key name) := by
  obtain ⟨key, required, array, type⟩ := f
  cases h with
  | schema absent => simp only [Scope.resolveField, findEntity?_eq_none_iff.2 absent]
  | table absent => simp only [Scope.resolveField, lookup, PathMap.get?_eq_none_iff.2 absent, Except.map]
  | enum imported absent =>
    simp only [Scope.resolveField, lookup, PathMap.get?_eq_none_iff.2 absent, imported, Except.map, if_true]

theorem LeadsTo.resolveField {scope : Scope} {entity : String} {f : Field} {i : Import}
    (h : scope.LeadsTo f.type i) : scope.resolveField entity f = .ok (some i) := by
  obtain ⟨key, required, array, type⟩ := f
  cases h with
  | @schema name present =>
    cases hfind : findEntity? scope.entities name with
    | none => exact absurd present (findEntity?_eq_none_iff.1 hfind)
    | some e => simp only [Scope.resolveField, hfind, name_of_findEntity? hfind]
  | table present => simp only [Scope.resolveField, lookup, present, Except.map]
  | enum imported present => simp only [Scope.resolveField, lookup, present, imported, Except.map, if_true]

theorem resolveField_of_not_needsImport {scope : Scope} {entity : String} {f : Field}
    (h : f.needsImport scope.config = false) : scope.resolveField entity f = .ok none := by
  obtain ⟨key, required, array, type⟩ := f
  cases type with
  | native t => rfl
  | enum name =>
    have hoff : scope.config.importEnums = false := h
    simp only [resolveField, hoff, Bool.false_eq_true, if_false]
  | schema name => cases h
  | table name => cases h

/-- A field needs no import, or its type leads to one, or its name is missing. -/
theorem reference_cases (scope : Scope) (f : Field) :
    f.needsImport scope.config = false ∨ (∃ i, scope.LeadsTo f.type i) ∨
      ∃ kind name, scope.Missing f.type kind name := by
  obtain ⟨key, required, array, type⟩ := f
  cases type with
  | native t => exact .inl rfl
  | schema name =>
    by_cases h : name ∈ scope.entities.map Entity.name
    · exact .inr (.inl ⟨_, .schema h⟩)
    · exact .inr (.inr ⟨_, _, .schema h⟩)
  | table name =>
    cases h : scope.tables.get? name with
    | some path => exact .inr (.inl ⟨_, .table h⟩)
    | none => exact .inr (.inr ⟨_, _, .table (PathMap.get?_eq_none_iff.1 h)⟩)
  | enum name =>
    cases himported : scope.config.importEnums with
    | false => exact .inl himported
    | true =>
      cases h : scope.tables.get? name with
      | some path => exact .inr (.inl ⟨_, .enum himported h⟩)
      | none => exact .inr (.inr ⟨_, _, .enum himported (PathMap.get?_eq_none_iff.1 h)⟩)

/-- A field stops a compilation exactly when its name is missing, and the error says which name where. -/
theorem resolveField_eq_error_iff {scope : Scope} {entity : String} {f : Field} {err : CompileError} :
    scope.resolveField entity f = .error err ↔
      ∃ kind name, scope.Missing f.type kind name ∧ err = .unresolved kind entity f.key name := by
  constructor
  · intro h
    rcases scope.reference_cases f with hnone | ⟨i, hi⟩ | ⟨kind, name, hmissing⟩
    · rw [resolveField_of_not_needsImport hnone] at h
      cases h
    · rw [hi.resolveField] at h
      cases h
    · rw [hmissing.resolveField] at h
      exact ⟨kind, name, hmissing, (Except.error.inj h).symm⟩
  · rintro ⟨kind, name, hmissing, rfl⟩
    exact hmissing.resolveField

/-- What a field contributes when it does not stop the compilation: the import its type leads to, if it needs one. -/
theorem resolveField_eq_ok {scope : Scope} {entity : String} {f : Field} {o : Option Import}
    (h : scope.resolveField entity f = .ok o) :
    (f.needsImport scope.config = false ∧ o = none) ∨
      (f.needsImport scope.config = true ∧ ∃ i, scope.LeadsTo f.type i ∧ o = some i) := by
  rcases scope.reference_cases f with hnone | ⟨i, hi⟩ | ⟨kind, name, hmissing⟩
  · rw [resolveField_of_not_needsImport hnone] at h
    exact .inl ⟨hnone, (Except.ok.inj h).symm⟩
  · rw [hi.resolveField] at h
    exact .inr ⟨hi.needsImport, i, hi, (Except.ok.inj h).symm⟩
  · rw [hmissing.resolveField] at h
    cases h

/-- The imports of fields are what the types of those that need one lead to, in their order. -/
private theorem forall₂_leadsTo {scope : Scope} {entity : String} {fs : List Field} {os : List (Option Import)}
    (h : List.Forall₂ (fun f o => scope.resolveField entity f = .ok o) fs os) :
    List.Forall₂ (fun f i => scope.LeadsTo f.type i) (fs.filter (·.needsImport scope.config)) os.reduceOption := by
  induction h with
  | nil => exact .nil
  | cons hf _ ih =>
    rcases resolveField_eq_ok hf with ⟨hnone, rfl⟩ | ⟨hneeds, i, hi, rfl⟩
    · rw [List.filter_cons_of_neg (by simp [hnone]), List.reduceOption_cons_of_none]
      exact ih
    · rw [List.filter_cons_of_pos (by simp [hneeds]), List.reduceOption_cons_of_some]
      exact .cons hi ih

end Scope

/-- An entity that compiles is rendered with its imports, one for each field that needs one. -/
theorem Config.compileEntity_eq_ok {config : Config} {e : Entity} {entities : List Entity} {tables : PathMap}
    {r : Rendered} (h : config.compileEntity e entities tables = .ok r) :
    ∃ imports, (Scope.resolve ⟨entities, tables, config⟩ e).result = .ok imports ∧ r = e.render config imports ∧
      List.Forall₂ (fun f i => Scope.LeadsTo ⟨entities, tables, config⟩ f.type i)
        (e.fields.filter (·.needsImport config)) imports := by
  rw [compileEntity_eq] at h
  cases hos : e.fields.mapM (Scope.resolveField ⟨entities, tables, config⟩ e.name) with
  | error err => rw [hos] at h; cases h
  | ok os =>
    rw [hos] at h
    refine ⟨os.reduceOption, ?_, (Except.ok.inj h).symm, Scope.forall₂_leadsTo (mapM_eq_ok_iff.1 hos)⟩
    rw [Scope.resolve, Scope.resolveFields_result, hos]
    rfl

end SchemaDecl
