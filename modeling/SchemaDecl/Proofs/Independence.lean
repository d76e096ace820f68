import Mathlib.Data.List.FinRange
import Mathlib.Logic.Equiv.Fin.Rotate
import SchemaDecl.Proofs.Batch

/-!
# What the file of an entity depends on

Of everything around it an entity sees only where the names of its own fields lead.  Two scopes that answer alike about
these names (`Scope.AgreeOn`) give the entity the same file or the same error (`Config.compileEntity_of_agree`),
whatever else they hold.  No such answer depends on the order of the entities.  So entities in another order compile
exactly if they did before, and the files follow the entities to their new places (`Rearranges`).
-/

namespace SchemaDecl

/-! ### Scopes that answer alike -/

/-- Settings that differ at most in whether a name may repeat. -/
def Config.SameApartFromRepeats (config₁ config₂ : Config) : Prop :=
  { config₁ with allowDuplicateNames := config₂.allowDuplicateNames } = config₂

theorem Config.SameApartFromRepeats.refl (config : Config) : config.SameApartFromRepeats config := rfl

namespace Scope

/-- Two scopes answer alike about a field.  Both know an entity of the name it refers to or neither does; for a table,
and for an enum if enums are imported, both have the same path or neither has one. -/
def AgreeOn (scope₁ scope₂ : Scope) (f : Field) : Prop :=
  match f.type with
  | .native _ => True
  | .schema name => name ∈ scope₁.entities.map Entity.name ↔ name ∈ scope₂.entities.map Entity.name
  | .table name => scope₁.tables.get? name = scope₂.tables.get? name
  | .enum name => scope₁.config.importEnums = true → scope₁.tables.get? name = scope₂.tables.get? name

variable {scope₁ scope₂ : Scope} {f : Field}

private theorem needsImport_of_same (hconfig : scope₁.config.SameApartFromRepeats scope₂.config) :
    f.needsImport scope₂.config = f.needsImport scope₁.config := by
  rw [← hconfig]
  rfl

theorem LeadsTo.of_agree (hconfig : scope₁.config.SameApartFromRepeats scope₂.config) (h : scope₁.AgreeOn scope₂ f)
    {i : Import} (hi : scope₁.LeadsTo f.type i) : scope₂.LeadsTo f.type i := by
  obtain ⟨key, required, array, type⟩ := f
  have himport : scope₂.config.importEnums = scope₁.config.importEnums := by rw [← hconfig]
  cases hi with
  | @schema name present =>
    have hpath : scope₁.config.logicalPath name = scope₂.config.logicalPath name := by
      rw [← hconfig]
      rfl
    rw [hpath]
    exact .schema (h.1 present)
  | table present => exact .table (h.symm.trans present)
  | enum imported present => exact .enum (himport.trans imported) ((h imported).symm.trans present)

theorem Missing.of_agree (hconfig : scope₁.config.SameApartFromRepeats scope₂.config) (h : scope₁.AgreeOn scope₂ f)
    {kind : ReferenceKind} {name : String} (hmissing : scope₁.Missing f.type kind name) :
    scope₂.Missing f.type kind name := by
  obtain ⟨key, required, array, type⟩ := f
  have himport : scope₂.config.importEnums = scope₁.config.importEnums := by rw [← hconfig]
  have habsent : scope₁.tables.get? name = scope₂.tables.get? name → name ∉ scope₁.tables.names →
      name ∉ scope₂.tables.names := by
    intro hget habsent
    rw [← PathMap.get?_eq_none_iff] at habsent ⊢
    exact hget.symm.trans habsent
  cases hmissing with
  | schema absent => exact .schema fun present => absent (h.2 present)
  | table absent => exact .table (habsent h absent)
  | enum imported absent => exact .enum (himport.trans imported) (habsent (h imported) absent)

/-- Scopes that answer alike about a field resolve it alike, to an import, to nothing or to an error. -/
theorem resolveField_of_agree (hconfig : scope₁.config.SameApartFromRepeats scope₂.config)
    (h : scope₁.AgreeOn scope₂ f) (entity : String) : scope₁.resolveField entity f = scope₂.resolveField entity f := by
  rcases scope₁.reference_cases f with hnone | ⟨i, hi⟩ | ⟨kind, name, hmissing⟩
  · have hnone' : f.needsImport scope₂.config = false := (needsImport_of_same hconfig).trans hnone
    rw [resolveField_of_not_needsImport hnone, resolveField_of_not_needsImport hnone']
  · rw [hi.resolveField, (hi.of_agree hconfig h).resolveField]
  · rw [hmissing.resolveField, (hmissing.of_agree hconfig h).resolveField]

end Scope

namespace Config

variable {config₁ config₂ : Config} {entities₁ entities₂ : List Entity} {tables₁ tables₂ : PathMap}

private theorem render_of_same (hconfig : config₁.SameApartFromRepeats config₂) (e : Entity) (imports : List Import) :
    e.render config₁ imports = e.render config₂ imports := by
  rw [← hconfig]
  rfl

theorem compileEntity_of_agree (hconfig : config₁.SameApartFromRepeats config₂) {e : Entity}
    (h : ∀ f ∈ e.fields, Scope.AgreeOn ⟨entities₁, tables₁, config₁⟩ ⟨entities₂, tables₂, config₂⟩ f) :
    config₁.compileEntity e entities₁ tables₁ = config₂.compileEntity e entities₂ tables₂ := by
  have hfields : e.fields.mapM (Scope.resolveField ⟨entities₁, tables₁, config₁⟩ e.name) =
      e.fields.mapM (Scope.resolveField ⟨entities₂, tables₂, config₂⟩ e.name) :=
    mapM_congr_of_mem fun f hf => Scope.resolveField_of_agree hconfig (h f hf) e.name
  have hrender : (fun is : List (Option Import) => e.render config₁ is.reduceOption) =
      fun is => e.render config₂ is.reduceOption := by
    funext is
    exact render_of_same hconfig e is.reduceOption
  rw [compileEntity_eq, compileEntity_eq, hfields, hrender]

private theorem agreeOn_of_names (config₁ config₂ : Config) (tables : PathMap)
    (h : ∀ n, n ∈ entities₁.map Entity.name ↔ n ∈ entities₂.map Entity.name) (f : Field) :
    Scope.AgreeOn ⟨entities₁, tables, config₁⟩ ⟨entities₂, tables, config₂⟩ f := by
  unfold Scope.AgreeOn
  split
  · trivial
  · exact h _
  · rfl
  · exact fun _ => rfl

private theorem agreeOn_insert (config₁ config₂ : Config) (entities : List Entity) (tables : PathMap) {name : String}
    (path : String) {f : Field} (htable : f.type ≠ .table name)
    (henum : config₁.importEnums = true → f.type ≠ .enum name) :
    Scope.AgreeOn ⟨entities, tables.insert name path, config₁⟩ ⟨entities, tables, config₂⟩ f := by
  -- the new entry is seen under its own name only, and the field asks for another one
  have hother : ∀ n, n ≠ name → (tables.insert name path).get? n = tables.get? n := by
    intro n hn
    rw [PathMap.get?_insert, if_neg hn]
  unfold Scope.AgreeOn
  split
  · trivial
  · rfl
  · rename_i n hn
    refine hother n ?_
    rintro rfl
    exact htable hn
  · rename_i n hn
    intro himported
    refine hother n ?_
    rintro rfl
    exact henum himported hn

/-- An entity is compiled alike, to the same file or the same error, by any two scopes that answer alike about its
fields, under settings that may differ in whether names repeat.  So it does not matter how the other entities are
ordered, how often they occur and which fields they have, nor what the tables hold under a name that no field asks for:
of a table, or of an enum if enums are imported. -/
theorem compileEntity_noninterference (config₁ config₂ : Config) (h : config₁.SameApartFromRepeats config₂)
    (e : Entity) :
    (∀ entities₁ entities₂ tables₁ tables₂,
      (∀ f ∈ e.fields, Scope.AgreeOn ⟨entities₁, tables₁, config₁⟩ ⟨entities₂, tables₂, config₂⟩ f) →
      config₁.compileEntity e entities₁ tables₁ = config₂.compileEntity e entities₂ tables₂) ∧
    (∀ entities₁ entities₂ tables,
      (∀ n, n ∈ entities₁.map Entity.name ↔ n ∈ entities₂.map Entity.name) →
      config₁.compileEntity e entities₁ tables = config₂.compileEntity e entities₂ tables) ∧
    ∀ entities tables name path,
      (∀ f ∈ e.fields, f.type ≠ .table name ∧ (config₁.importEnums = true → f.type ≠ .enum name)) →
      config₁.compileEntity e entities (tables.insert name path) = config₂.compileEntity e entities tables := by
  refine ⟨fun _ _ _ _ hagree => compileEntity_of_agree h hagree, ?_, ?_⟩
  · intro entities₁ entities₂ tables hnames
    exact compileEntity_of_agree h fun f _ => agreeOn_of_names config₁ config₂ tables hnames f
  · intro entities tables name path hunused
    refine compileEntity_of_agree h fun f hf => ?_
    obtain ⟨htable, henum⟩ := hunused f hf
    exact agreeOn_insert config₁ config₂ entities tables path htable henum

/-- An entity with a reference to another one, a table and an enum that is not imported.  It compiles alike where the
other entity has fields of its own and occurs twice, and where the tables have a path for the enum. -/
theorem compileEntity_noninterference_crowd :
    let e : Entity :=
      ⟨"A", [⟨"b", true, false, .schema "B"⟩, ⟨"t", false, true, .table "T"⟩, ⟨"r", false, false, .enum "R"⟩]⟩
    let b : Entity := ⟨"B", [⟨"c", true, false, .schema "C"⟩]⟩
    ({} : Config).compileEntity e [⟨"B", []⟩] (.ofList [("T", "./t")]) =
      ({ allowDuplicateNames := true } : Config).compileEntity e [⟨"D", []⟩, b, e, b]
        (.ofList [("T", "./t"), ("R", "./r")]) := by
  intro e b
  refine (compileEntity_noninterference {} { allowDuplicateNames := true } rfl e).1 _ _ _ _ ?_
  intro f hf
  simp only [e, List.mem_cons, List.not_mem_nil, or_false] at hf
  rcases hf with rfl | rfl | rfl
  · show "B" ∈ _ ↔ "B" ∈ _
    decide
  · rfl
  · intro himported
    cases himported

end Config

/-! ### Entities in another order -/

/-- The second list is the first one with its places permuted: what stands in place `i` comes from place `σ i`. -/
structure Rearranges {α : Type} {n : Nat} (σ : Equiv.Perm (Fin n)) (l l' : List α) : Prop where
  length_left : l.length = n
  length_right : l'.length = n
  place : ∀ i : Fin n, l'[i.val]? = l[(σ i).val]?

namespace Rearranges

variable {α β : Type} {n : Nat} {σ : Equiv.Perm (Fin n)}

theorem perm {l l' : List α} (h : Rearranges σ l l') : l'.Perm l := by
  obtain ⟨rfl, hlen, hplace⟩ := h
  have hl' : l' = List.ofFn (l.get ∘ σ) := by
    refine List.ext_getElem (by simpa using hlen) ?_
    intro i hi _
    have hi' : i < l.length := by omega
    have hget := hplace ⟨i, hi'⟩
    rw [List.getElem?_eq_getElem hi, List.getElem?_eq_getElem (σ ⟨i, hi'⟩).isLt] at hget
    simpa using hget
  rw [hl']
  exact (σ.ofFn_comp_perm l.get).trans (List.Perm.of_eq (List.ofFn_get l))

theorem map {l l' : List α} (h : Rearranges σ l l') (g : α → β) : Rearranges σ (l.map g) (l'.map g) where
  length_left := by rw [List.length_map, h.length_left]
  length_right := by rw [List.length_map, h.length_right]
  place i := by rw [List.getElem?_map, List.getElem?_map, h.place i]

/-- What a function gives for rearranged arguments are its rearranged results. -/
theorem forall₂ {R : α → β → Prop} (hfun : ∀ a b b', R a b → R a b' → b = b') {l l' : List α} {bs bs' : List β}
    (h : Rearranges σ l l') (hbs : List.Forall₂ R l bs) (hbs' : List.Forall₂ R l' bs') : Rearranges σ bs bs' where
  length_left := by rw [← hbs.length_eq, h.length_left]
  length_right := by rw [← hbs'.length_eq, h.length_right]
  place i := by
    have hlt : (σ i).val < l.length := by rw [h.length_left]; exact (σ i).isLt
    have hsource : l[(σ i).val]? = some l[(σ i).val] := List.getElem?_eq_getElem hlt
    obtain ⟨b, hb, hRb⟩ := exists_getElem?_of_forall₂ hbs hsource
    obtain ⟨b', hb', hRb'⟩ := exists_getElem?_of_forall₂ hbs' ((h.place i).trans hsource)
    rw [hb, hb', hfun _ _ _ hRb hRb']

end Rearranges

namespace Config

variable {config : Config} {entities entities' : List Entity} {tables : PathMap}

private theorem compile_ok_iff_names_and_entities :
    (∃ out, config.compile entities tables = .ok out) ↔
      (config.allowDuplicateNames = true ∨ (entities.map Entity.name).Nodup) ∧
        ∀ e ∈ entities, ∃ r, config.compileEntity e entities tables = .ok r := by
  by_cases hnames : config.allowDuplicateNames = true ∨ (entities.map Entity.name).Nodup
  · rw [compile_ok_iff_forall hnames]
    exact ⟨fun h => ⟨hnames, h⟩, fun h => h.2⟩
  · have hclash : config.NamesClash entities := by
      rw [not_or, Bool.not_eq_true] at hnames
      exact hnames
    constructor
    · intro hout
      exact absurd hclash (compile_ok_iff.1 hout).1
    · intro h
      exact absurd h.1 hnames

private theorem compileEntity_of_perm (h : entities'.Perm entities) (e : Entity) :
    config.compileEntity e entities' tables = config.compileEntity e entities tables := by
  have hnames : ∀ n, n ∈ entities'.map Entity.name ↔ n ∈ entities.map Entity.name :=
    fun n => (h.map Entity.name).mem_iff
  exact compileEntity_of_agree (.refl config) fun f _ => agreeOn_of_names config config tables hnames f

theorem compile_ok_of_perm (h : entities'.Perm entities) :
    (∃ out, config.compile entities' tables = .ok out) ↔ ∃ out, config.compile entities tables = .ok out := by
  have hnodup : (entities'.map Entity.name).Nodup ↔ (entities.map Entity.name).Nodup := (h.map Entity.name).nodup_iff
  rw [compile_ok_iff_names_and_entities, compile_ok_iff_names_and_entities, hnodup]
  refine and_congr_right fun _ => ?_
  constructor
  · intro hall e he
    rw [← compileEntity_of_perm h]
    exact hall e (h.mem_iff.2 he)
  · intro hall e he
    rw [compileEntity_of_perm h]
    exact hall e (h.mem_iff.1 he)

/-- The order of the entities does not matter, repeated names included.  Entities in another order compile exactly if
they did before, the map and the shared files are the same, and the files are permuted as the entities are. -/
theorem compile_rearranged (config : Config) (tables : PathMap) {n : Nat} {σ : Equiv.Perm (Fin n)}
    {entities entities' : List Entity} (h : Rearranges σ entities entities') :
    ((∃ out, config.compile entities tables = .ok out) ↔ ∃ out, config.compile entities' tables = .ok out) ∧
    ∀ out out', config.compile entities tables = .ok out → config.compile entities' tables = .ok out' →
      out.map = out'.map ∧ out.support = out'.support ∧ Rearranges σ out.files out'.files := by
  have hperm : entities'.Perm entities := h.perm
  refine ⟨(compile_ok_of_perm hperm).symm, ?_⟩
  intro out out' hout hout'
  have hmap : out.map = out'.map := by
    refine PathMap.ext_get? fun name => ?_
    have hmem : name ∈ entities'.map Entity.name ↔ name ∈ entities.map Entity.name := (hperm.map Entity.name).mem_iff
    rw [map_get?_of_compile hout, map_get?_of_compile hout', if_congr hmem rfl rfl]
  obtain ⟨rs, hrs, rfl⟩ := compile_eq_ok hout
  obtain ⟨rs', hrs', rfl⟩ := compile_eq_ok hout'
  refine ⟨hmap, rfl, ?_⟩
  -- both runs render an entity alike, so the rendered entities are permuted as the entities are
  have hsame : List.Forall₂ (fun e r => config.compileEntity e entities tables = .ok r) entities' rs' :=
    hrs'.imp fun e r hr => (compileEntity_of_perm hperm e).symm.trans hr
  have hfun : ∀ (e : Entity) (r r' : Rendered), config.compileEntity e entities tables = .ok r →
      config.compileEntity e entities tables = .ok r' → r = r' :=
    fun e r r' hr hr' => Except.ok.inj (hr.symm.trans hr')
  exact (h.forall₂ hfun hrs hsame).map Rendered.file

/-- Two entities that refer to each other and a third that has the name of the first, moved one place on. -/
theorem compile_rearranged_cycle :
    let config : Config := { allowDuplicateNames := true }
    let a : Entity := ⟨"A", [⟨"b", true, false, .schema "B"⟩]⟩
    let b : Entity := ⟨"B", [⟨"a", false, true, .schema "A"⟩]⟩
    let entities : List Entity := [a, b, ⟨"A", []⟩]
    let entities' : List Entity := [b, ⟨"A", []⟩, a]
    ∃ out out', config.compile entities .empty = .ok out ∧ config.compile entities' .empty = .ok out' ∧
      out.map = out'.map ∧ out.support = out'.support ∧ Rearranges (finRotate 3) out.files out'.files := by
  intro config a b entities entities'
  have hrotated : Rearranges (finRotate 3) entities entities' := ⟨rfl, rfl, by decide⟩
  obtain ⟨hiff, hsame⟩ := compile_rearranged config .empty hrotated
  have hout : ∃ out, config.compile entities .empty = .ok out := ⟨_, rfl⟩
  obtain ⟨out', hout'⟩ := hiff.1 hout
  obtain ⟨out, hout⟩ := hout
  exact ⟨out, out', hout, hout', hsame out out' hout hout'⟩

end Config

end SchemaDecl
