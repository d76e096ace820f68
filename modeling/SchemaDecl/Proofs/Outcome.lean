import SchemaDecl.Proofs.Resolution

/-!
# The outcome of a compilation

A compilation fails for one of two reasons, and the first reason in the order of the document counts.  A repeated name
comes before every missing reference: the error names the earliest entity whose name already stands before it
(`FirstRepeat`).  Among the missing references the one of the earliest entity counts, and in this entity the one of the
earliest field (`Scope.FirstMissing`).  A compilation without such a reason succeeds.
-/

namespace SchemaDecl

/-! ### Repeated names -/

/-- Place `j` is the first one whose name, `n`, stands at an earlier place too. -/
structure FirstRepeat (names : List String) (j : Nat) (n : String) : Prop where
  here : names[j]? = some n
  earlier : n ∈ names.take j
  least : ∀ k < j, ∀ m, names[k]? = some m → m ∉ names.take k

-- The names that have been seen are those before the list: a name repeats if it is among them or earlier in the list.
private theorem firstRepeated?_go_some {seen names : List String} {n : String}
    (h : firstRepeated?.go seen names = some n) :
    ∃ j : Nat, names[j]? = some n ∧ (n ∈ seen ∨ n ∈ names.take j) ∧
      ∀ k < j, ∀ m, names[k]? = some m → m ∉ seen ∧ m ∉ names.take k := by
  induction names generalizing seen with
  | nil => cases h
  | cons a names ih =>
    unfold firstRepeated?.go at h
    split at h
    · rename_i hseen
      cases h
      exact ⟨0, rfl, .inl hseen, fun k hk => absurd hk (Nat.not_lt_zero k)⟩
    · rename_i hnew
      obtain ⟨j, hj, hearlier, hleast⟩ := ih h
      refine ⟨j + 1, hj, ?_, ?_⟩
      · rw [List.take_succ_cons]
        rcases hearlier with hmem | hmem
        · rcases List.mem_cons.1 hmem with rfl | hmem
          · exact .inr List.mem_cons_self
          · exact .inl hmem
        · exact .inr (List.mem_cons_of_mem a hmem)
      · intro k hk m hm
        cases k with
        | zero =>
          cases hm
          exact ⟨hnew, List.not_mem_nil⟩
        | succ k =>
          obtain ⟨hseen, htake⟩ := hleast k (by omega) m hm
          rw [List.mem_cons, not_or] at hseen
          rw [List.take_succ_cons, List.mem_cons, not_or]
          exact ⟨hseen.2, hseen.1, htake⟩

private theorem firstRepeated?_go_none {seen names : List String} :
    firstRepeated?.go seen names = none ↔ names.Nodup ∧ ∀ m ∈ names, m ∉ seen := by
  induction names generalizing seen with
  | nil => simp [firstRepeated?.go]
  | cons a names ih =>
    unfold firstRepeated?.go
    split
    · rename_i hseen
      constructor
      · intro h; cases h
      · rintro ⟨-, h⟩
        exact absurd hseen (h a List.mem_cons_self)
    · rename_i hnew
      rw [ih, List.nodup_cons]
      constructor
      · rintro ⟨hnodup, hseen⟩
        refine ⟨⟨fun ha => hseen a ha List.mem_cons_self, hnodup⟩, ?_⟩
        intro m hm
        rcases List.mem_cons.1 hm with rfl | hm
        · exact hnew
        · exact fun hmem => hseen m hm (List.mem_cons_of_mem a hmem)
      · rintro ⟨⟨ha, hnodup⟩, hseen⟩
        refine ⟨hnodup, ?_⟩
        intro m hm hmem
        rcases List.mem_cons.1 hmem with rfl | hmem
        · exact ha hm
        · exact hseen m (List.mem_cons_of_mem a hm) hmem

/-- The first repeated name is the name at the first place of a repetition. -/
theorem firstRepeat_of_firstDuplicate? {entities : List Entity} {n : String} (h : firstDuplicate? entities = some n) :
    ∃ j, FirstRepeat (entities.map Entity.name) j n := by
  obtain ⟨j, hj, hearlier, hleast⟩ := firstRepeated?_go_some h
  refine ⟨j, hj, ?_, fun k hk m hm => (hleast k hk m hm).2⟩
  rcases hearlier with hmem | hmem
  · cases hmem
  · exact hmem

theorem firstDuplicate?_eq_none_iff {entities : List Entity} :
    firstDuplicate? entities = none ↔ (entities.map Entity.name).Nodup := by
  rw [firstDuplicate?, firstRepeated?, firstRepeated?_go_none]
  exact ⟨fun h => h.1, fun h => ⟨h, fun m _ => List.not_mem_nil⟩⟩

/-! ### Missing references -/

namespace Scope

/-- The field refers to something missing. -/
def Dangles (scope : Scope) (f : Field) : Prop := ∃ kind name, scope.Missing f.type kind name

/-- Field `j` of entity `i` refers to something missing. -/
def DanglesAt (scope : Scope) (i j : Nat) : Prop :=
  ∃ e f, scope.entities[i]? = some e ∧ e.fields[j]? = some f ∧ scope.Dangles f

/-- Field `j` of entity `i` is the first one, entity by entity and field by field, that refers to something missing;
`err` is the error about it. -/
structure FirstMissing (scope : Scope) (i j : Nat) (err : CompileError) : Prop where
  here : ∃ e f kind name, scope.entities[i]? = some e ∧ e.fields[j]? = some f ∧ scope.Missing f.type kind name ∧
    err = .unresolved kind e.name f.key name
  least : ∀ i' j', i' < i ∨ i' = i ∧ j' < j → ¬ scope.DanglesAt i' j'

private theorem resolveField_ok_iff {scope : Scope} {entity : String} {f : Field} :
    (∃ o, scope.resolveField entity f = .ok o) ↔ ¬ scope.Dangles f := by
  constructor
  · rintro ⟨o, ho⟩ ⟨kind, name, h⟩
    rw [h.resolveField] at ho
    cases ho
  · intro h
    cases hf : scope.resolveField entity f with
    | ok o => exact ⟨o, rfl⟩
    | error err =>
      obtain ⟨kind, name, hmissing, -⟩ := resolveField_eq_error_iff.1 hf
      exact absurd ⟨kind, name, hmissing⟩ h

end Scope

namespace Config

variable {config : Config} {entities : List Entity} {tables : PathMap}

/-- An entity fails with the error of the first of its fields that refers to something missing. -/
theorem compileEntity_eq_error_iff {e : Entity} {err : CompileError} :
    config.compileEntity e entities tables = .error err ↔
      ∃ (j : Nat) (f : Field) (kind : ReferenceKind) (name : String), e.fields[j]? = some f ∧
        Scope.Missing ⟨entities, tables, config⟩ f.type kind name ∧ err = .unresolved kind e.name f.key name ∧
        ∀ k < j, ∀ g, e.fields[k]? = some g → ¬ Scope.Dangles ⟨entities, tables, config⟩ g := by
  have hmap : config.compileEntity e entities tables = .error err ↔
      e.fields.mapM (Scope.resolveField ⟨entities, tables, config⟩ e.name) = .error err := by
    rw [compileEntity_eq]
    cases e.fields.mapM (Scope.resolveField ⟨entities, tables, config⟩ e.name) with
    | error err' => exact ⟨fun h => congrArg Except.error (Except.error.inj h), fun h => by cases h; rfl⟩
    | ok is => exact ⟨nofun, nofun⟩
  rw [hmap, mapM_eq_error_iff]
  constructor
  · rintro ⟨j, f, hf, herr, hbefore⟩
    obtain ⟨kind, name, hmissing, rfl⟩ := Scope.resolveField_eq_error_iff.1 herr
    exact ⟨j, f, kind, name, hf, hmissing, rfl, fun k hk g hg => Scope.resolveField_ok_iff.1 (hbefore k hk g hg)⟩
  · rintro ⟨j, f, kind, name, hf, hmissing, rfl, hbefore⟩
    exact ⟨j, f, hf, hmissing.resolveField, fun k hk g hg => Scope.resolveField_ok_iff.2 (hbefore k hk g hg)⟩

theorem compileEntity_ok_iff {e : Entity} :
    (∃ r, config.compileEntity e entities tables = .ok r) ↔
      ∀ f ∈ e.fields, ¬ Scope.Dangles ⟨entities, tables, config⟩ f := by
  constructor
  · rintro ⟨r, hr⟩ f hf
    rw [compileEntity_eq] at hr
    cases hm : e.fields.mapM (Scope.resolveField ⟨entities, tables, config⟩ e.name) with
    | error err => rw [hm] at hr; cases hr
    | ok is =>
      obtain ⟨o, -, ho⟩ := exists_mem_of_forall₂ (mapM_eq_ok_iff.1 hm) hf
      exact Scope.resolveField_ok_iff.1 ⟨o, ho⟩
  · intro h
    cases hr : config.compileEntity e entities tables with
    | ok r => exact ⟨r, rfl⟩
    | error err =>
      obtain ⟨j, f, kind, name, hf, hmissing, -⟩ := compileEntity_eq_error_iff.1 hr
      exact absurd ⟨kind, name, hmissing⟩ (h f (List.mem_of_getElem? hf))

/-- The entities fail with the error of the first missing reference. -/
theorem compileEntities_eq_error_iff {err : CompileError} :
    (entities.mapM fun e => config.compileEntity e entities tables) = .error err ↔
      ∃ i j, Scope.FirstMissing ⟨entities, tables, config⟩ i j err := by
  rw [mapM_eq_error_iff]
  constructor
  · rintro ⟨i, e, he, herr, hbefore⟩
    obtain ⟨j, f, kind, name, hf, hmissing, rfl, hfirst⟩ := compileEntity_eq_error_iff.1 herr
    refine ⟨i, j, ⟨e, f, kind, name, he, hf, hmissing, rfl⟩, ?_⟩
    -- no field of an earlier entity dangles, for the entity compiles; in the same entity no earlier field does
    rintro i' j' (hi | ⟨rfl, hj⟩) ⟨e', f', he', hf', hdangles⟩
    · exact compileEntity_ok_iff.1 (hbefore i' hi e' he') f' (List.mem_of_getElem? hf') hdangles
    · obtain rfl : e = e' := Option.some.inj (he.symm.trans he')
      exact hfirst j' hj f' hf' hdangles
  · rintro ⟨i, j, ⟨e, f, kind, name, he, hf, hmissing, rfl⟩, hleast⟩
    refine ⟨i, e, he, compileEntity_eq_error_iff.2 ⟨j, f, kind, name, hf, hmissing, rfl, ?_⟩, ?_⟩
    · intro k hk g hg hdangles
      exact hleast i k (.inr ⟨rfl, hk⟩) ⟨e, g, he, hg, hdangles⟩
    · intro k hk e' he'
      refine compileEntity_ok_iff.2 ?_
      intro f' hf' hdangles
      obtain ⟨j', hj'⟩ := List.getElem?_of_mem hf'
      exact hleast k j' (.inl hk) ⟨e', f', he', hj', hdangles⟩

private theorem compileEntities_ok_iff :
    (∃ rs, (entities.mapM fun e => config.compileEntity e entities tables) = .ok rs) ↔
      ∀ i j, ¬ Scope.DanglesAt ⟨entities, tables, config⟩ i j := by
  constructor
  · rintro ⟨rs, hrs⟩ i j ⟨e, f, he, hf, hdangles⟩
    obtain ⟨r, -, hr⟩ := exists_getElem?_of_forall₂ (mapM_eq_ok_iff.1 hrs) he
    exact compileEntity_ok_iff.1 ⟨r, hr⟩ f (List.mem_of_getElem? hf) hdangles
  · intro h
    cases hrs : entities.mapM fun e => config.compileEntity e entities tables with
    | ok rs => exact ⟨rs, rfl⟩
    | error err =>
      obtain ⟨i, j, ⟨e, f, kind, name, he, hf, hmissing, -⟩, -⟩ := compileEntities_eq_error_iff.1 hrs
      exact absurd ⟨e, f, he, hf, kind, name, hmissing⟩ (h i j)

/-! ### The outcome -/

private theorem compile_of_repeated {n : String} (hoff : config.allowDuplicateNames = false)
    (h : firstDuplicate? entities = some n) : config.compile entities tables = .error (.duplicate n) := by
  have hcheck : (config.checkNames entities).result = .error (.duplicate n) := by
    simp only [checkNames, h, hoff, Bool.false_eq_true, if_false, Traced.result_ofExcept]
  rw [compile_eq, hcheck]
  rfl

theorem compile_of_names (h : config.allowDuplicateNames = true ∨ (entities.map Entity.name).Nodup) :
    config.compile entities tables =
      (entities.mapM fun e => config.compileEntity e entities tables).map config.assemble := by
  have hcheck : (config.checkNames entities).result = .ok () := by
    unfold checkNames
    split
    · rfl
    · rename_i n hn
      rcases h with hon | hnodup
      · simp only [hon, if_true, Traced.result_record]
      · rw [firstDuplicate?_eq_none_iff.2 hnodup] at hn
        cases hn
  rw [compile_eq, hcheck]
  rfl

/-- A name repeats although none may. -/
def NamesClash (config : Config) (entities : List Entity) : Prop :=
  config.allowDuplicateNames = false ∧ ¬ (entities.map Entity.name).Nodup

private theorem names_of_not_clash (h : ¬ config.NamesClash entities) :
    config.allowDuplicateNames = true ∨ (entities.map Entity.name).Nodup := by
  rw [NamesClash, not_and_or, Bool.not_eq_false, not_not] at h
  exact h

theorem compile_of_clash (h : config.NamesClash entities) :
    ∃ j n, FirstRepeat (entities.map Entity.name) j n ∧ config.compile entities tables = .error (.duplicate n) := by
  obtain ⟨hoff, hdup⟩ := h
  cases hn : firstDuplicate? entities with
  | none => exact absurd (firstDuplicate?_eq_none_iff.1 hn) hdup
  | some n =>
    obtain ⟨j, hj⟩ := firstRepeat_of_firstDuplicate? hn
    exact ⟨j, n, hj, compile_of_repeated hoff hn⟩

theorem compile_of_dangling (h : ¬ config.NamesClash entities) {i j : Nat}
    (hdangles : Scope.DanglesAt ⟨entities, tables, config⟩ i j) :
    ∃ i j err, Scope.FirstMissing ⟨entities, tables, config⟩ i j err ∧ config.compile entities tables = .error err := by
  rw [compile_of_names (names_of_not_clash h)]
  cases hrs : entities.mapM fun e => config.compileEntity e entities tables with
  | ok rs => exact absurd hdangles (compileEntities_ok_iff.1 ⟨rs, hrs⟩ i j)
  | error err =>
    obtain ⟨i', j', hfirst⟩ := compileEntities_eq_error_iff.1 hrs
    exact ⟨i', j', err, hfirst, rfl⟩

theorem compile_ok_iff :
    (∃ out, config.compile entities tables = .ok out) ↔
      ¬ config.NamesClash entities ∧ ¬ ∃ i j, Scope.DanglesAt ⟨entities, tables, config⟩ i j := by
  constructor
  · rintro ⟨out, hout⟩
    have hclash : ¬ config.NamesClash entities := by
      intro h
      obtain ⟨j, n, -, herr⟩ := @compile_of_clash config entities tables h
      rw [herr] at hout
      cases hout
    refine ⟨hclash, ?_⟩
    rintro ⟨i, j, hdangles⟩
    obtain ⟨i', j', err, -, herr⟩ := compile_of_dangling hclash hdangles
    rw [herr] at hout
    cases hout
  · rintro ⟨hclash, hdangles⟩
    obtain ⟨rs, hrs⟩ := compileEntities_ok_iff.2 fun i j h => hdangles ⟨i, j, h⟩
    rw [compile_of_names (names_of_not_clash hclash), hrs]
    exact ⟨_, rfl⟩

/-- The outcome of a compilation.  If a name repeats although none may, the error is about the first repetition,
whatever references are missing.  Otherwise, if a reference is missing, the error is about the first one.  Otherwise,
and only then, the compilation succeeds. -/
theorem compile_outcome (config : Config) (entities : List Entity) (tables : PathMap) :
    (config.NamesClash entities →
      ∃ j n, FirstRepeat (entities.map Entity.name) j n ∧ config.compile entities tables = .error (.duplicate n)) ∧
    (¬ config.NamesClash entities → (∃ i j, Scope.DanglesAt ⟨entities, tables, config⟩ i j) →
      ∃ i j err, Scope.FirstMissing ⟨entities, tables, config⟩ i j err ∧
        config.compile entities tables = .error err) ∧
    ((∃ out, config.compile entities tables = .ok out) ↔
      ¬ config.NamesClash entities ∧ ¬ ∃ i j, Scope.DanglesAt ⟨entities, tables, config⟩ i j) := by
  refine ⟨compile_of_clash, ?_, compile_ok_iff⟩
  rintro hclash ⟨i, j, hdangles⟩
  exact compile_of_dangling hclash hdangles

/-- Two entities of one name, the first with a reference to nothing: the repetition counts first, and where it is
allowed the reference does. -/
theorem compile_outcome_repeated_dangling :
    let entities : List Entity := [⟨"A", [⟨"x", false, false, .schema "B"⟩]⟩, ⟨"A", []⟩]
    (∃ j n, FirstRepeat (entities.map Entity.name) j n ∧
      ({} : Config).compile entities .empty = .error (.duplicate n)) ∧
    ∃ i j err, Scope.FirstMissing ⟨entities, .empty, { allowDuplicateNames := true }⟩ i j err ∧
      ({ allowDuplicateNames := true } : Config).compile entities .empty = .error err := by
  refine ⟨(compile_outcome {} _ .empty).1 ⟨rfl, by decide⟩, (compile_outcome _ _ .empty).2.1 (fun h => ?_) ⟨0, 0, ?_⟩⟩
  · exact absurd h.1 (by decide)
  · exact ⟨_, _, rfl, rfl, _, _, .schema (by decide)⟩

end Config

end SchemaDecl
