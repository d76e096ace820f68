import Mathlib.Data.List.Sort
import SchemaDecl.Proofs.Modes

/-!
# Imports and what they import

The output of a compilation is closed under its imports: the file of an entity begins with one import for every field
that needs one, an import of an entity is found under its path in the map of the output and among its files
(`Output.Serves`), and every name that the declaration of an entity uses is imported (`Entity.UsesName`).
-/

namespace SchemaDecl

/-! ### The map of an output -/

namespace PathMap

theorem get?_foldl_insert (entries : List (String × String)) (m : PathMap) (name : String) :
    (entries.foldl (fun m (n, p) => m.insert n p) m).get? name = (entries.reverse.lookup name).or (m.get? name) := by
  induction entries generalizing m with
  | nil => rfl
  | cons a entries ih =>
    obtain ⟨n, p⟩ := a
    rw [List.foldl_cons, ih, get?_insert, List.reverse_cons, List.lookup_append, Option.or_assoc]
    congr 1
    by_cases h : name = n
    · subst h; simp
    · simp [h, List.lookup_cons, beq_eq_false_iff_ne.2 h]

private theorem mem_of_lookup_eq_some {entries : List (String × String)} {name path : String}
    (h : entries.lookup name = some path) : (name, path) ∈ entries := by
  obtain ⟨before, after, rfl, -⟩ := List.lookup_eq_some_iff.1 h
  exact List.mem_append_right _ List.mem_cons_self

theorem mem_entries_iff {m : PathMap} {name path : String} : (name, path) ∈ m.entries ↔ m.get? name = some path := by
  constructor
  · intro hmem
    rw [get?, List.lookup_eq_some_iff]
    obtain ⟨before, after, heq⟩ := List.append_of_mem hmem
    refine ⟨before, after, heq, fun e he => ?_⟩
    have hsorted := m.sorted
    rw [heq, List.pairwise_append] at hsorted
    have hlt := hsorted.2.2 e he (name, path) List.mem_cons_self
    rw [bne_iff_ne]
    rintro rfl
    exact String.lt_irrefl _ hlt
  · exact mem_of_lookup_eq_some

/-- Maps that answer every look-up alike are equal. -/
theorem ext_get? {m m' : PathMap} (h : ∀ name, m.get? name = m'.get? name) : m = m' := by
  have hirrefl : Std.Irrefl fun a b : String × String => a.1 < b.1 := ⟨fun a => String.lt_irrefl a.1⟩
  have hasymm : Std.Antisymm fun a b : String × String => a.1 < b.1 :=
    ⟨fun a b hab hba => absurd (String.lt_trans hab hba) (String.lt_irrefl a.1)⟩
  refine PathMap.ext (List.Pairwise.eq_of_mem_iff m.sorted m'.sorted fun e => ?_)
  rw [mem_entries_iff, mem_entries_iff, h]

theorem get?_merge (m later : PathMap) (name : String) :
    (m.merge later).get? name = (later.get? name).or (m.get? name) := by
  rw [merge, get?_foldl_insert]
  congr 1
  -- a name has at most one entry, so it does not matter from which end it is looked up
  cases hlater : later.get? name with
  | none =>
    rw [get?, List.lookup_eq_none_iff] at hlater
    exact List.lookup_eq_none_iff.2 fun e he => hlater e (List.mem_reverse.1 he)
  | some path =>
    cases hrev : later.entries.reverse.lookup name with
    | none =>
      have hne := List.lookup_eq_none_iff.1 hrev (name, path) (List.mem_reverse.2 (mem_entries_iff.2 hlater))
      simp at hne
    | some path' =>
      rw [← hlater, mem_entries_iff.1 (List.mem_reverse.1 (mem_of_lookup_eq_some hrev))]

/-- Where the path depends on the name alone, any entry of a name is as good as the last one. -/
private theorem get?_ofList_map {α : Type} {name path : α → String} {g : String → String} {l : List α}
    (h : ∀ a ∈ l, path a = g (name a)) (n : String) :
    (ofList (l.map fun a => (name a, path a))).get? n = if n ∈ l.map name then some (g n) else none := by
  rw [ofList, get?_foldl_insert, get?_empty, Option.or_none]
  cases hp : (l.map fun a => (name a, path a)).reverse.lookup n with
  | none =>
    rw [if_neg]
    intro hn
    obtain ⟨a, ha, rfl⟩ := List.mem_map.1 hn
    have hmem : (name a, path a) ∈ (l.map fun a => (name a, path a)).reverse :=
      List.mem_reverse.2 (List.mem_map_of_mem ha)
    have hne := List.lookup_eq_none_iff.1 hp (name a, path a) hmem
    simp at hne
  | some p =>
    obtain ⟨a, ha, hpair⟩ := List.mem_map.1 (List.mem_reverse.1 (mem_of_lookup_eq_some hp))
    cases hpair
    rw [if_pos (List.mem_map_of_mem ha), h a ha]

end PathMap

/-! ### Imports of an output -/

/-- The lines of imports, each with its end. -/
def importBlock (imports : List Import) : String := String.join (imports.map fun i => i.line ++ "\n")

/-- An import serves a field.  For an entity, the map of the output has its path and the output has its file; for a
table or an enum, the path is the one on record. -/
def Output.Serves (out : Output) (config : Config) (tables : PathMap) (f : Field) (i : Import) : Prop :=
  match f.type with
  | .native _ => False
  | .schema name =>
    i.name = name ∧ out.map.get? name = some i.path ∧ ∃ file ∈ out.files, file.filename = config.withExtension i.path
  | .table name | .enum name => i.name = name ∧ tables.get? name = some i.path

/-- A declaration of an entity uses a name: a directive on a member of the class refers to it, or it is the base of the
type text of a member and not a native type.  The names of enums count only if enums are imported. -/
inductive Entity.UsesName (e : Entity) (config : Config) (name : String) : Prop
  | type {f : Field} (mem : f ∈ e.fields) (directive : .type name ∈ Mode.classes.directives f)
  | isEnum {f : Field} {key : String} {each : Bool} (mem : f ∈ e.fields)
    (directive : .isEnum name key each ∈ Mode.classes.directives f) (imported : config.importEnums = true)
  | member {f : Field} (mem : f ∈ e.fields) (text : f.typeText = name ++ if f.array then "[]" else "")
    (foreign : ∀ t, f.kind ≠ .native t) (imported : (∃ n, f.kind = .enum n) → config.importEnums = true)

/-- The kind of field that a directive is put on for the sake of a name. -/
private def directiveKind? : Directive → Option FieldKind
  | .type name => some (.nested name)
  | .isEnum name _ _ => some (.enum name)
  | _ => none

private theorem kind_of_directive {f : Field} {d : Directive} {kind : FieldKind}
    (h : d ∈ Mode.classes.directives f) (hd : directiveKind? d = some kind) : f.kind = kind := by
  -- of all the directives that a field can have, only the one on an enum and the one on a type name something
  cases Field.directs_of_mem h with
  | isEnum hkind => exact hkind.trans (Option.some.inj hd)
  | type hkind => exact hkind.trans (Option.some.inj hd)
  | _ => cases hd

private theorem needsImport_of_kind {f : Field} {config : Config} (foreign : ∀ t, f.kind ≠ .native t)
    (imported : (∃ n, f.kind = .enum n) → config.importEnums = true) : f.needsImport config = true := by
  obtain ⟨key, required, array, type⟩ := f
  cases type with
  | native t => exact absurd rfl (foreign t)
  | enum n => exact imported ⟨n, rfl⟩
  | schema n => rfl
  | table n => rfl

/-- A name is used for the sake of a field that needs an import. -/
private theorem Entity.UsesName.exists_field {e : Entity} {config : Config} {name : String}
    (h : e.UsesName config name) :
    ∃ f ∈ e.fields, f.needsImport config = true ∧ f.kind.name = name := by
  cases h with
  | @type f mem directive =>
    have hkind := kind_of_directive directive rfl
    refine ⟨f, mem, needsImport_of_kind ?_ ?_, by rw [hkind]; rfl⟩
    · intro t ht; rw [hkind] at ht; cases ht
    · rintro ⟨n, hn⟩; rw [hkind] at hn; cases hn
  | @isEnum f key each mem directive imported =>
    have hkind := kind_of_directive directive rfl
    refine ⟨f, mem, needsImport_of_kind ?_ fun _ => imported, by rw [hkind]; rfl⟩
    intro t ht; rw [hkind] at ht; cases ht
  | @member f mem text foreign imported =>
    refine ⟨f, mem, needsImport_of_kind foreign imported, ?_⟩
    unfold Field.typeText at text
    exact (String.append_left_inj _).1 text

private theorem Scope.LeadsTo.name_eq {scope : Scope} {f : Field} {i : Import} (h : scope.LeadsTo f.type i) :
    i.name = f.kind.name := by
  obtain ⟨key, required, array, type⟩ := f
  cases h <;> rfl

/-! ### Closure -/

/-- The content of a rendered file begins with its imports and a blank line. -/
theorem content_render (e : Entity) (config : Config) (imports : List Import) :
    ∃ rest, (e.render config imports).file.content = importBlock imports ++ "\n" ++ rest := by
  refine ⟨contentOfLines (config.mode.preambleLines config ++ [.header config.mode e.name] ++
    e.fields.flatMap config.mode.fieldLines ++ [.footer]), ?_⟩
  rw [← String.toList_inj]
  simp only [Entity.render, contentOfLines, Mode.lines, importBlock, String.toList_append, String.toList_ofList,
    String.toList_join, List.flatMap_append, List.flatMap_map, List.append_assoc]
  rfl

namespace Config

variable {config : Config} {entities es : List Entity} {tables : PathMap} {rs : List Rendered}

private theorem rendered_name
    (hrs : List.Forall₂ (fun e r => config.compileEntity e entities tables = .ok r) es rs) :
    rs.map Rendered.name = es.map Entity.name := by
  induction hrs with
  | nil => rfl
  | cons hr _ ih =>
    obtain ⟨imports, -, rfl, -⟩ := compileEntity_eq_ok hr
    rw [List.map_cons, List.map_cons, ih]
    rfl

private theorem rendered_logicalPath
    (hrs : List.Forall₂ (fun e r => config.compileEntity e entities tables = .ok r) es rs) :
    ∀ r ∈ rs, r.logicalPath = config.logicalPath r.name := by
  induction hrs with
  | nil => intro r hr; cases hr
  | cons hr _ ih =>
    obtain ⟨imports, -, rfl, -⟩ := compileEntity_eq_ok hr
    intro r hr
    rcases List.mem_cons.1 hr with rfl | hr
    · rfl
    · exact ih r hr

theorem filename_of_compileEntity {e : Entity} {r : Rendered} (h : config.compileEntity e entities tables = .ok r) :
    r.file.filename = config.filePath e.name := by
  obtain ⟨imports, -, rfl, -⟩ := compileEntity_eq_ok h
  rfl

theorem exists_compileEntity_of_compile {out : Output} (h : config.compile entities tables = .ok out) {e : Entity}
    (he : e ∈ entities) : ∃ r, config.compileEntity e entities tables = .ok r := by
  obtain ⟨rs, hrs, -⟩ := compile_eq_ok h
  obtain ⟨r, -, hr⟩ := exists_mem_of_forall₂ hrs he
  exact ⟨r, hr⟩

/-- The map of an output has the names of the entities and gives each its path. -/
theorem map_get?_of_compile {out : Output} (h : config.compile entities tables = .ok out) (name : String) :
    out.map.get? name =
      if name ∈ entities.map Entity.name then some (config.logicalPath name) else none := by
  obtain ⟨rs, hrs, rfl⟩ := compile_eq_ok h
  rw [← rendered_name hrs]
  exact PathMap.get?_ofList_map (rendered_logicalPath hrs) name

/-- The file in a place of an output is the one that the entity in this place renders to with its imports. -/
theorem file_of_compile {out : Output} (h : config.compile entities tables = .ok out) {k : Nat} {e : Entity}
    (he : entities[k]? = some e) :
    ∃ imports, (Scope.resolve ⟨entities, tables, config⟩ e).result = .ok imports ∧
      out.files[k]? = some (e.render config imports).file ∧
      List.Forall₂ (fun f i => Scope.LeadsTo ⟨entities, tables, config⟩ f.type i)
        (e.fields.filter (·.needsImport config)) imports := by
  obtain ⟨rs, hrs, rfl⟩ := compile_eq_ok h
  obtain ⟨r, hr, hcompiled⟩ := exists_getElem?_of_forall₂ hrs he
  obtain ⟨imports, hresolve, rfl, hleads⟩ := compileEntity_eq_ok hcompiled
  refine ⟨imports, hresolve, ?_, hleads⟩
  show (rs.map Rendered.file)[k]? = _
  rw [List.getElem?_map, hr]
  rfl

/-- What a type leads to serves its field in the output. -/
theorem serves_of_leadsTo {out : Output} (h : config.compile entities tables = .ok out) {f : Field} {i : Import}
    (hi : Scope.LeadsTo ⟨entities, tables, config⟩ f.type i) : out.Serves config tables f i := by
  obtain ⟨key, required, array, type⟩ := f
  cases hi with
  | @schema name present =>
    refine ⟨rfl, by rw [map_get?_of_compile h, if_pos present], ?_⟩
    obtain ⟨e, he, rfl⟩ := List.mem_map.1 present
    obtain ⟨k, hk⟩ := List.getElem?_of_mem he
    obtain ⟨imports, -, hfile, -⟩ := file_of_compile h hk
    exact ⟨_, List.mem_of_getElem? hfile, rfl⟩
  | table present => exact ⟨rfl, present⟩
  | enum imported present => exact ⟨rfl, present⟩

/-- The output of a compilation is closed under its imports.  The file of an entity begins with one import for every
field that needs one, in the order of the fields; each import serves its field; and every name that the declaration of
the entity uses is imported. -/
theorem compile_imports_closed {out : Output} (h : config.compile entities tables = .ok out) {k : Nat} {e : Entity}
    (he : entities[k]? = some e) :
    ∃ imports file rest, (Scope.resolve ⟨entities, tables, config⟩ e).result = .ok imports ∧
      out.files[k]? = some file ∧ file.filename = config.filePath e.name ∧
      file.content = importBlock imports ++ "\n" ++ rest ∧
      List.Forall₂ (out.Serves config tables) (e.fields.filter (·.needsImport config)) imports ∧
      ∀ name, e.UsesName config name → ∃ i ∈ imports, i.name = name := by
  obtain ⟨imports, hresolve, hfile, hleads⟩ := file_of_compile h he
  obtain ⟨rest, hrest⟩ := content_render e config imports
  refine ⟨imports, _, rest, hresolve, hfile, rfl, hrest, hleads.imp fun f i hi => serves_of_leadsTo h hi, ?_⟩
  intro name hname
  obtain ⟨f, hf, hneeds, rfl⟩ := hname.exists_field
  have hmem : f ∈ e.fields.filter (·.needsImport config) := List.mem_filter.2 ⟨hf, hneeds⟩
  obtain ⟨j, hj⟩ := List.getElem?_of_mem hmem
  obtain ⟨i, hi, hleadsTo⟩ := exists_getElem?_of_forall₂ hleads hj
  exact ⟨i, List.mem_of_getElem? hi, hleadsTo.name_eq⟩

/-- Two entities of one name that refer to each other, to a table and to an imported enum. -/
theorem compile_imports_closed_mutual :
    let config : Config := { allowDuplicateNames := true, importEnums := true }
    let a : Entity :=
      ⟨"A", [⟨"b", true, true, .schema "B"⟩, ⟨"t", false, false, .table "T"⟩, ⟨"r", false, true, .enum "R"⟩]⟩
    let entities : List Entity := [a, ⟨"B", [⟨"a", false, false, .schema "A"⟩]⟩, ⟨"A", []⟩]
    let tables : PathMap := .ofList [("T", "./t"), ("R", "./r")]
    ∃ out, config.compile entities tables = .ok out ∧
      ∃ imports file rest, (Scope.resolve ⟨entities, tables, config⟩ a).result = .ok imports ∧
        out.files[0]? = some file ∧ file.filename = config.filePath "A" ∧
        file.content = importBlock imports ++ "\n" ++ rest ∧
        List.Forall₂ (out.Serves config tables) (a.fields.filter (·.needsImport config)) imports ∧
        ∀ name, a.UsesName config name → ∃ i ∈ imports, i.name = name := by
  exact ⟨_, rfl, compile_imports_closed rfl rfl⟩

end Config

end SchemaDecl
