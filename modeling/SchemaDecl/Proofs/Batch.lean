import SchemaDecl.Proofs.Closure
import SchemaDecl.Proofs.Outcome

/-!
# Whole compilations and single entities

Compiling a list of entities is compiling each of them against the whole list.  Where the names allow it, the list
compiles exactly if every entity does (`Config.compile_ok_iff_forall`), and the output is put together from what the
entities give one by one.  Files are kept one per entity; the map has one path per name, and since the path depends on
the name alone, it is the path of every entity of that name.
-/

namespace SchemaDecl

theorem PathMap.mem_names_iff {m : PathMap} {name : String} : name ∈ m.names ↔ ∃ path, m.get? name = some path := by
  have hnone := @PathMap.get?_eq_none_iff m name
  cases hget : m.get? name with
  | none =>
    rw [hget] at hnone
    have habsent : name ∉ m.names := hnone.1 rfl
    simp [habsent]
  | some path =>
    have hpresent : name ∈ m.names := by
      apply Decidable.byContradiction
      intro h
      rw [hnone.2 h] at hget
      cases hget
    simp [hpresent]

namespace Config

variable {config : Config} {entities : List Entity} {tables : PathMap}

theorem compile_ok_iff_forall (h : config.allowDuplicateNames = true ∨ (entities.map Entity.name).Nodup) :
    (∃ out, config.compile entities tables = .ok out) ↔
      ∀ e ∈ entities, ∃ r, config.compileEntity e entities tables = .ok r := by
  rw [compile_of_names h, ← exists_mapM_eq_ok_iff]
  cases entities.mapM fun e => config.compileEntity e entities tables with
  | error err =>
    constructor
    · rintro ⟨out, hout⟩; cases hout
    · rintro ⟨rs, hrs⟩; cases hrs
  | ok rs => exact ⟨fun _ => ⟨rs, rfl⟩, fun _ => ⟨config.assemble rs, rfl⟩⟩

private theorem names_map_of_compile {out : Output} (h : config.compile entities tables = .ok out) (n : String) :
    n ∈ out.map.names ↔ n ∈ entities.map Entity.name := by
  have hget := map_get?_of_compile h n
  rw [PathMap.mem_names_iff]
  by_cases hn : n ∈ entities.map Entity.name
  · rw [if_pos hn] at hget
    simp [hget, hn]
  · rw [if_neg hn] at hget
    simp [hget, hn]

/-- The path of a compiled entity is the one that the map of the whole output has under its name. -/
private theorem map_get?_of_compileEntity {out : Output} (h : config.compile entities tables = .ok out) {e : Entity}
    (he : e ∈ entities) {r : Rendered} (hr : config.compileEntity e entities tables = .ok r) :
    out.map.get? r.name = some r.logicalPath := by
  obtain ⟨imports, -, rfl, -⟩ := compileEntity_eq_ok hr
  have hname : (e.render config imports).name ∈ entities.map Entity.name := List.mem_map_of_mem he
  rw [map_get?_of_compile h, if_pos hname]
  rfl

/-- Where names are unique or may repeat, a list of entities compiles exactly if each entity does, and its output holds
what the entities compile to: their files in their order, the path of every name, and shared files that depend on the
settings alone. -/
theorem compile_entitywise (config : Config) (entities : List Entity) (tables : PathMap)
    (h : config.allowDuplicateNames = true ∨ (entities.map Entity.name).Nodup) :
    ((∃ out, config.compile entities tables = .ok out) ↔
      ∀ e ∈ entities, ∃ r, config.compileEntity e entities tables = .ok r) ∧
    ∀ out, config.compile entities tables = .ok out →
      (∃ rs, List.Forall₂ (fun e r => config.compileEntity e entities tables = .ok r) entities rs ∧
        out.files = rs.map Rendered.file ∧ ∀ r ∈ rs, out.map.get? r.name = some r.logicalPath) ∧
      (∀ n, n ∈ out.map.names ↔ n ∈ entities.map Entity.name) ∧
      (∀ n ∈ out.map.names, out.map.get? n = some (config.logicalPath n)) ∧
      (config.mode = .classes → out.support = [helperFile config]) ∧
      (config.mode = .interfaces → out.support = []) := by
  refine ⟨compile_ok_iff_forall h, ?_⟩
  intro out hout
  have hnames := names_map_of_compile hout
  refine ⟨?_, hnames, ?_, ?_⟩
  · obtain ⟨rs, hrs, hassemble⟩ := compile_eq_ok hout
    refine ⟨rs, hrs, by rw [hassemble]; rfl, ?_⟩
    intro r hr
    obtain ⟨k, hk⟩ := List.getElem?_of_mem hr
    obtain ⟨e, he, hcompiled⟩ := exists_getElem?_of_forall₂ hrs.flip hk
    exact map_get?_of_compileEntity hout (List.mem_of_getElem? he) hcompiled
  · intro n hn
    rw [map_get?_of_compile hout, if_pos ((hnames n).1 hn)]
  · obtain ⟨rs, -, rfl⟩ := compile_eq_ok hout
    constructor
    · intro hmode
      show config.mode.support config = _
      rw [hmode]
      rfl
    · intro hmode
      show config.mode.support config = _
      rw [hmode]
      rfl

/-- Two entities of one name: two files and one path. -/
theorem compile_entitywise_repeated :
    let config : Config := { allowDuplicateNames := true }
    let entities : List Entity := [⟨"A", [⟨"b", true, false, .schema "B"⟩]⟩, ⟨"B", []⟩, ⟨"A", []⟩]
    ∃ out, config.compile entities .empty = .ok out ∧ out.files.length = 3 ∧
      (∀ n, n ∈ out.map.names ↔ n ∈ ["A", "B", "A"]) ∧ out.support = [helperFile config] := by
  intro config entities
  have hnames : config.allowDuplicateNames = true ∨ (entities.map Entity.name).Nodup := .inl rfl
  obtain ⟨-, hout⟩ := compile_entitywise config entities .empty hnames
  obtain ⟨-, hkeys, -, hsupport, -⟩ := hout _ rfl
  exact ⟨_, rfl, rfl, hkeys, hsupport rfl⟩

end Config

end SchemaDecl
