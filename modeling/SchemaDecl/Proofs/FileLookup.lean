import Mathlib.Data.List.TakeWhile
import SchemaDecl.Proofs.Closure

/-!
# Looking up the file of an entity

The file of an entity is looked up by its path: the first file counts whose name is the path, or goes on from it with a
point and has no slash from there on.  So the look-up of a name also takes the file of another entity if that name,
with the extension, goes on from the first one in this way (`Config.Takes`).  What is found is the file of the first
entity that is taken (`Config.rel_fileFor?`), and this is the file of the last entity of the name exactly if nothing
else is taken before and the entities of the name give the same file.
-/

namespace SchemaDecl

/-- What is found in two lists that correspond to each other corresponds. -/
private theorem rel_find?_of_forall₂ {α β : Type} {R : α → β → Prop} {p : α → Bool} {q : β → Bool} {l : List α}
    {l' : List β} (h : List.Forall₂ R l l') (hpq : ∀ a b, R a b → p a = q b) :
    Option.Rel R (l.find? p) (l'.find? q) := by
  induction h with
  | nil => exact .none
  | @cons a b l l' hab _ ih =>
    rw [List.find?_cons, List.find?_cons, hpq a b hab]
    cases q b with
    | true => exact .some hab
    | false => exact ih

theorem Output.isFileOf_iff {path filename : String} :
    isFileOf path filename = true ↔ ∃ rest, filename = path ++ rest ∧
      (rest = "" ∨ (rest.toList.head? = some '.' ∧ '/' ∉ rest.toList)) := by
  rw [isFileOf, Bool.or_eq_true, decide_eq_true_eq, Option.any_eq_true]
  constructor
  · rintro (rfl | ⟨cs, hafter, hcs⟩)
    · exact ⟨"", by simp, .inl rfl⟩
    · refine ⟨String.ofList cs, ?_, .inr ?_⟩
      · rw [← String.toList_inj, String.toList_append, String.toList_ofList]
        exact after?_eq_some_iff.1 hafter
      · simpa using hcs
  · rintro ⟨rest, rfl, rfl | hrest⟩
    · exact .inl (by simp)
    · exact .inr ⟨rest.toList, after?_eq_some_iff.2 (String.toList_append), by simpa using hrest⟩

namespace Config

/-- The look-up of a name takes the file of an entity called `other`: with the extension this is the name, or it goes on
from the name with a point and has no slash from there on. -/
def Takes (config : Config) (name other : String) : Prop :=
  ∃ rest, config.withExtension other = name ++ rest ∧
    (rest = "" ∨ (rest.toList.head? = some '.' ∧ '/' ∉ rest.toList))

variable {config : Config} {entities : List Entity} {tables : PathMap} {out : Output}

private theorem logicalPath_eq_append (config : Config) (name : String) :
    config.logicalPath name = config.logicalPath "" ++ name := by simp [logicalPath]

private theorem filePath_eq_append (config : Config) (name : String) :
    config.filePath name = config.logicalPath "" ++ config.withExtension name := by
  rw [filePath, logicalPath_eq_append, withExtension_append]

private theorem isFileOf_iff_takes {name other : String} :
    Output.isFileOf (config.logicalPath name) (config.filePath other) = true ↔ config.Takes name other := by
  rw [Output.isFileOf_iff, filePath_eq_append, config.logicalPath_eq_append name]
  simp only [String.append_assoc, String.append_right_inj, Takes]

theorem filePath_inj (config : Config) {name other : String} (h : config.filePath name = config.filePath other) :
    name = other := by
  rw [filePath_eq_append, filePath_eq_append, String.append_right_inj, withExtension_eq_append,
    config.withExtension_eq_append other, String.append_left_inj] at h
  exact h

private theorem slash_mem_trimLeft {text : String} : '/' ∈ (trimLeft '.' text).toList ↔ '/' ∈ text.toList := by
  have hsplit : '/' ∈ text.toList ↔
      '/' ∈ text.toList.takeWhile (· == '.') ∨ '/' ∈ text.toList.dropWhile (· == '.') := by
    rw [← List.mem_append, List.takeWhile_append_dropWhile]
  have hpoints : '/' ∉ text.toList.takeWhile (· == '.') := by
    intro hmem
    have hpoint := List.mem_takeWhile_imp hmem
    simp at hpoint
  rw [trimLeft, String.toList_ofList, hsplit, or_iff_right hpoints]

/-- A name is taken by its own look-up exactly if the extension has no slash. -/
private theorem takes_self_iff (name : String) : config.Takes name name ↔ '/' ∉ config.extension.toList := by
  have hself : config.Takes name name ↔ config.withExtension "" = "" ∨
      ((config.withExtension "").toList.head? = some '.' ∧ '/' ∉ (config.withExtension "").toList) := by
    rw [Takes, withExtension_eq_append]
    simp only [String.append_right_inj, exists_eq_left']
  rw [hself]
  by_cases hempty : config.extension = ""
  · simp [withExtension, hempty]
  · have hsuffix : (config.withExtension "").toList = '.' :: (trimLeft '.' config.extension).toList := by
      simp [withExtension, hempty]
    have hne : config.withExtension "" ≠ "" := by
      intro h
      rw [h] at hsuffix
      cases hsuffix
    rw [hsuffix, List.mem_cons, slash_mem_trimLeft]
    simp [hne]

/-- The look-up of the name of an entity finds the file of the first entity that it takes. -/
theorem rel_fileFor? (h : config.compile entities tables = .ok out) {name : String}
    (hname : name ∈ entities.map Entity.name) :
    Option.Rel (fun e f => ∃ r, config.compileEntity e entities tables = .ok r ∧ f = r.file)
      (entities.find? fun e => Output.isFileOf (config.logicalPath name) (config.filePath e.name))
      (out.fileFor? name) := by
  have hmap := map_get?_of_compile h name
  rw [if_pos hname] at hmap
  rw [Output.fileFor?, hmap]
  obtain ⟨rs, hrs, rfl⟩ := compile_eq_ok h
  have hfiles : List.Forall₂ (fun e f => ∃ r, config.compileEntity e entities tables = .ok r ∧ f = r.file) entities
      (rs.map Rendered.file) := List.forall₂_map_right_iff.2 (hrs.imp fun e r hr => ⟨r, hr, rfl⟩)
  refine rel_find?_of_forall₂ hfiles ?_
  rintro e f ⟨r, hr, rfl⟩
  obtain ⟨imports, -, rfl, -⟩ := compileEntity_eq_ok hr
  rfl

/-- Entities with the same file have the same name and compile to the same. -/
private theorem eq_of_file_eq {e e' : Entity} {r r' : Rendered} (hr : config.compileEntity e entities tables = .ok r)
    (hr' : config.compileEntity e' entities tables = .ok r') (hfile : r.file = r'.file) :
    e.name = e'.name ∧ r = r' := by
  have hname : e.name = e'.name := by
    apply config.filePath_inj
    rw [← filename_of_compileEntity hr, ← filename_of_compileEntity hr', hfile]
  refine ⟨hname, ?_⟩
  obtain ⟨imports, -, rfl, -⟩ := compileEntity_eq_ok hr
  obtain ⟨imports', -, rfl, -⟩ := compileEntity_eq_ok hr'
  simp only [Entity.render, Rendered.mk.injEq] at hfile ⊢
  exact ⟨hname, by rw [hname], hfile⟩

/-- Looking up the name of an entity finds a file exactly if it is that of the first entity that the look-up takes. -/
theorem fileFor?_eq_some_iff (h : config.compile entities tables = .ok out) {name : String}
    (hname : name ∈ entities.map Entity.name) {f : SourceFile} :
    out.fileFor? name = some f ↔ ∃ earlier first later r, entities = earlier ++ first :: later ∧
      config.Takes name first.name ∧ (∀ d ∈ earlier, ¬ config.Takes name d.name) ∧
      config.compileEntity first entities tables = .ok r ∧ f = r.file := by
  have hrel := rel_fileFor? h hname
  constructor
  · intro hfound
    rw [hfound] at hrel
    cases hfind : entities.find? fun d => Output.isFileOf (config.logicalPath name) (config.filePath d.name) with
    | none => rw [hfind] at hrel; cases hrel
    | some first =>
      rw [hfind] at hrel
      cases hrel with
      | some hfirst =>
        obtain ⟨r, hr, hfile⟩ := hfirst
        obtain ⟨htaken, earlier, later, hsplit, hearlier⟩ := List.find?_eq_some_iff_append.1 hfind
        refine ⟨earlier, first, later, r, hsplit, isFileOf_iff_takes.1 htaken, ?_, hr, hfile⟩
        intro d hd htakes
        have hnot := hearlier d hd
        rw [isFileOf_iff_takes.2 htakes] at hnot
        cases hnot
  · rintro ⟨earlier, first, later, r, hsplit, htakes, hearlier, hr, rfl⟩
    have hfind : entities.find? (fun d => Output.isFileOf (config.logicalPath name) (config.filePath d.name)) =
        some first := by
      refine List.find?_eq_some_iff_append.2 ⟨isFileOf_iff_takes.2 htakes, earlier, later, hsplit, ?_⟩
      intro d hd
      rw [Bool.not_eq_true', Bool.eq_false_iff]
      exact fun htaken => hearlier d hd (isFileOf_iff_takes.1 htaken)
    rw [hfind] at hrel
    cases hfound : out.fileFor? name with
    | none => rw [hfound] at hrel; cases hrel
    | some f =>
      rw [hfound] at hrel
      cases hrel with
      | some hf =>
        obtain ⟨r', hr', rfl⟩ := hf
        rw [hr] at hr'
        cases hr'
        rfl

/-- Looking a name up finds nothing if no entity is called so, and otherwise the file of the first entity that is taken.
This is the file of the last entity of that name exactly if the extension has no slash, no entity before the first one
of that name is taken, and the first one compiles to the same as the last one. -/
theorem fileFor?_eq_last_iff (h : config.compile entities tables = .ok out) (name : String) :
    (name ∉ entities.map Entity.name → out.fileFor? name = none) ∧
    (name ∈ entities.map Entity.name → ∀ f, out.fileFor? name = some f ↔
      ∃ earlier first later r, entities = earlier ++ first :: later ∧ config.Takes name first.name ∧
        (∀ e ∈ earlier, ¬ config.Takes name e.name) ∧ config.compileEntity first entities tables = .ok r ∧
        f = r.file) ∧
    ∀ before last after, entities = before ++ last :: after → last.name = name → (∀ e ∈ after, e.name ≠ name) →
      ∃ r, config.compileEntity last entities tables = .ok r ∧
        (out.fileFor? name = some r.file ↔
          '/' ∉ config.extension.toList ∧ ∃ earlier first later, entities = earlier ++ first :: later ∧
            first.name = name ∧ (∀ e ∈ earlier, ¬ config.Takes name e.name) ∧
            config.compileEntity first entities tables = .ok r) := by
  refine ⟨?_, fun hname f => fileFor?_eq_some_iff h hname, ?_⟩
  · intro hname
    have hmap := map_get?_of_compile h name
    rw [if_neg hname] at hmap
    rw [Output.fileFor?, hmap]
  · rintro before last after hsplit rfl -
    have hlast : last ∈ entities := by
      rw [hsplit]
      exact List.mem_append_right _ List.mem_cons_self
    obtain ⟨r, hr⟩ := exists_compileEntity_of_compile h hlast
    refine ⟨r, hr, (fileFor?_eq_some_iff h (List.mem_map_of_mem hlast)).trans ?_⟩
    constructor
    · rintro ⟨earlier, first, later, r', hsplit', htakes, hearlier, hr', hfile⟩
      -- the file tells the entity, so the one that is taken has the name that is looked up
      obtain ⟨hname, rfl⟩ := eq_of_file_eq hr hr' hfile
      rw [← hname, takes_self_iff] at htakes
      exact ⟨htakes, earlier, first, later, hsplit', hname.symm, hearlier, hr'⟩
    · rintro ⟨hslash, earlier, first, later, hsplit', hname, hearlier, hfirst⟩
      refine ⟨earlier, first, later, r, hsplit', ?_, hearlier, hfirst, rfl⟩
      rw [hname]
      exact (takes_self_iff last.name).2 hslash

/-- An entity that stands twice, and between the two another one that its look-up also takes. -/
theorem fileFor?_eq_last_repeated :
    let config : Config := { allowDuplicateNames := true }
    let user : Entity := ⟨"User", [⟨"id", true, false, .native .number⟩]⟩
    let entities : List Entity := [user, ⟨"User.Role", []⟩, user]
    ∃ out r, config.compile entities .empty = .ok out ∧ config.compileEntity user entities .empty = .ok r ∧
      out.fileFor? "User" = some r.file ∧ out.fileFor? "Role" = none := by
  intro config user entities
  have hout : ∃ out, config.compile entities .empty = .ok out := ⟨_, rfl⟩
  obtain ⟨out, hout⟩ := hout
  obtain ⟨-, -, hlast⟩ := fileFor?_eq_last_iff hout "User"
  obtain ⟨r, hr, hiff⟩ := hlast [user, ⟨"User.Role", []⟩] user [] rfl rfl (List.forall_mem_nil _)
  refine ⟨out, r, hout, hr, ?_, (fileFor?_eq_last_iff hout "Role").1 (by decide)⟩
  exact hiff.2 ⟨by decide, [], user, _, rfl, rfl, List.forall_mem_nil _, hr⟩

/-- An entity whose name goes on with a point from that of a later one: its file is found instead. -/
theorem fileFor?_takes_dotted :
    let config : Config := { mode := .interfaces }
    let entities : List Entity := [⟨"User.Role", []⟩, ⟨"User", []⟩]
    ∃ out r, config.compile entities .empty = .ok out ∧
      config.compileEntity ⟨"User", []⟩ entities .empty = .ok r ∧ out.fileFor? "User" ≠ some r.file :=
  ⟨_, _, rfl, rfl, by decide +kernel⟩

end Config

end SchemaDecl
