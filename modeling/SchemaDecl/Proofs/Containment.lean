import SchemaDecl.Proofs.Growth
import SchemaDecl.Proofs.Traversal
import SchemaDecl.Writer

/-!
# Nothing is written outside the root

An output is refused before anything is written if one of its filenames would leave the root (`Path.Escapes`), and the
error names the first such filename.  Otherwise every operation is on a path that consists of the root and names below
it, or on one of the folders above the root.  A change that is kept within these bounds (`FileTree.Within`) is what each
operation makes and, since such changes follow each other, what writing makes, whether it succeeds or fails on the way.
-/

namespace SchemaDecl

/-! ### Filenames that escape -/

namespace Path

/-- A filename would leave the folder that it is meant for.  Once every `./` in front of it is gone, nothing is left, or
an absolute path, or a path with a step up. -/
def Escapes (filename : String) : Prop :=
  ∃ (count : Nat) (rest : String), filename = String.join (List.replicate count "./") ++ rest ∧
    startsWith rest "./" = false ∧ (rest = "" ∨ isAbsolute rest = true ∨ ".." ∈ segments rest)

theorem escapes_iff {filename : String} :
    Escapes filename ↔ stripHere filename = "" ∨ isAbsolute (stripHere filename) = true ∨
      ".." ∈ segments (stripHere filename) := by
  constructor
  · rintro ⟨count, rest, rfl, hstart, hrest⟩
    rwa [stripHere_append hstart]
  · intro h
    obtain ⟨count, htext, hstart⟩ := exists_stripHere filename
    exact ⟨count, stripHere filename, htext, hstart, h⟩

end Path

theorem targetPath_of_escapes {filename : String} (h : Path.Escapes filename) (root : String) :
    targetPath root filename = .error (.outside filename) := by
  rw [targetPath, if_pos (Path.escapes_iff.1 h)]

theorem targetPath_of_not_escapes {filename : String} (h : ¬ Path.Escapes filename) (root : String) :
    targetPath root filename = .ok (Path.join root (Path.stripHere filename)) := by
  rw [targetPath, if_neg fun h' => h (Path.escapes_iff.2 h')]

/-! ### Changes within a root -/

/-- A segment that names something in a folder. -/
structure Path.IsName (s : String) : Prop where
  nonempty : s ≠ ""
  notHere : s ≠ "."
  notUp : s ≠ ".."
  noSlash : '/' ∉ s.toList

namespace FileTree

variable {t t' t'' : FileTree} {root : String}

/-- A location that is reached from the one a root leads to by going down along names, at least one. -/
def Below (t : FileTree) (root : String) (l : Location) : Prop :=
  ∃ (r : Location) (names : List String), t.walk (t.start root) (Path.segments root) = .ok r ∧ names ≠ [] ∧
    (∀ n ∈ names, Path.IsName n) ∧ l = r ++ names

/-- A location that a root, or a beginning of it, leads to. -/
def OnTheWay (t : FileTree) (root : String) (l : Location) : Prop :=
  ∃ count, t.walk (t.start root) ((Path.segments root).take count) = .ok l

/-- A tree changes within the bounds of a root.  What is new or other at a location is a text file below the root, or a
folder, where nothing was, below the root or on the way to it. -/
structure Within (root : String) (t t' : FileTree) : Prop where
  grows : t.Grows t'
  change : ∀ l, t'.get? l = t.get? l ∨ (∃ text, t'.get? l = some (.file (.text text)) ∧ t'.Below root l) ∨
    (t.get? l = none ∧ t'.get? l = some .folder ∧ (t'.OnTheWay root l ∨ t'.Below root l))

private theorem Below.of_grows {l : Location} (h : t.Below root l) (hgrows : t.Grows t') : t'.Below root l := by
  obtain ⟨r, names, hwalk, hrest⟩ := h
  refine ⟨r, names, ?_, hrest⟩
  rw [hgrows.start root]
  exact ((leads_of_walk hwalk).of_grows hgrows).walk

private theorem OnTheWay.of_grows {l : Location} (h : t.OnTheWay root l) (hgrows : t.Grows t') :
    t'.OnTheWay root l := by
  obtain ⟨count, hwalk⟩ := h
  refine ⟨count, ?_⟩
  rw [hgrows.start root]
  exact ((leads_of_walk hwalk).of_grows hgrows).walk

theorem Within.trans (h : Within root t t') (h' : Within root t' t'') : Within root t t'' where
  grows := h.grows.trans h'.grows
  change l := by
    rcases h'.change l with hsame | hfile | ⟨habsent, hfolder, hwhere⟩
    · -- the second change leaves the location alone, and what the first one made of it is still in its bounds
      rw [hsame]
      rcases h.change l with hsame' | ⟨text, hfile, hbelow⟩ | ⟨habsent, hfolder, hwhere⟩
      · exact .inl hsame'
      · exact .inr (.inl ⟨text, hfile, hbelow.of_grows h'.grows⟩)
      · refine .inr (.inr ⟨habsent, hfolder, ?_⟩)
        exact hwhere.imp (fun hway => hway.of_grows h'.grows) (fun hbelow => hbelow.of_grows h'.grows)
    · exact .inr (.inl hfile)
    · exact .inr (.inr ⟨h.grows.none_of_none habsent, hfolder, hwhere⟩)

instance (root : String) : IsPreorder FileTree (Within root) where
  refl t := ⟨.refl t, fun _ => .inl rfl⟩
  trans _ _ _ := Within.trans

/-- Segments of the root, and then segments without a step up, lead down from where the root leads. -/
theorem exists_root_of_leads {base rest : List String} {l : Location} (h : t.Leads (t.start root) (base ++ rest) l)
    (hroot : Path.segments root = base ∨ Path.segments root = base ++ [""]) (hup : ".." ∉ rest) (hne : rest ≠ []) :
    ∃ r, t.Leads (t.start root) (Path.segments root) r ∧ l = r ++ rest.filter (!Path.isHere ·) := by
  obtain ⟨r, hbase, hdown⟩ := h.exists_of_append
  refine ⟨r, ?_, hdown.eq_append hup⟩
  rcases hroot with hroot | hroot
  · rwa [hroot]
  · rw [hroot]
    exact hbase.append (leads_of_empty (hdown.folder hne) (by simp))

/-- Segments of the root, and then names and segments that stay, lead below the root. -/
private theorem below_of_leads {base rest : List String} {l : Location} (h : t.Leads (t.start root) (base ++ rest) l)
    (hroot : Path.segments root = base ∨ Path.segments root = base ++ [""])
    (hrest : ∀ s ∈ rest, s ≠ ".." ∧ '/' ∉ s.toList) (hname : ∃ s ∈ rest, Path.isHere s = false) : t.Below root l := by
  obtain ⟨s, hs, haway⟩ := hname
  have hup : ".." ∉ rest := fun hmem => (hrest ".." hmem).1 rfl
  obtain ⟨r, hleads, hl⟩ := exists_root_of_leads h hroot hup (List.ne_nil_of_mem hs)
  refine ⟨r, rest.filter (!Path.isHere ·), hleads.walk, ?_, ?_, hl⟩
  · exact List.ne_nil_of_mem (List.mem_filter.2 ⟨hs, by simp [haway]⟩)
  · intro n hn
    obtain ⟨hmem, hplain⟩ := List.mem_filter.1 hn
    simp only [Path.isHere, Bool.not_eq_true', Bool.or_eq_false_iff, decide_eq_false_iff_not] at hplain
    exact ⟨hplain.1, hplain.2, (hrest n hmem).1, (hrest n hmem).2⟩

/-- A beginning of a joined path that ends in a name leads to a place on the way to the root or below it. -/
private theorem onTheWay_or_below {path s : String} {before : List String} {l : Location}
    (hup : ".." ∉ Path.segments path)
    (hbegin : before ++ [s] <+: Path.segments (Path.join root path)) (hs : Path.isHere s = false)
    (h : t.Leads (t.start root) (before ++ [s]) l) : t.OnTheWay root l ∨ t.Below root l := by
  obtain ⟨base, hjoin, hroot⟩ := Path.segments_join root path
  rw [hjoin] at hbegin
  have hbase : base <+: Path.segments root := by
    rcases hroot with hroot | hroot
    · exact hroot.symm ▸ List.prefix_refl base
    · exact hroot.symm ▸ List.prefix_append base [""]
  by_cases hlength : (before ++ [s]).length ≤ base.length
  · left
    have hshort := List.prefix_of_prefix_length_le hbegin (List.prefix_append base _) hlength
    have htake := List.prefix_iff_eq_take.1 (hshort.trans hbase)
    exact ⟨(before ++ [s]).length, by rw [← htake]; exact h.walk⟩
  · right
    obtain ⟨rest, hrest⟩ := List.prefix_of_prefix_length_le (List.prefix_append base _) hbegin (by omega)
    have hsegments : rest <+: Path.segments path := by
      rw [← hrest, List.prefix_append_right_inj] at hbegin
      exact hbegin
    have hne : rest ≠ [] := by
      rintro rfl
      rw [← hrest, List.append_nil] at hlength
      exact hlength (Nat.le_refl _)
    -- the name at the end is the last of the segments below the root
    have hlast : s ∈ rest := by
      have hend := congrArg List.getLast? hrest
      rw [List.getLast?_append_of_ne_nil _ hne, List.getLast?_concat] at hend
      exact List.mem_of_getLast? hend
    rw [← hrest] at h
    refine below_of_leads h hroot (fun r hr => ⟨?_, ?_⟩) ⟨s, hlast, hs⟩
    · rintro rfl
      exact hup (hsegments.subset hr)
    · exact Path.slash_not_mem_of_mem_segments (hsegments.subset hr)

private theorem within_makeFolder {path s : String} {before : List String} (hrelative : Path.isAbsolute path = false)
    (hup : ".." ∉ Path.segments path) (hbegin : before ++ [s] <+: Path.segments (Path.join root path))
    (hs : Path.isHere s = false) (h : t.makeFolder (Path.ofSegments (before ++ [s])) = .ok t') : Within root t t' := by
  obtain ⟨l, habsent, rfl, hleads⟩ := makeFolder_begin hbegin hs h
  have hgrows := grows_put_folder habsent
  rw [start_join t root hrelative, ← hgrows.start root] at hleads
  refine ⟨hgrows, fun k => ?_⟩
  by_cases hk : k = l
  · subst hk
    have hne : k ≠ [] := by rintro rfl; cases habsent
    exact .inr (.inr ⟨habsent, get?_put_self t hne _, onTheWay_or_below hup hbegin hs hleads⟩)
  · exact .inl (get?_put_of_ne t hk _)

private theorem within_writeText {path content : String} (hrelative : Path.isAbsolute path = false)
    (hup : ".." ∉ Path.segments path) (h : t.writeText (Path.join root path) content = .ok t') : Within root t t' := by
  obtain ⟨l, hfile, rfl, hleads, name, hname, haway⟩ := writeText_eq_ok h
  have hgrows := grows_put_file hfile (.text content)
  obtain ⟨base, hjoin, hroot⟩ := Path.segments_join root path
  rw [hjoin, List.getLast?_append_of_ne_nil _ (Path.segments_ne_nil path)] at hname
  rw [start_join t root hrelative, ← hgrows.start root, hjoin] at hleads
  refine ⟨hgrows, fun k => ?_⟩
  by_cases hk : k = l
  · subst hk
    have hne : k ≠ [] := by rintro rfl; exact hfile rfl
    refine .inr (.inl ⟨content, get?_put_self t hne _, ?_⟩)
    refine below_of_leads hleads hroot (fun s hs => ⟨?_, ?_⟩) ⟨name, List.mem_of_getLast? hname, haway⟩
    · rintro rfl
      exact hup hs
    · exact Path.slash_not_mem_of_mem_segments hs
  · exact .inl (get?_put_of_ne t hk _)

end FileTree

/-! ### Writing -/

theorem ensures_writeTarget {root path : String} (hrelative : Path.isAbsolute path = false)
    (hup : ".." ∉ Path.segments path) (content : String) :
    Script.Ensures (FileTree.Within root) Unrefused (writeTarget (Path.join root path) content).run := by
  refine Script.Ensures.bind (Script.ensures_makeFolders ?_) fun _ => ?_
  · intro s above hsuffix hs t t' h
    have habove : Path.above (Path.join root path) <:+ (Path.segments (Path.join root path)).reverse :=
      (List.drop_suffix 1 _).trans (List.dropWhile_suffix _)
    have hbegin := List.reverse_suffix.1 ((List.reverse_reverse (s :: above)).symm ▸ hsuffix.trans habove)
    rw [List.reverse_cons] at hbegin h
    exact FileTree.within_makeFolder hrelative hup hbegin hs h
  · refine Script.ensures_writeText ?_ fun r hr => Script.ensures_done hr
    exact fun t t' h => FileTree.within_writeText hrelative hup h

/-- The path of a file that is below a root by its text: relative, and without a step up. -/
def IsTarget (root target : String) : Prop :=
  ∃ path, target = Path.join root path ∧ Path.isAbsolute path = false ∧ ".." ∉ Path.segments path

theorem ensures_writeTargets {root : String} {targets : List (String × String)}
    (h : ∀ target ∈ targets, IsTarget root target.1) :
    Script.Ensures (FileTree.Within root) Unrefused (writeTargets targets).run := by
  induction targets with
  | nil => exact Script.ensures_done (unrefused_ok [])
  | cons target rest ih =>
    obtain ⟨target, content⟩ := target
    obtain ⟨path, rfl, hrelative, hup⟩ := h (target, content) List.mem_cons_self
    have hrest := ih fun other hother => h other (List.mem_cons_of_mem _ hother)
    refine Script.Ensures.bind (ensures_writeTarget hrelative hup content) fun _ => ?_
    exact Script.Ensures.bind hrest fun _ => Script.ensures_done (unrefused_ok _)

/-- Place `i` is the first one with a filename that would leave the root. -/
structure FirstEscape (files : List SourceFile) (i : Nat) (filename : String) : Prop where
  here : ∃ f, files[i]? = some f ∧ f.filename = filename
  escapes : Path.Escapes filename
  least : ∀ k < i, ∀ f, files[k]? = some f → ¬ Path.Escapes f.filename

namespace Output

variable {o : Output} {root : String}

/-- The target of a file, which is refused exactly if its name would leave the root. -/
private theorem target_cases (root : String) (f : SourceFile) :
    (Path.Escapes f.filename ∧
      (targetPath root f.filename).map (·, f.content) = .error (.outside f.filename)) ∨
    (¬ Path.Escapes f.filename ∧
      ∃ target, (targetPath root f.filename).map (·, f.content) = .ok (target, f.content) ∧ IsTarget root target) := by
  by_cases h : Path.Escapes f.filename
  · rw [targetPath_of_escapes h]
    exact .inl ⟨h, rfl⟩
  · have hstrip := mt Path.escapes_iff.2 h
    rw [not_or, not_or, Bool.not_eq_true] at hstrip
    rw [targetPath_of_not_escapes h]
    exact .inr ⟨h, _, rfl, _, rfl, hstrip.2⟩

theorem targets_eq_error {e : FileError} (h : o.targets root = .error e) :
    ∃ i filename, FirstEscape o.allFiles i filename ∧ e = .outside filename := by
  obtain ⟨i, f, hf, herr, hbefore⟩ := mapM_eq_error_iff.1 h
  rcases target_cases root f with ⟨hescapes, hrefused⟩ | ⟨-, target, hok, -⟩
  · rw [hrefused] at herr
    refine ⟨i, f.filename, ⟨⟨f, hf, rfl⟩, hescapes, ?_⟩, (Except.error.inj herr).symm⟩
    intro k hk g hg hescapes'
    obtain ⟨c, hc⟩ := hbefore k hk g hg
    rcases target_cases root g with ⟨-, hrefused'⟩ | ⟨hnot, -⟩
    · rw [hrefused'] at hc
      cases hc
    · exact hnot hescapes'
  · rw [hok] at herr
    cases herr

theorem targets_of_firstEscape {i : Nat} {filename : String} (h : FirstEscape o.allFiles i filename) :
    o.targets root = .error (.outside filename) := by
  obtain ⟨f, hf, rfl⟩ := h.here
  refine mapM_eq_error_iff.2 ⟨i, f, hf, ?_, fun k hk g hg => ?_⟩
  · rw [targetPath_of_escapes h.escapes]
    rfl
  · rw [targetPath_of_not_escapes (h.least k hk g hg)]
    exact ⟨_, rfl⟩

theorem targets_eq_ok {targets : List (String × String)} (h : o.targets root = .ok targets) :
    (∀ f ∈ o.allFiles, ¬ Path.Escapes f.filename) ∧ ∀ target ∈ targets, IsTarget root target.1 := by
  have hall := mapM_eq_ok_iff.1 h
  constructor
  · intro f hf hescapes
    obtain ⟨target, -, hok⟩ := exists_mem_of_forall₂ hall hf
    rcases target_cases root f with ⟨-, hrefused⟩ | ⟨hnot, -⟩
    · rw [hrefused] at hok
      cases hok
    · exact hnot hescapes
  · intro target htarget
    obtain ⟨f, -, hok⟩ := exists_mem_of_forall₂ hall.flip htarget
    rcases target_cases root f with ⟨-, hrefused⟩ | ⟨-, target', hok', hisTarget⟩
    · rw [hrefused] at hok
      cases hok
    · rw [hok'] at hok
      cases hok
      exact hisTarget

theorem run_write (o : Output) (root : String) (t : FileTree) :
    (∃ e, o.targets root = .error e ∧ (o.write root).run.run t = (.error e, t)) ∨
    ∃ targets, o.targets root = .ok targets ∧ (o.write root).run.run t = (writeTargets targets).run.run t := by
  unfold write
  cases htargets : o.targets root with
  | error e => exact .inl ⟨e, rfl, rfl⟩
  | ok targets => exact .inr ⟨targets, rfl, rfl⟩

/-- Writing is refused exactly if some filename would leave the root; the error is about the first such filename and
leaves the tree as it was.  Otherwise, whether it succeeds or not, every file that is new or has other content is below
the root, and every new folder is below the root, the root itself or on the way to it. -/
theorem write_contained (o : Output) (root : String) (t : FileTree) :
    ((∃ filename, ((o.write root).run.run t).1 = .error (.outside filename)) ↔
      ∃ f ∈ o.allFiles, Path.Escapes f.filename) ∧
    (∀ filename, ((o.write root).run.run t).1 = .error (.outside filename) →
      (∃ i, FirstEscape o.allFiles i filename) ∧ ((o.write root).run.run t).2 = t ∧
        (FileError.outside filename).message = "generated file " ++ filename ++ " is outside the output directory") ∧
    ∀ l, ((o.write root).run.run t).2.get? l = t.get? l ∨
      (∃ text, ((o.write root).run.run t).2.get? l = some (.file (.text text)) ∧
        ((o.write root).run.run t).2.Below root l) ∨
      (t.get? l = none ∧ ((o.write root).run.run t).2.get? l = some .folder ∧
        (((o.write root).run.run t).2.OnTheWay root l ∨ ((o.write root).run.run t).2.Below root l)) := by
  rcases o.run_write root t with ⟨e, htargets, hrun⟩ | ⟨targets, htargets, hrun⟩
  · obtain ⟨i, filename, hfirst, rfl⟩ := targets_eq_error htargets
    rw [hrun]
    refine ⟨⟨fun _ => ?_, fun _ => ⟨filename, rfl⟩⟩, ?_, fun l => .inl rfl⟩
    · obtain ⟨f, hf, hname⟩ := hfirst.here
      exact ⟨f, List.mem_of_getElem? hf, hname ▸ hfirst.escapes⟩
    · intro filename' herr
      cases herr
      exact ⟨⟨i, hfirst⟩, rfl, rfl⟩
  · obtain ⟨hnone, hisTarget⟩ := targets_eq_ok htargets
    obtain ⟨hwithin, hunrefused⟩ := ensures_writeTargets hisTarget t
    rw [hrun]
    refine ⟨⟨?_, ?_⟩, ?_, hwithin.change⟩
    · rintro ⟨filename, herr⟩
      exact absurd herr (hunrefused filename)
    · rintro ⟨f, hf, hescapes⟩
      exact absurd hescapes (hnone f hf)
    · intro filename herr
      exact absurd herr (hunrefused filename)

/-- A name that climbs out of the root behind one that does not, and a root that is not there and has a step up. -/
theorem write_contained_nested :
    let refused : Output := { files := [⟨"./a.ts", "x"⟩, ⟨"././b/../../c.ts", "y"⟩] }
    let accepted : Output := { files := [⟨"./ts//./A.ts", "x"⟩] }
    let t := FileTree.fresh ["d"]
    (∃ filename, ((refused.write "out").run.run t).1 = .error (.outside filename) ∧
      (∃ i, FirstEscape refused.allFiles i filename) ∧ ((refused.write "out").run.run t).2 = t) ∧
    ((accepted.write "e/../out").run.run t).2.get? ["d", "out", "ts", "A.ts"] = some (.file (.text "x")) ∧
    ((accepted.write "e/../out").run.run t).2.Below "e/../out" ["d", "out", "ts", "A.ts"] := by
  intro refused accepted t
  constructor
  · obtain ⟨hiff, hfirst, -⟩ := write_contained refused "out" t
    have hescapes : Path.Escapes "././b/../../c.ts" := Path.escapes_iff.2 (by decide)
    obtain ⟨filename, herr⟩ := hiff.2 ⟨_, List.mem_cons_of_mem _ List.mem_cons_self, hescapes⟩
    obtain ⟨hplace, htree, -⟩ := hfirst filename herr
    exact ⟨filename, herr, hplace, htree⟩
  · have hwritten : ((accepted.write "e/../out").run.run t).2.get? ["d", "out", "ts", "A.ts"] =
        some (.file (.text "x")) := by decide +kernel
    have hbefore : t.get? ["d", "out", "ts", "A.ts"] = none := by decide
    refine ⟨hwritten, ?_⟩
    rcases (write_contained accepted "e/../out" t).2.2 ["d", "out", "ts", "A.ts"] with
      hsame | ⟨text, -, hbelow⟩ | ⟨-, hfolder, -⟩
    · rw [hwritten, hbefore] at hsame
      cases hsame
    · exact hbelow
    · rw [hwritten] at hfolder
      cases hfolder

end Output

end SchemaDecl
