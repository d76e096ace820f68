import SchemaDecl.Proofs.Containment

/-!
# What writing leaves behind

Writing one file makes the folders on the way to it and then puts its content where its path leads
(`writeTarget_cases`).  A list of files is written one after the other, so its effect is put together from the effects
of its parts (`Saved.append`): the last of the files with the same names along their paths is what is read at each of
these paths, other files stay as they were, and new folders are on the way to a file.  A failure leaves the effect of
the files before it, and perhaps folders on the way to the file it is about.
-/

namespace SchemaDecl

namespace Path

theorem names_join (root path : String) : names (join root path) = names root ++ names path := by
  obtain ⟨base, hjoin, hroot⟩ := segments_join root path
  have hempty : [""].filter (!isHere ·) = [] := by decide
  have hbase : names root = base.filter (!isHere ·) := by
    rcases hroot with hroot | hroot
    · rw [names, hroot]
    · rw [names, hroot, List.filter_append, hempty, List.append_nil]
  rw [names, hjoin, List.filter_append, hbase]
  rfl

/-- After the segments above a path comes its last name. -/
theorem segments_of_above_ne_nil {path : String} (h : above path ≠ []) :
    ∃ name after, segments path = (above path).reverse ++ name :: after ∧ isHere name = false := by
  cases hdrop : (segments path).reverse.dropWhile isHere with
  | nil =>
    have habove : above path = [] := by rw [above, hdrop]; rfl
    exact absurd habove h
  | cons name rest =>
    have habove : above path = rest := by rw [above, hdrop]; rfl
    have hsplit := List.takeWhile_append_dropWhile (p := isHere) (l := (segments path).reverse)
    have hhead := List.head?_dropWhile_not isHere (segments path).reverse
    rw [hdrop] at hsplit hhead
    refine ⟨name, ((segments path).reverse.takeWhile isHere).reverse, ?_, by simpa using hhead⟩
    rw [habove]
    simpa using (congrArg List.reverse hsplit).symm

end Path

/-! ### Reading -/

namespace FileTree

variable {t t' t'' : FileTree}

theorem locate_eq_ok_iff {path : String} {l : Location} :
    t.locate path = .ok l ↔ checkPath path = .ok () ∧ t.Leads (t.start path) (Path.segments path) l := by
  have hbind : t.locate path = checkPath path >>= fun _ => t.walk (t.start path) (Path.segments path) := rfl
  cases hcheck : checkPath path with
  | error e =>
    rw [hbind, hcheck]
    constructor
    · intro h; cases h
    · rintro ⟨h, -⟩; cases h
  | ok u =>
    have hwalk : t.locate path = t.walk (t.start path) (Path.segments path) := by rw [hbind, hcheck]; rfl
    rw [hwalk]
    exact ⟨fun h => ⟨rfl, leads_of_walk h⟩, fun h => h.2.walk⟩

theorem locate_of_grows {path : String} {l : Location} (h : t.locate path = .ok l) (hgrows : t.Grows t') :
    t'.locate path = .ok l := by
  obtain ⟨hcheck, hleads⟩ := locate_eq_ok_iff.1 h
  rw [locate_eq_ok_iff, hgrows.start path]
  exact ⟨hcheck, hleads.of_grows hgrows⟩

theorem readText_eq_ok_iff {path text : String} :
    t.readText path = .ok text ↔ ∃ l, t.locate path = .ok l ∧ t.get? l = some (.file (.text text)) := by
  unfold readText
  cases hlocate : t.locate path with
  | error e =>
    constructor
    · intro h; cases h
    · rintro ⟨l, h, -⟩; cases h
  | ok l =>
    simp only [bind, Except.bind]
    constructor
    · intro h
      refine ⟨l, rfl, ?_⟩
      -- of what can stand there, only a text is read
      split at h
      · rename_i hfile
        rw [hfile, Except.ok.inj h]
      all_goals cases h
    · rintro ⟨l', hl', htext⟩
      cases hl'
      rw [htext]

private theorem checkPath_of_writeText {path content : String} (h : t.writeText path content = .ok t') :
    checkPath path = .ok () := by
  cases hcheck : checkPath path with
  | ok u => rfl
  | error e =>
    have hplace : t.place path .isFolder = .error e := by unfold place; rw [hcheck]; rfl
    unfold writeText at h
    rw [hplace] at h
    cases h

/-! ### Folders on the way -/

/-- A location on the way to a path: a beginning of the path leads there, and a name is still to come. -/
def Above (t : FileTree) (path : String) (l : Location) : Prop :=
  ∃ before after, Path.segments path = before ++ after ∧ (∃ s ∈ after, Path.isHere s = false) ∧
    t.walk (t.start path) before = .ok l

private theorem Above.of_grows {path : String} {l : Location} (h : t.Above path l) (hgrows : t.Grows t') :
    t'.Above path l := by
  obtain ⟨before, after, hsegments, hname, hwalk⟩ := h
  refine ⟨before, after, hsegments, hname, ?_⟩
  rw [hgrows.start path]
  exact ((leads_of_walk hwalk).of_grows hgrows).walk

/-- A tree changes by new folders on the way to a path, and in nothing else. -/
structure Prepared (path : String) (t t' : FileTree) : Prop where
  grows : t.Grows t'
  change : ∀ l, t'.get? l = t.get? l ∨ (t.get? l = none ∧ t'.get? l = some .folder ∧ t'.Above path l)

theorem Prepared.trans {path : String} (h : Prepared path t t') (h' : Prepared path t' t'') : Prepared path t t'' where
  grows := h.grows.trans h'.grows
  change l := by
    rcases h'.change l with hsame | ⟨habsent, hfolder, habove⟩
    · rw [hsame]
      rcases h.change l with hsame' | ⟨habsent, hfolder, habove⟩
      · exact .inl hsame'
      · exact .inr ⟨habsent, hfolder, habove.of_grows h'.grows⟩
    · exact .inr ⟨h.grows.none_of_none habsent, hfolder, habove⟩

instance (path : String) : IsPreorder FileTree (Prepared path) where
  refl t := ⟨.refl t, fun _ => .inl rfl⟩
  trans _ _ _ := Prepared.trans

private theorem prepared_makeFolder {path s : String} {above : List String} (hsuffix : s :: above <:+ Path.above path)
    (hs : Path.isHere s = false) (h : t.makeFolder (Path.ofSegments (s :: above).reverse) = .ok t') :
    Prepared path t t' := by
  obtain ⟨front, hfront⟩ := hsuffix
  have hne : Path.above path ≠ [] := by simp [← hfront]
  obtain ⟨name, after, hsegments, hname⟩ := Path.segments_of_above_ne_nil hne
  have hsplit : Path.segments path = (above.reverse ++ [s]) ++ (front.reverse ++ name :: after) := by
    simp [hsegments, ← hfront]
  rw [List.reverse_cons] at h
  obtain ⟨l, habsent, rfl, hleads⟩ := makeFolder_begin ⟨_, hsplit.symm⟩ hs h
  have hgrows := grows_put_folder habsent
  refine ⟨hgrows, fun k => ?_⟩
  by_cases hk : k = l
  · subst hk
    have hnil : k ≠ [] := by rintro rfl; cases habsent
    have hwalk : (t.put k .folder).walk ((t.put k .folder).start path) (above.reverse ++ [s]) = .ok k := by
      rw [hgrows.start path]
      exact hleads.walk
    exact .inr ⟨habsent, get?_put_self t hnil _, _, _, hsplit, ⟨name, by simp, hname⟩, hwalk⟩
  · exact .inl (get?_put_of_ne t hk _)

private theorem Prepared.file_iff {path : String} (h : Prepared path t t') (l : Location) (c : Content) :
    t'.get? l = some (.file c) ↔ t.get? l = some (.file c) := by
  rcases h.change l with hsame | ⟨habsent, hfolder, -⟩
  · rw [hsame]
  · rw [habsent, hfolder]
    simp

private theorem Prepared.folder {path : String} (h : Prepared path t t') {l : Location}
    (hl : t'.get? l = some .folder) :
    t.get? l = some .folder ∨ t'.Above path l := by
  rcases h.change l with hsame | ⟨-, -, habove⟩
  · exact .inl (hsame ▸ hl)
  · exact .inr habove

end FileTree

/-! ### One file -/

private theorem ensures_makeParent (path : String) :
    Script.Ensures (FileTree.Prepared path) Unrefused (Script.makeParent path).run :=
  Script.ensures_makeFolders fun _ _ hsuffix hs _ _ h => FileTree.prepared_makeFolder hsuffix hs h

/-- Writing a file fails when nothing but folders on the way to it have been made, or it puts the content where its path
leads from then on. -/
theorem writeTarget_cases (path content : String) (t : FileTree) :
    (∃ e t', (writeTarget path content).run.run t = (.error e, t') ∧ FileTree.Prepared path t t') ∨
    ∃ mid l, FileTree.Prepared path t mid ∧ mid.get? l ≠ some .folder ∧
      (mid.put l (.file (.text content))).locate path = .ok l ∧
      (writeTarget path content).run.run t = (.ok (), mid.put l (.file (.text content))) := by
  obtain ⟨hprepared, -⟩ := ensures_makeParent path t
  cases hparent : (Script.makeParent path).run.run t with
  | mk r mid =>
    rw [hparent] at hprepared
    cases r with
    | error e => exact .inl ⟨e, mid, Script.run_bind_error hparent, hprepared⟩
    | ok u =>
      have hrun : (writeTarget path content).run.run t = Script.settle mid (mid.writeText path content) :=
        Script.run_bind_ok hparent
      cases hwrite : mid.writeText path content with
      | error e => exact .inl ⟨e, mid, by rw [hrun, hwrite]; rfl, hprepared⟩
      | ok t' =>
        obtain ⟨l, hfile, rfl, hleads, -⟩ := FileTree.writeText_eq_ok hwrite
        have hlocate : (mid.put l (.file (.text content))).locate path = .ok l :=
          FileTree.locate_eq_ok_iff.2 ⟨FileTree.checkPath_of_writeText hwrite, hleads⟩
        exact .inr ⟨mid, l, hprepared, hfile, hlocate, by rw [hrun, hwrite]; rfl⟩

/-! ### Files in their order -/

/-- The path of a file below a root: the root joined with its filename, without every `./` in front. -/
def SourceFile.pathBelow (f : SourceFile) (root : String) : String := Path.join root (Path.stripHere f.filename)

/-- Of the files whose paths have the same names as that of `f`, the last one is `g`. -/
def LastLike (root : String) (files : List SourceFile) (f g : SourceFile) : Prop :=
  ∃ before after, files = before ++ g :: after ∧ Path.names (g.pathBelow root) = Path.names (f.pathBelow root) ∧
    ∀ h ∈ after, Path.names (h.pathBelow root) ≠ Path.names (f.pathBelow root)

/-- Files have been written below a root, and no others; those that have been begun include the one, if any, that could
not be written.  Each path holds the last file with its names.  Files elsewhere are as they were, and a folder is new
only if it is on the way to a file that has been begun. -/
structure Saved (root : String) (files begun : List SourceFile) (t t' : FileTree) : Prop where
  grows : t.Grows t'
  content : ∀ f ∈ files, ∃ g, LastLike root files f g ∧ t'.readText (f.pathBelow root) = .ok g.content
  elsewhere : ∀ l, (∀ f ∈ files, t'.locate (f.pathBelow root) ≠ .ok l) →
    ∀ c, t'.get? l = some (.file c) ↔ t.get? l = some (.file c)
  folders : ∀ l, t'.get? l = some .folder → t.get? l = some .folder ∨ ∃ f ∈ begun, t'.Above (f.pathBelow root) l

section Saved

variable {root : String} {t t' t'' : FileTree}

/-- Two files below a root are in one place exactly if their paths have the same names. -/
theorem locate_eq_iff {f g : SourceFile} (hf : ¬ Path.Escapes f.filename) (hg : ¬ Path.Escapes g.filename)
    {l l' : Location} (hl : t.locate (f.pathBelow root) = .ok l) (hl' : t.locate (g.pathBelow root) = .ok l') :
    l = l' ↔ Path.names (f.pathBelow root) = Path.names (g.pathBelow root) := by
  have hplace : ∀ {h : SourceFile} {k : Location}, ¬ Path.Escapes h.filename → t.locate (h.pathBelow root) = .ok k →
      ∃ r, t.walk (t.start root) (Path.segments root) = .ok r ∧ k = r ++ Path.names (Path.stripHere h.filename) := by
    intro h k hescapes hk
    rw [Path.escapes_iff, not_or, not_or, Bool.not_eq_true] at hescapes
    obtain ⟨base, hjoin, hroot⟩ := Path.segments_join root (Path.stripHere h.filename)
    have hleads := (FileTree.locate_eq_ok_iff.1 hk).2
    rw [SourceFile.pathBelow, t.start_join root hescapes.2.1, hjoin] at hleads
    obtain ⟨r, hr, hkr⟩ := FileTree.exists_root_of_leads hleads hroot hescapes.2.2 (Path.segments_ne_nil _)
    exact ⟨r, hr.walk, hkr⟩
  obtain ⟨r, hr, rfl⟩ := hplace hf hl
  obtain ⟨r', hr', rfl⟩ := hplace hg hl'
  obtain rfl : r = r' := Except.ok.inj (hr.symm.trans hr')
  simp only [SourceFile.pathBelow, Path.names_join, List.append_cancel_left_eq]

private theorem saved_nil {f : SourceFile} (h : FileTree.Prepared (f.pathBelow root) t t') :
    Saved root [] [f] t t' where
  grows := h.grows
  content f hf := by cases hf
  elsewhere l _ c := h.file_iff l c
  folders l hl := (h.folder hl).imp_right fun habove => ⟨f, List.mem_cons_self, habove⟩

private theorem saved_singleton {f : SourceFile} {mid : FileTree} {l : Location}
    (h : FileTree.Prepared (f.pathBelow root) t mid) (hfile : mid.get? l ≠ some .folder)
    (hlocate : (mid.put l (.file (.text f.content))).locate (f.pathBelow root) = .ok l) :
    Saved root [f] [f] t (mid.put l (.file (.text f.content))) := by
  have hgrows := FileTree.grows_put_file hfile (.text f.content)
  have hnil : l ≠ [] := by rintro rfl; exact hfile rfl
  have hself := FileTree.get?_put_self mid hnil (.file (.text f.content))
  refine ⟨h.grows.trans hgrows, ?_, ?_, ?_⟩
  · intro g hg
    obtain rfl := List.mem_singleton.1 hg
    refine ⟨g, ⟨[], [], rfl, rfl, List.forall_mem_nil _⟩, ?_⟩
    exact FileTree.readText_eq_ok_iff.2 ⟨l, hlocate, hself⟩
  · intro k hk c
    have hne : k ≠ l := by
      rintro rfl
      exact hk f List.mem_cons_self hlocate
    rw [FileTree.get?_put_of_ne mid hne]
    exact h.file_iff k c
  · intro k hk
    have hne : k ≠ l := by
      rintro rfl
      rw [hself] at hk
      cases hk
    rw [FileTree.get?_put_of_ne mid hne] at hk
    refine (h.folder hk).imp_right fun habove => ⟨f, List.mem_cons_self, habove.of_grows hgrows⟩

/-- What is read at the path of a file after more files have been written: the last of these with the same names, or, if
there is none, what was read before. -/
private theorem content_append {files files' begun' : List SourceFile}
    (haccepted : ∀ f ∈ files ++ files', ¬ Path.Escapes f.filename) (h' : Saved root files' begun' t' t'')
    {f : SourceFile} (hf : f ∈ files) {g : SourceFile} (hg : LastLike root files f g)
    (hread : t'.readText (f.pathBelow root) = .ok g.content) :
    ∃ g, LastLike root (files ++ files') f g ∧ t''.readText (f.pathBelow root) = .ok g.content := by
  obtain ⟨l, hl, htext⟩ := FileTree.readText_eq_ok_iff.1 hread
  have hl' := FileTree.locate_of_grows hl h'.grows
  have hf' := haccepted f (List.mem_append_left _ hf)
  by_cases hlater : ∃ k ∈ files', Path.names (k.pathBelow root) = Path.names (f.pathBelow root)
  · obtain ⟨k, hk, hnames⟩ := hlater
    obtain ⟨last, ⟨before, after, rfl, hlast, hafter⟩, hreadLast⟩ := h'.content k hk
    obtain ⟨m, hm, htextLast⟩ := FileTree.readText_eq_ok_iff.1 hreadLast
    -- the two paths lead to one place
    obtain rfl := (locate_eq_iff (haccepted k (List.mem_append_right _ hk)) hf' hm hl').2 hnames
    rw [hnames] at hlast hafter
    refine ⟨last, ⟨files ++ before, after, by simp, hlast, hafter⟩, ?_⟩
    exact FileTree.readText_eq_ok_iff.2 ⟨m, hl', htextLast⟩
  · obtain ⟨before, after, rfl, hsame, hafter⟩ := hg
    refine ⟨g, ⟨before, after ++ files', by simp, hsame, ?_⟩, ?_⟩
    · intro k hk
      rcases List.mem_append.1 hk with hk | hk
      · exact hafter k hk
      · exact fun hnames => hlater ⟨k, hk, hnames⟩
    · refine FileTree.readText_eq_ok_iff.2 ⟨l, hl', (h'.elsewhere l ?_ _).2 htext⟩
      intro k hk hkl
      have hnames := (locate_eq_iff (haccepted k (List.mem_append_right _ hk)) hf' hkl hl').1 rfl
      exact hlater ⟨k, hk, hnames⟩

/-- The effect of writing files and then others is that of writing them all. -/
theorem Saved.append {files begun files' begun' : List SourceFile}
    (haccepted : ∀ f ∈ files ++ files', ¬ Path.Escapes f.filename) (h : Saved root files begun t t')
    (h' : Saved root files' begun' t' t'') : Saved root (files ++ files') (begun ++ begun') t t'' where
  grows := h.grows.trans h'.grows
  content f hf := by
    rcases List.mem_append.1 hf with hf | hf
    · obtain ⟨g, hg, hread⟩ := h.content f hf
      exact content_append haccepted h' hf hg hread
    · obtain ⟨g, ⟨before, after, rfl, hsame, hafter⟩, hread⟩ := h'.content f hf
      exact ⟨g, ⟨files ++ before, after, by simp, hsame, hafter⟩, hread⟩
  elsewhere l hl c := by
    have hfirst : ∀ f ∈ files, t'.locate (f.pathBelow root) ≠ .ok l := fun f hf hlocate =>
      hl f (List.mem_append_left _ hf) (FileTree.locate_of_grows hlocate h'.grows)
    have hsecond : ∀ f ∈ files', t''.locate (f.pathBelow root) ≠ .ok l := fun f hf =>
      hl f (List.mem_append_right _ hf)
    rw [h'.elsewhere l hsecond c, h.elsewhere l hfirst c]
  folders l hl := by
    rcases h'.folders l hl with hl' | ⟨f, hf, habove⟩
    · rcases h.folders l hl' with hl'' | ⟨f, hf, habove⟩
      · exact .inl hl''
      · exact .inr ⟨f, List.mem_append_left _ hf, habove.of_grows h'.grows⟩
    · exact .inr ⟨f, List.mem_append_right _ hf, habove⟩

/-- Files with their paths below a root. -/
def withPaths (root : String) (files : List SourceFile) : List (String × String) :=
  files.map fun f => (f.pathBelow root, f.content)

/-- Writing files below a root either writes them all, or it writes those before some file and fails on that one. -/
theorem writeTargets_cases {files : List SourceFile} (haccepted : ∀ f ∈ files, ¬ Path.Escapes f.filename)
    (t : FileTree) :
    (∃ t', (writeTargets (withPaths root files)).run.run t = (.ok (files.map (·.pathBelow root)), t') ∧
      Saved root files files t t') ∨
    ∃ e before f after mid t', files = before ++ f :: after ∧
      (writeTargets (withPaths root before)).run.run t = (.ok (before.map (·.pathBelow root)), mid) ∧
      (writeTarget (f.pathBelow root) f.content).run.run mid = (.error e, t') ∧
      (writeTargets (withPaths root files)).run.run t = (.error e, t') ∧ Saved root before (before ++ [f]) t t' := by
  induction files generalizing t with
  | nil => exact .inl ⟨t, rfl, .refl t, List.forall_mem_nil _, fun _ _ _ => Iff.rfl, fun _ hl => .inl hl⟩
  | cons f rest ih =>
    rcases writeTarget_cases (f.pathBelow root) f.content t with
      ⟨e, t', hrun, hprepared⟩ | ⟨mid, l, hprepared, hfile, hlocate, hrun⟩
    · exact .inr ⟨e, [], f, rest, t, t', rfl, rfl, hrun, Script.run_bind_error hrun, saved_nil hprepared⟩
    · have hsaved := saved_singleton hprepared hfile hlocate
      have hrest : ∀ g ∈ rest, ¬ Path.Escapes g.filename := fun g hg => haccepted g (List.mem_cons_of_mem f hg)
      rcases ih hrest (mid.put l (.file (.text f.content))) with
        ⟨t', hrunRest, hsavedRest⟩ | ⟨e, before, g, after, mid', t', rfl, hrunBefore, hfails, hrunRest, hsavedRest⟩
      · exact .inl ⟨t', (Script.run_bind_ok hrun).trans (Script.run_bind_ok hrunRest),
          hsaved.append haccepted hsavedRest⟩
      · refine .inr ⟨e, f :: before, g, after, mid', t', rfl,
          (Script.run_bind_ok hrun).trans (Script.run_bind_ok hrunBefore), hfails,
          (Script.run_bind_ok hrun).trans (Script.run_bind_error hrunRest), ?_⟩
        refine hsaved.append (fun k hk => haccepted k ?_) hsavedRest
        exact List.mem_append_left (g :: after) hk

end Saved

namespace Output

private theorem targets_of_accepted {o : Output} {root : String} (h : ∀ f ∈ o.allFiles, ¬ Path.Escapes f.filename) :
    o.targets root = .ok (withPaths root o.allFiles) := by
  refine mapM_eq_ok_iff.2 (List.forall₂_map_right_iff.2 (List.forall₂_same.2 ?_))
  intro f hf
  rw [targetPath_of_not_escapes (h f hf)]
  rfl

theorem run_write_of_accepted {o : Output} {root : String} (h : ∀ f ∈ o.allFiles, ¬ Path.Escapes f.filename)
    (t : FileTree) : (o.write root).run.run t = (writeTargets (withPaths root o.allFiles)).run.run t := by
  unfold write
  rw [targets_of_accepted h]
  rfl

private theorem not_escapes_of_isOk {root filename : String} (h : (targetPath root filename).isOk = true) :
    ¬ Path.Escapes filename := by
  intro hescapes
  rw [targetPath_of_escapes hescapes] at h
  cases h

/-- Writing succeeds only if every filename is accepted, and then all files are saved at their paths below the root. -/
theorem saved_of_write {o : Output} {root : String} {t t' : FileTree} {paths : List String}
    (h : (o.write root).run.run t = (.ok paths, t')) :
    (∀ f ∈ o.allFiles, ¬ Path.Escapes f.filename) ∧ paths = o.allFiles.map (·.pathBelow root) ∧
      Saved root o.allFiles o.allFiles t t' := by
  rcases o.run_write root t with ⟨e, -, hrun⟩ | ⟨targets, htargets, -⟩
  · rw [hrun] at h
    cases h
  · have haccepted := (targets_eq_ok htargets).1
    rw [run_write_of_accepted haccepted] at h
    rcases writeTargets_cases haccepted t with ⟨tree, hrun, hsaved⟩ | ⟨e, _, _, _, _, _, -, -, -, hrun, -⟩
    · rw [hrun] at h
      cases h
      exact ⟨haccepted, rfl, hsaved⟩
    · rw [hrun] at h
      cases h

/-- What writing does to a tree when every filename is accepted.  If it succeeds, its paths are those of the files below
the root, and all files are saved.  If it fails, it fails on some file: the files before that one are saved, as writing
them alone would do, and nothing but folders on the way to it have been made for that one. -/
theorem write_effect (o : Output) (root : String) (t : FileTree)
    (haccepted : ∀ f ∈ o.allFiles, (targetPath root f.filename).isOk = true) :
    (∀ paths t', (o.write root).run.run t = (.ok paths, t') →
      paths = o.allFiles.map (·.pathBelow root) ∧ Saved root o.allFiles o.allFiles t t') ∧
    ∀ e t', (o.write root).run.run t = (.error e, t') →
      ∃ k f mid, o.allFiles[k]? = some f ∧
        (({ files := o.allFiles.take k } : Output).write root).run.run t =
          (.ok ((o.allFiles.take k).map (·.pathBelow root)), mid) ∧
        (({ files := [f] } : Output).write root).run.run mid = (.error e, t') ∧
        Saved root (o.allFiles.take k) (o.allFiles.take (k + 1)) t t' := by
  refine ⟨fun paths t' h => (saved_of_write h).2, ?_⟩
  intro e t' h
  have haccepted' : ∀ f ∈ o.allFiles, ¬ Path.Escapes f.filename := fun f hf => not_escapes_of_isOk (haccepted f hf)
  rw [run_write_of_accepted haccepted'] at h
  rcases writeTargets_cases haccepted' t with
    ⟨tree, hrun, -⟩ | ⟨err, before, f, after, mid, tree, hsplit, hbefore, hfails, hrun, hsaved⟩
  · rw [hrun] at h
    cases h
  · rw [hrun] at h
    cases h
    have htake : o.allFiles.take before.length = before := by rw [hsplit, List.take_left]
    have htake' : o.allFiles.take (before.length + 1) = before ++ [f] := by
      rw [hsplit, List.take_length_add_append]
      rfl
    have hplace : o.allFiles[before.length]? = some f := by simp [hsplit]
    have hfirst : ∀ g ∈ before ++ [f], ¬ Path.Escapes g.filename := fun g hg =>
      haccepted' g (List.mem_of_mem_take (htake' ▸ hg))
    refine ⟨before.length, f, mid, hplace, ?_, ?_, ?_⟩
    · rw [htake, run_write_of_accepted fun g hg => hfirst g (List.mem_append_left _ (by simpa [allFiles] using hg))]
      simpa [allFiles] using hbefore
    · rw [run_write_of_accepted fun g hg => hfirst g (List.mem_append_right _ (by simpa [allFiles] using hg))]
      exact Script.run_bind_error hfails
    · rw [htake, htake']
      exact hsaved

/-- Two files in one place, a third that would need the place for a folder, and a fourth behind it. -/
theorem write_effect_overwritten :
    let shared : List SourceFile := [⟨"./a/x.ts", "1"⟩, ⟨"a/./x.ts", "2"⟩]
    let o : Output := { files := shared ++ [⟨"a/x.ts/y.ts", "3"⟩], support := [⟨"z.ts", "4"⟩] }
    let t := FileTree.fresh ["d"]
    (∃ t', (({ files := shared } : Output).write "out").run.run t = (.ok ["out/a/x.ts", "out/a/./x.ts"], t') ∧
      Saved "out" shared shared t t') ∧
    ∃ t', (o.write "out").run.run t = (.error .alreadyExists, t') ∧ t'.readText "out/a/x.ts" = .ok "2" ∧
      ∃ k, Saved "out" (o.allFiles.take k) (o.allFiles.take (k + 1)) t t' := by
  intro shared o t
  have hpair : ∀ r : Except FileError (List String) × FileTree, r = (r.1, r.2) := fun r => rfl
  have hshared : ((({ files := shared } : Output).write "out").run.run t).1 = .ok ["out/a/x.ts", "out/a/./x.ts"] := by
    decide +kernel
  have hfails : ((o.write "out").run.run t).1 = .error .alreadyExists := by decide +kernel
  have hread : ((o.write "out").run.run t).2.readText "out/a/x.ts" = .ok "2" := by decide +kernel
  constructor
  · have hrun := hpair ((({ files := shared } : Output).write "out").run.run t)
    rw [hshared] at hrun
    exact ⟨_, hrun, ((write_effect _ "out" t (by decide)).1 _ _ hrun).2⟩
  · have hrun := hpair ((o.write "out").run.run t)
    rw [hfails] at hrun
    obtain ⟨k, f, mid, -, -, -, hsaved⟩ := (write_effect o "out" t (by decide)).2 _ _ hrun
    exact ⟨_, hrun, hread, k, hsaved⟩

end Output

end SchemaDecl
