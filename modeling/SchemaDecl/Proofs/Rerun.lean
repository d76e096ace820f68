import SchemaDecl.Proofs.Saving

/-!
# Writing the same files again

Once a file stands where a path leads, the folders on the way are there, so that writing to the path makes none and
only puts the new content in the place of the old one (`run_writeTarget_of_file`).  Writing an output again is then a
list of puts at places that are taken, and such a list leaves the tree alone if the last put at each place is what
stands there already (`FileTree.putAll_eq_self`).  After a successful run it is, whatever files share a place.
-/

namespace SchemaDecl

namespace FileTree

variable {t t' : FileTree}

/-! ### Laws of putting -/

private theorem putEntry_putEntry (l : Location) (a b : Node) (entries : List (Location × Node)) :
    putEntry l b (putEntry l a entries) = putEntry l b entries := by
  induction entries with
  | nil => simp [putEntry]
  | cons e entries ih =>
    obtain ⟨k, n⟩ := e
    by_cases h : k = l
    · simp [putEntry, h]
    · simp [putEntry, h, ih]

private theorem putEntry_of_lookup {l : Location} {node : Node} {entries : List (Location × Node)}
    (h : entries.lookup l = some node) : putEntry l node entries = entries := by
  induction entries with
  | nil => cases h
  | cons e entries ih =>
    obtain ⟨k, n⟩ := e
    rw [List.lookup_cons] at h
    by_cases hk : k = l
    · subst hk
      have hn : n = node := by simpa using h
      simp [putEntry, hn]
    · have hne : (l == k) = false := beq_eq_false_iff_ne.2 (Ne.symm hk)
      rw [hne] at h
      simp [putEntry, hk, ih h]

private theorem putEntry_comm {l k : Location} (hne : l ≠ k) (a b : Node) {entries : List (Location × Node)}
    (hk : (entries.lookup k).isSome = true) :
    putEntry k b (putEntry l a entries) = putEntry l a (putEntry k b entries) := by
  induction entries with
  | nil => cases hk
  | cons e entries ih =>
    obtain ⟨m, n⟩ := e
    by_cases hml : m = l
    · subst hml
      simp [putEntry, hne]
    · by_cases hmk : m = k
      · subst hmk
        simp [putEntry, Ne.symm hne]
      · have hkm : (k == m) = false := beq_eq_false_iff_ne.2 (Ne.symm hmk)
        rw [List.lookup_cons, hkm] at hk
        simp [putEntry, hml, hmk, ih hk]

/-- Of two puts at one location the second counts. -/
theorem put_put (t : FileTree) (l : Location) (a b : Node) : (t.put l a).put l b = t.put l b := by
  unfold put
  rw [putEntry_putEntry]

/-- Putting what is there changes nothing. -/
theorem put_of_get? {l : Location} {node : Node} (hl : l ≠ []) (h : t.get? l = some node) : t.put l node = t := by
  rw [get?, if_neg hl] at h
  unfold put
  rw [putEntry_of_lookup h]

/-- Puts at two locations can be exchanged if something is there already. -/
theorem put_comm {l k : Location} (hne : l ≠ k) (hk : k ≠ []) (hthere : t.get? k ≠ none) (a b : Node) :
    (t.put l a).put k b = (t.put k b).put l a := by
  rw [get?, if_neg hk] at hthere
  unfold put
  rw [putEntry_comm hne a b (Option.isSome_iff_ne_none.2 hthere)]

/-- The tree after puts in their order. -/
def putAll (t : FileTree) : List (Location × Node) → FileTree
  | [] => t
  | (l, node) :: rest => (t.put l node).putAll rest

/-- Below the root, and taken. -/
def Taken (t : FileTree) (l : Location) : Prop := l ≠ [] ∧ t.get? l ≠ none

private theorem Taken.put {l : Location} (h : t.Taken l) (k : Location) (node : Node) : (t.put k node).Taken l := by
  refine ⟨h.1, ?_⟩
  by_cases hk : l = k
  · subst hk
    simp [get?_put_self t h.1]
  · rw [get?_put_of_ne t hk]
    exact h.2

/-- A put does not count if a later one is at the same location. -/
private theorem putAll_put_of_mem {puts : List (Location × Node)} (htaken : ∀ p ∈ puts, t.Taken p.1) {l : Location}
    (hl : l ∈ puts.map Prod.fst) (node : Node) : (t.put l node).putAll puts = t.putAll puts := by
  induction puts generalizing t with
  | nil => cases hl
  | cons p rest ih =>
    obtain ⟨k, other⟩ := p
    have hk : t.Taken k := htaken _ List.mem_cons_self
    have hrest : ∀ p ∈ rest, (t.put k other).Taken p.1 := fun p hp =>
      (htaken p (List.mem_cons_of_mem _ hp)).put k other
    rw [putAll, putAll]
    by_cases heq : l = k
    · subst heq
      rw [put_put]
    · have hmem : l ∈ rest.map Prod.fst := by simpa [heq] using hl
      rw [put_comm heq hk.1 hk.2, ih hrest hmem]

/-- Puts leave a tree alone if the last one at each location puts what is there. -/
theorem putAll_eq_self {puts : List (Location × Node)} (htaken : ∀ p ∈ puts, t.Taken p.1)
    (hlast : ∀ before l node after, puts = before ++ (l, node) :: after → l ∉ after.map Prod.fst →
      t.get? l = some node) : t.putAll puts = t := by
  induction puts with
  | nil => rfl
  | cons p rest ih =>
    obtain ⟨l, node⟩ := p
    have hrest : ∀ p ∈ rest, t.Taken p.1 := fun p hp => htaken p (List.mem_cons_of_mem _ hp)
    have hself : t.putAll rest = t := by
      refine ih hrest fun before k other after hsplit => ?_
      exact hlast ((l, node) :: before) k other after (by rw [hsplit]; rfl)
    rw [putAll]
    by_cases hlater : l ∈ rest.map Prod.fst
    · rw [putAll_put_of_mem hrest hlater, hself]
    · rw [put_of_get? (htaken _ List.mem_cons_self).1 (hlast [] l node rest rfl hlater), hself]

/-! ### Operations where something stands -/

private theorem lastSegment?_of_segments {path s : String} {before : List String}
    (h : Path.segments path = before ++ [s]) (hs : s ≠ "") : lastSegment? path = some (before, s) := by
  have hdrop : (s :: before.reverse).dropWhile (fun r => decide (r = "")) = s :: before.reverse := by simp [hs]
  unfold lastSegment?
  rw [h, List.reverse_append, List.reverse_singleton, List.singleton_append, hdrop]
  simp

/-- The place that a path names, once the folder before its last segment has been reached. -/
private theorem place_of_leads {path s : String} {before : List String} {folder : Location}
    (hcheck : checkPath path = .ok ())
    (hsegments : Path.segments path = before ++ [s]) (hs : s ≠ "") (hbefore : t.Leads (t.start path) before folder)
    (hfolder : t.get? folder = some .folder) (taken : FileError) :
    t.place path taken = if s = "." ∨ s = ".." then .error taken else .ok (folder, s) := by
  unfold place
  rw [hcheck, lastSegment?_of_segments hsegments hs]
  simp only [hbefore.walk, requireFolder_eq_ok_iff.2 hfolder, bind, Except.bind]

private theorem ne_empty_of_away {s : String} (h : Path.isHere s = false) : s ≠ "" ∧ s ≠ "." := by
  simpa [Path.isHere] using h

/-- A folder is not made where segments that go on lead. -/
private theorem makeFolder_of_leads {path s : String} {before after : List String} {l : Location}
    (hcheck : checkPath path = .ok ()) (hsegments : Path.segments path = before ++ [s]) (hs : Path.isHere s = false)
    (hleads : t.Leads (t.start path) (before ++ s :: after) l) :
    t.makeFolder path = .error .alreadyExists := by
  obtain ⟨folder, hbefore, hnext⟩ := hleads.exists_of_append
  have hfolder := hnext.folder (List.cons_ne_nil s after)
  have hplace := place_of_leads hcheck hsegments (ne_empty_of_away hs).1 hbefore hfolder .alreadyExists
  unfold makeFolder
  cases hnext with
  | stay _ here _ =>
    rw [hs] at here
    cases here
  | up _ _ =>
    rw [if_pos (.inr rfl)] at hplace
    rw [hplace]
    rfl
  | down _ _ notUp size present _ =>
    rw [if_neg (not_or.2 ⟨(ne_empty_of_away hs).2, notUp⟩)] at hplace
    simp only [hplace, bind, Except.bind]
    rw [if_neg (by omega), if_pos (Option.isSome_iff_ne_none.2 present)]

private theorem isFolder_of_leads {path : String} {after : List String} {l : Location}
    (hcheck : checkPath path = .ok ())
    (hleads : t.Leads (t.start path) (Path.segments path ++ after) l) (hafter : after ≠ []) :
    t.isFolder path = true := by
  obtain ⟨folder, hbefore, hnext⟩ := hleads.exists_of_append
  unfold isFolder
  rw [locate_eq_ok_iff.2 ⟨hcheck, hbefore⟩]
  simpa using hnext.folder hafter

/-- A file is written over the one that its path leads to. -/
private theorem writeText_of_file {path : String} {l : Location} {c : Content} (hlocate : t.locate path = .ok l)
    (hfile : t.get? l = some (.file c)) (hup : (Path.segments path).getLast? ≠ some "..") (content : String) :
    t.writeText path content = .ok (t.put l (.file (.text content))) := by
  obtain ⟨hcheck, hleads⟩ := locate_eq_ok_iff.1 hlocate
  obtain ⟨before, s, hsegments⟩ : ∃ before s, Path.segments path = before ++ [s] :=
    (List.eq_nil_or_concat' _).resolve_left (Path.segments_ne_nil path)
  rw [hsegments] at hleads hup
  obtain ⟨folder, hbefore, hnext⟩ := hleads.exists_of_append
  have hfolder := hnext.folder (List.cons_ne_nil s [])
  cases hnext with
  | stay _ _ next =>
    -- nothing comes after the segment, so that the file would be the folder it stays in
    cases next
    rw [hfile] at hfolder
    cases hfolder
  | up _ _ => simp at hup
  | down _ away notUp size _ next =>
    cases next
    obtain ⟨hne, hhere⟩ := ne_empty_of_away away
    have hplace := place_of_leads hcheck hsegments hne hbefore hfolder .isFolder
    rw [if_neg (not_or.2 ⟨hhere, notUp⟩)] at hplace
    have hslash : path.toList.getLast? ≠ some '/' := by
      intro hlast
      obtain ⟨cs, hcs⟩ := List.getLast?_eq_some_iff.1 hlast
      have hpath : path = String.ofList cs ++ "/" ++ "" := by
        rw [← String.toList_inj, hcs]
        simp
      rw [hpath, Path.segments_append_slash, Path.segments_empty] at hsegments
      exact hne (by simpa using (List.append_inj' hsegments rfl).2.symm)
    unfold writeText
    simp only [hplace, bind, Except.bind]
    rw [if_neg hslash, if_neg (by omega), if_neg (by simp [hfile])]

private theorem checkPath_eq_ok_iff {path : String} :
    checkPath path = .ok () ↔ (∀ c ∈ path.toList, c.toNat ≠ 0) ∧ path ≠ "" ∧ path.utf8ByteSize ≤ maxPath := by
  unfold checkPath
  split
  · rename_i h
    obtain ⟨c, hc, hzero⟩ := List.any_eq_true.1 h
    simpa using fun hall _ => absurd (of_decide_eq_true hzero) (hall c hc)
  · rename_i h
    have hall : ∀ c ∈ path.toList, c.toNat ≠ 0 := by simpa using h
    split
    · rename_i hempty
      simp [hempty]
    · rename_i hne
      split
      · rename_i hlong
        simpa using fun _ _ => hlong
      · rename_i hshort
        exact iff_of_true rfl ⟨hall, hne, by omega⟩

/-- A beginning of a path is a path, if it ends in a name. -/
private theorem checkPath_ofSegments {path s : String} {before after : List String} (hcheck : checkPath path = .ok ())
    (hsegments : Path.segments path = before ++ [s] ++ after) (hafter : after ≠ []) (hs : Path.isHere s = false) :
    checkPath (Path.ofSegments (before ++ [s])) = .ok () := by
  have hslash : ∀ r ∈ before ++ [s] ++ after, '/' ∉ r.toList := fun r hr =>
    Path.slash_not_mem_of_mem_segments (hsegments ▸ hr)
  have hbegin := Path.segments_ofSegments (by simp) fun r hr => hslash r (List.mem_append_left after hr)
  have hend := Path.segments_ofSegments hafter fun r hr => hslash r (List.mem_append_right _ hr)
  have hpath : path = Path.ofSegments (before ++ [s]) ++ "/" ++ Path.ofSegments after := by
    refine Path.segments_inj ?_
    rw [hsegments, Path.segments_append_slash, hbegin, hend]
  obtain ⟨hall, -, hsize⟩ := checkPath_eq_ok_iff.1 hcheck
  rw [hpath] at hall hsize
  refine checkPath_eq_ok_iff.2 ⟨fun c hc => hall c (by simp [hc]), ?_, ?_⟩
  · intro hempty
    rw [hempty, Path.segments_empty] at hbegin
    have hname : s ∈ [""] := hbegin ▸ List.mem_append_right before List.mem_cons_self
    exact (ne_empty_of_away hs).1 (List.mem_singleton.1 hname)
  · rw [String.utf8ByteSize_append, String.utf8ByteSize_append] at hsize
    omega

end FileTree

/-! ### One file -/

/-- Nothing is made of the folders on the way to where segments lead. -/
private theorem run_makeFolders_of_leads {t : FileTree} {path : String} {l : Location}
    (hcheck : FileTree.checkPath path = .ok ()) (hleads : t.Leads (t.start path) (Path.segments path) l)
    {above after : List String} (hsegments : Path.segments path = above.reverse ++ after) (hafter : after ≠ []) :
    (Script.makeFolders above).run t = (.ok (), t) := by
  induction above generalizing after with
  | nil => rfl
  | cons s above ih =>
    have hrest : Path.segments path = above.reverse ++ s :: after := by simpa using hsegments
    have hsplit : Path.segments path = above.reverse ++ [s] ++ after := by simpa using hsegments
    unfold Script.makeFolders
    split
    · exact ih hrest (List.cons_ne_nil s after)
    · rename_i hs
      rw [Bool.not_eq_true] at hs
      rw [List.reverse_cons]
      have hslash : ∀ r ∈ above.reverse ++ [s], '/' ∉ r.toList := fun r hr =>
        Path.slash_not_mem_of_mem_segments (hsplit ▸ List.mem_append_left after hr)
      have hbegin := Path.segments_ofSegments (by simp) hslash
      have hstart : t.start (Path.ofSegments (above.reverse ++ [s])) = t.start path := by
        unfold FileTree.start
        rw [Path.isAbsolute_ofSegments_of_begin ⟨after, hsplit.symm⟩ hs]
      have hcheck' := FileTree.checkPath_ofSegments hcheck hsplit hafter hs
      rw [← hstart] at hleads
      have hmake : t.makeFolder (Path.ofSegments (above.reverse ++ [s])) = .error .alreadyExists :=
        FileTree.makeFolder_of_leads hcheck' hbegin hs (hrest ▸ hleads)
      have hthere : t.isFolder (Path.ofSegments (above.reverse ++ [s])) = true :=
        FileTree.isFolder_of_leads hcheck' (by rwa [hbegin, ← hsplit]) hafter
      simp [Script.run, hmake, Script.settle, hthere]

/-- Writing where a file stands puts the content there and changes nothing else. -/
theorem run_writeTarget_of_file {t : FileTree} {path : String} {l : Location} {c : Content}
    (hlocate : t.locate path = .ok l) (hfile : t.get? l = some (.file c))
    (hup : (Path.segments path).getLast? ≠ some "..") (content : String) :
    (writeTarget path content).run.run t = (.ok (), t.put l (.file (.text content))) := by
  obtain ⟨hcheck, hleads⟩ := FileTree.locate_eq_ok_iff.1 hlocate
  have hparent : (Script.makeParent path).run.run t = (.ok (), t) := by
    by_cases habove : Path.above path = []
    · unfold Script.makeParent
      rw [habove]
      rfl
    · obtain ⟨name, after, hsegments, -⟩ := Path.segments_of_above_ne_nil habove
      exact run_makeFolders_of_leads hcheck hleads hsegments (List.cons_ne_nil name after)
  have hrun : (writeTarget path content).run.run t = Script.settle t (t.writeText path content) :=
    Script.run_bind_ok hparent
  rw [hrun, FileTree.writeText_of_file hlocate hfile hup]
  rfl

/-! ### Files in their order -/

/-- The puts that writing files comes down to when each of them has a place already. -/
def putsAt (place : SourceFile → Location) (files : List SourceFile) : List (Location × Node) :=
  files.map fun f => (place f, .file (.text f.content))

/-- Writing files that are all there puts their contents in their places, one after the other. -/
private theorem run_writeTargets_of_files {root : String} {place : SourceFile → Location} {files : List SourceFile}
    {t : FileTree} (hplace : ∀ f ∈ files, t.locate (f.pathBelow root) = .ok (place f))
    (hfile : ∀ f ∈ files, ∃ c, t.get? (place f) = some (.file c))
    (hup : ∀ f ∈ files, (Path.segments (f.pathBelow root)).getLast? ≠ some "..") :
    (writeTargets (withPaths root files)).run.run t =
      (.ok (files.map (·.pathBelow root)), t.putAll (putsAt place files)) := by
  induction files generalizing t with
  | nil => rfl
  | cons f rest ih =>
    obtain ⟨c, hc⟩ := hfile f List.mem_cons_self
    have hrun := run_writeTarget_of_file (hplace f List.mem_cons_self) hc (hup f List.mem_cons_self) f.content
    have hgrows := FileTree.grows_put_file (t := t) (l := place f) (by simp [hc]) (.text f.content)
    have hrest := ih (fun g hg => FileTree.locate_of_grows (hplace g (List.mem_cons_of_mem f hg)) hgrows)
      (fun g hg => by
        obtain ⟨c', hc'⟩ := hfile g (List.mem_cons_of_mem f hg)
        exact hgrows.file _ c' hc')
      (fun g hg => hup g (List.mem_cons_of_mem f hg))
    exact (Script.run_bind_ok hrun).trans (Script.run_bind_ok hrest)

/-- There is one last file with the same names. -/
private theorem LastLike.eq_of_last {root : String} {before after : List SourceFile} {f g : SourceFile}
    (h : LastLike root (before ++ f :: after) f g)
    (hafter : ∀ k ∈ after, Path.names (k.pathBelow root) ≠ Path.names (f.pathBelow root)) : f = g := by
  obtain ⟨before', after', hsplit, hnames, hafter'⟩ := h
  rcases List.append_eq_append_iff.1 hsplit with ⟨mid, -, hmid⟩ | ⟨mid, -, hmid⟩
  · cases mid with
    | nil => exact (List.cons.inj hmid).1
    | cons k mid =>
      have hg : g ∈ after := (List.cons.inj hmid).2 ▸ List.mem_append_right mid List.mem_cons_self
      exact absurd hnames (hafter g hg)
  · cases mid with
    | nil => exact (List.cons.inj hmid).1.symm
    | cons k mid =>
      have hf : f ∈ after' := (List.cons.inj hmid).2 ▸ List.mem_append_right mid List.mem_cons_self
      exact absurd rfl (hafter' f hf)

/-- The path of a file that is accepted does not end in a step up. -/
private theorem getLast?_pathBelow_ne_up {f : SourceFile} (h : ¬ Path.Escapes f.filename) (root : String) :
    (Path.segments (f.pathBelow root)).getLast? ≠ some ".." := by
  rw [Path.escapes_iff, not_or, not_or] at h
  obtain ⟨base, hjoin, -⟩ := Path.segments_join root (Path.stripHere f.filename)
  rw [SourceFile.pathBelow, hjoin, List.getLast?_append_of_ne_nil _ (Path.segments_ne_nil _)]
  exact fun hlast => h.2.2 (List.mem_of_getLast? hlast)

/-- Files that have been saved can be written again, and this changes nothing. -/
theorem Saved.run_writeTargets {root : String} {files begun : List SourceFile} {t t' : FileTree}
    (h : Saved root files begun t t') (haccepted : ∀ f ∈ files, ¬ Path.Escapes f.filename) :
    (writeTargets (withPaths root files)).run.run t' = (.ok (files.map (·.pathBelow root)), t') := by
  have hread : ∀ f, ∃ l, f ∈ files → ∃ g, LastLike root files f g ∧ t'.locate (f.pathBelow root) = .ok l ∧
      t'.get? l = some (.file (.text g.content)) := by
    intro f
    by_cases hf : f ∈ files
    · obtain ⟨g, hg, htext⟩ := h.content f hf
      obtain ⟨l, hl, hfile⟩ := FileTree.readText_eq_ok_iff.1 htext
      exact ⟨l, fun _ => ⟨g, hg, hl, hfile⟩⟩
    · exact ⟨[], fun hf' => absurd hf' hf⟩
  choose place hplace using hread
  have hlocate : ∀ f ∈ files, t'.locate (f.pathBelow root) = .ok (place f) := fun f hf => by
    obtain ⟨g, -, hl, -⟩ := hplace f hf
    exact hl
  have hfile : ∀ f ∈ files, ∃ c, t'.get? (place f) = some (.file c) := fun f hf => by
    obtain ⟨g, -, -, htext⟩ := hplace f hf
    exact ⟨_, htext⟩
  rw [run_writeTargets_of_files hlocate hfile fun f hf => getLast?_pathBelow_ne_up (haccepted f hf) root]
  have hself : t'.putAll (putsAt place files) = t' := by
    refine FileTree.putAll_eq_self ?_ ?_
    · refine List.forall_mem_map.2 fun f hf => ?_
      obtain ⟨c, hc⟩ := hfile f hf
      have hne : place f ≠ [] := by
        intro hnil
        rw [hnil] at hc
        cases hc
      exact ⟨hne, by simp [hc]⟩
    · intro before l node after hputs hlast
      obtain ⟨first, rest, rfl, -, hrest⟩ := List.map_eq_append_iff.1 hputs
      obtain ⟨f, later, rfl, hf, rfl⟩ := List.map_eq_cons_iff.1 hrest
      cases hf
      have hmem : f ∈ first ++ f :: later := List.mem_append_right first List.mem_cons_self
      obtain ⟨g, hg, -, htext⟩ := hplace f hmem
      -- a later file with the same names would be in the same place
      have hafter : ∀ k ∈ later, Path.names (k.pathBelow root) ≠ Path.names (f.pathBelow root) := by
        intro k hk hnames
        have hmem' : k ∈ first ++ f :: later := List.mem_append_right first (List.mem_cons_of_mem f hk)
        have hsame := (locate_eq_iff (haccepted k hmem') (haccepted f hmem) (hlocate k hmem') (hlocate f hmem)).2 hnames
        exact hlast (List.mem_map.2 ⟨_, List.mem_map_of_mem hk, hsame⟩)
      rw [htext, ← hg.eq_of_last hafter]
  rw [hself]

namespace Output

/-- Writing an output again where it has been written gives the same paths and leaves the tree as it is, whatever files
share a place. -/
theorem write_again (o : Output) (root : String) (t t' : FileTree) (paths : List String)
    (h : (o.write root).run.run t = (.ok paths, t')) : (o.write root).run.run t' = (.ok paths, t') := by
  obtain ⟨haccepted, rfl, hsaved⟩ := saved_of_write h
  rw [run_write_of_accepted haccepted]
  exact hsaved.run_writeTargets haccepted

/-- Three files in one place with different contents, a file over an old one, and a root that is not there and has a
step up. -/
theorem write_again_shared :
    let o : Output :=
      { files := [⟨"./a/x.ts", "1"⟩, ⟨"b.ts", "2"⟩, ⟨"a/./x.ts", "3"⟩], support := [⟨"a//x.ts", "4"⟩] }
    let t := (FileTree.fresh ["d"]).plant ["out", "b.ts"] (.file (.text "old"))
    let paths := ["e/../out/a/x.ts", "e/../out/b.ts", "e/../out/a/./x.ts", "e/../out/a//x.ts"]
    ∃ t', (o.write "e/../out").run.run t = (.ok paths, t') ∧ t'.readText "out/a/x.ts" = .ok "4" ∧
      (o.write "e/../out").run.run t' = (.ok paths, t') := by
  intro o t paths
  have hpair : ∀ r : Except FileError (List String) × FileTree, r = (r.1, r.2) := fun r => rfl
  have hpaths : ((o.write "e/../out").run.run t).1 = .ok paths := by decide +kernel
  have hread : ((o.write "e/../out").run.run t).2.readText "out/a/x.ts" = .ok "4" := by decide +kernel
  have hrun := hpair ((o.write "e/../out").run.run t)
  rw [hpaths] at hrun
  exact ⟨_, hrun, hread, write_again o "e/../out" t _ paths hrun⟩

end Output

end SchemaDecl
