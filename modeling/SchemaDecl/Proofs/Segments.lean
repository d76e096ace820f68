import SchemaDecl.FileTree.Path
import SchemaDecl.Text.Edge

/-!
# Paths and their segments

A path and the list of its segments tell each other (`Path.ofSegments_segments`, `Path.segments_ofSegments`).  A slash
between two paths puts their segments together (`Path.segments_append_slash`); whether a path is absolute and whether it
ends in a slash is seen from empty segments at its ends.  Taking `./` off the front of a path takes off single points
(`Path.segments_stripHere`).
-/

namespace SchemaDecl.Path

theorem segments_append_slash (p q : String) : segments (p ++ "/" ++ q) = segments p ++ segments q := by
  have hsplit : (p.toList ++ '/' :: q.toList).splitOn '/' = p.toList.splitOn '/' ++ q.toList.splitOn '/' :=
    List.splitOn_append_cons_self p.toList q.toList
  have htext : (p ++ "/" ++ q).toList = p.toList ++ '/' :: q.toList := by simp
  rw [segments, htext, hsplit, List.map_append]
  rfl

@[simp] theorem segments_empty : segments "" = [""] := by decide

theorem segments_ne_nil (path : String) : segments path ≠ [] := by
  unfold segments
  simp

private theorem not_mem_of_mem_splitOn {c : Char} {cs l : List Char} (h : l ∈ cs.splitOn c) : c ∉ l := by
  induction cs generalizing l with
  | nil =>
    rw [List.splitOn_nil, List.mem_singleton] at h
    simp [h]
  | cons d cs ih =>
    rw [List.splitOn_cons_eq_if_modifyHead] at h
    split at h
    · rcases List.mem_cons.1 h with rfl | h
      · exact List.not_mem_nil
      · exact ih h
    · rename_i hd
      -- the first part gets one more character, which is no separator
      cases hsplit : cs.splitOn c with
      | nil => exact absurd hsplit (List.splitOn_ne_nil c cs)
      | cons first rest =>
        rw [hsplit] at h ih
        rcases List.mem_cons.1 h with rfl | h
        · have hfirst : c ∉ first := ih List.mem_cons_self
          simp only [beq_iff_eq] at hd
          simp [hfirst, Ne.symm hd]
        · exact ih (List.mem_cons_of_mem first h)

theorem slash_not_mem_of_mem_segments {path s : String} (h : s ∈ segments path) : '/' ∉ s.toList := by
  obtain ⟨l, hl, rfl⟩ := List.mem_map.1 h
  rw [String.toList_ofList]
  exact not_mem_of_mem_splitOn hl

theorem ofSegments_segments (path : String) : ofSegments (segments path) = path := by
  have htexts : (segments path).map String.toList = path.toList.splitOn '/' := by
    unfold segments
    simp [Function.comp_def]
  rw [ofSegments, htexts, List.intercalate_splitOn, String.ofList_toList]

theorem segments_ofSegments {ss : List String} (hne : ss ≠ []) (hslash : ∀ s ∈ ss, '/' ∉ s.toList) :
    segments (ofSegments ss) = ss := by
  have hsplit : (List.intercalate ['/'] (ss.map String.toList)).splitOn '/' = ss.map String.toList := by
    refine List.splitOn_intercalate '/' ?_ (by simpa using hne)
    exact List.forall_mem_map.2 hslash
  rw [segments, ofSegments, String.toList_ofList, hsplit]
  simp [Function.comp_def]

theorem segments_inj {p q : String} (h : segments p = segments q) : p = q := by
  rw [← ofSegments_segments p, h, ofSegments_segments]

/-- A path is absolute exactly if its first segment is empty and not the only one. -/
theorem isAbsolute_iff_segments {path : String} :
    isAbsolute path = true ↔ ∃ s rest, segments path = "" :: s :: rest := by
  have hslash : ∀ q : String, segments ("/" ++ q) = "" :: segments q := by
    intro q
    have htext : "/" ++ q = "" ++ "/" ++ q := by simp
    rw [htext, segments_append_slash, segments_empty, List.singleton_append]
  constructor
  · intro h
    obtain ⟨cs, hcs⟩ := List.head?_eq_some_iff.1 (of_decide_eq_true h)
    have hpath : path = "/" ++ String.ofList cs := by
      rw [← String.toList_inj, hcs]
      simp
    cases hq : segments (String.ofList cs) with
    | nil => exact absurd hq (segments_ne_nil _)
    | cons s rest => exact ⟨s, rest, by rw [hpath, hslash, hq]⟩
  · rintro ⟨s, rest, h⟩
    have hrest : ∀ r ∈ s :: rest, '/' ∉ r.toList := by
      intro r hr
      exact slash_not_mem_of_mem_segments (h ▸ List.mem_cons_of_mem "" hr)
    have hpath : path = "/" ++ ofSegments (s :: rest) := by
      refine segments_inj ?_
      rw [h, hslash, segments_ofSegments (by simp) hrest]
    rw [hpath]
    simp [isAbsolute]

/-- Up to a segment that is a name, the beginning of a path starts where the path does. -/
theorem isAbsolute_ofSegments_of_begin {path s : String} {before : List String}
    (h : before ++ [s] <+: segments path) (hs : isHere s = false) :
    isAbsolute (ofSegments (before ++ [s])) = isAbsolute path := by
  have hslash : ∀ r ∈ before ++ [s], '/' ∉ r.toList := fun r hr => slash_not_mem_of_mem_segments (h.subset hr)
  rw [Bool.eq_iff_iff, isAbsolute_iff_segments, isAbsolute_iff_segments, segments_ofSegments (by simp) hslash]
  obtain ⟨after, hafter⟩ := h
  rw [← hafter]
  cases before with
  | nil =>
    have hne : s ≠ "" := by
      rintro rfl
      cases hs
    simp [hne]
  | cons r before =>
    cases before <;> simp

/-- A path whose last segment is empty, and not the only one, ends in a slash. -/
theorem getLast?_of_segments_eq {path : String} {before : List String} (h : segments path = before ++ [""])
    (hne : before ≠ []) : path.toList.getLast? = some '/' := by
  have hslash : ∀ s ∈ before, '/' ∉ s.toList := fun s hs =>
    slash_not_mem_of_mem_segments (h ▸ List.mem_append_left _ hs)
  have hpath : path = ofSegments before ++ "/" ++ "" := by
    refine segments_inj ?_
    rw [h, segments_append_slash, segments_ofSegments hne hslash, segments_empty]
  rw [hpath]
  simp

/-- The segments of a joined path are those of the root, but for an empty one at its end, and those of the rest. -/
theorem segments_join (root path : String) :
    ∃ base, segments (join root path) = base ++ segments path ∧
      (segments root = base ∨ segments root = base ++ [""]) := by
  unfold join
  split
  · rename_i h
    rcases h with rfl | h
    · exact ⟨[], by simp, .inr segments_empty⟩
    · obtain ⟨cs, hcs⟩ := List.getLast?_eq_some_iff.1 h
      have hroot : root = String.ofList cs ++ "/" ++ "" := by
        rw [← String.toList_inj, hcs]
        simp
      have hjoined : root ++ path = String.ofList cs ++ "/" ++ path := by
        rw [← String.toList_inj, String.toList_append, hcs]
        simp
      refine ⟨segments (String.ofList cs), ?_, .inr ?_⟩
      · rw [hjoined, segments_append_slash]
      · rw [hroot, segments_append_slash, segments_empty]
  · exact ⟨segments root, segments_append_slash root path, .inl rfl⟩

theorem isAbsolute_join {root path : String} (h : isAbsolute path = false) :
    isAbsolute (join root path) = isAbsolute root := by
  by_cases hroot : root = ""
  · subst hroot
    have hjoin : join "" path = path := by simp [join]
    rw [hjoin, h]
    rfl
  · have hne : root.toList ≠ [] := by simpa using hroot
    obtain ⟨c, cs, hcs⟩ := List.exists_cons_of_ne_nil hne
    unfold join isAbsolute
    split <;> simp [hcs]

/-! ### Points in front -/

private theorem startsWith_here_iff {path : String} :
    startsWith path "./" = true ↔ ∃ rest, path.toList = '.' :: '/' :: rest := by
  unfold startsWith
  rw [Option.isSome_iff_exists]
  simp only [after?_eq_some_iff]
  exact Iff.rfl

/-- Nothing but `./` is taken off, and as often as it is there. -/
theorem exists_stripHere (filename : String) :
    ∃ count, filename = String.join (List.replicate count "./") ++ stripHere filename ∧
      startsWith (stripHere filename) "./" = false := by
  have hgo : ∀ cs, ∃ count, cs = (String.join (List.replicate count "./")).toList ++ stripHere.go cs ∧
      ∀ rest, stripHere.go cs ≠ '.' :: '/' :: rest := by
    intro cs
    fun_induction stripHere.go cs with
    | case1 rest ih =>
      obtain ⟨count, hrest, hnot⟩ := ih
      refine ⟨count + 1, ?_, hnot⟩
      rw [List.replicate_succ]
      simpa using hrest
    | case2 rest hnot => exact ⟨0, by simp, fun r h => hnot r h⟩
  obtain ⟨count, htext, hnot⟩ := hgo filename.toList
  refine ⟨count, ?_, ?_⟩
  · rw [← String.toList_inj, String.toList_append, stripHere, String.toList_ofList]
    exact htext
  · rw [Bool.eq_false_iff]
    intro hstart
    obtain ⟨rest, hrest⟩ := startsWith_here_iff.1 hstart
    rw [stripHere, String.toList_ofList] at hrest
    exact hnot rest hrest

theorem stripHere_append {rest : String} (h : startsWith rest "./" = false) (count : Nat) :
    stripHere (String.join (List.replicate count "./") ++ rest) = rest := by
  have hgo : stripHere.go ((String.join (List.replicate count "./")).toList ++ rest.toList) = rest.toList := by
    induction count with
    | zero =>
      have hnot : ∀ r, rest.toList ≠ '.' :: '/' :: r := by
        intro r hr
        rw [startsWith_here_iff.2 ⟨r, hr⟩] at h
        cases h
      rw [List.replicate_zero, String.join_nil, String.toList_empty, List.nil_append, stripHere.go]
      exact hnot
    | succ count ih =>
      rw [List.replicate_succ]
      simpa [stripHere.go] using ih
  rw [stripHere, String.toList_append, hgo, String.ofList_toList]

theorem segments_stripHere (filename : String) :
    ∃ count, segments filename = List.replicate count "." ++ segments (stripHere filename) := by
  obtain ⟨count, htext, -⟩ := exists_stripHere filename
  refine ⟨count, ?_⟩
  generalize stripHere filename = rest at htext
  subst htext
  induction count with
  | zero => simp
  | succ count ih =>
    have htext : String.join (List.replicate (count + 1) "./") ++ rest =
        "." ++ "/" ++ (String.join (List.replicate count "./") ++ rest) := by
      rw [← String.toList_inj, List.replicate_succ]
      simp
    have hhere : segments "." = ["."] := by decide
    rw [htext, segments_append_slash, ih, hhere, List.replicate_succ, List.singleton_append, List.cons_append]

end SchemaDecl.Path
