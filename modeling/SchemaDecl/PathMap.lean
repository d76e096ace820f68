/-!
# Maps from names to paths

A finite map kept as a list in strictly increasing order of the names, by code point, so that equal maps are equal
lists.  `get?_insert` says what an insertion does to every look-up.
-/

namespace SchemaDecl

/-- A map from names to module paths, in increasing order of the names. -/
@[ext]
structure PathMap where
  entries : List (String × String)
  sorted : entries.Pairwise fun a b => a.1 < b.1
  deriving DecidableEq

namespace PathMap

/-- Puts an entry in its place, over an earlier one of the same name. -/
def insertEntry (name path : String) : List (String × String) → List (String × String)
  | [] => [(name, path)]
  | (n, p) :: rest =>
    if name < n then (name, path) :: (n, p) :: rest
    else if name = n then (name, path) :: rest
    else (n, p) :: insertEntry name path rest

private theorem mem_insertEntry {name path : String} {l : List (String × String)} {e : String × String}
    (h : e ∈ insertEntry name path l) : e = (name, path) ∨ e ∈ l := by
  induction l with
  | nil => simpa [insertEntry] using h
  | cons a l ih =>
    obtain ⟨n, p⟩ := a
    unfold insertEntry at h
    split at h
    · simpa using h
    · split at h
      · rcases List.mem_cons.1 h with h | h
        · exact .inl h
        · exact .inr (List.mem_cons_of_mem _ h)
      · rcases List.mem_cons.1 h with h | h
        · exact .inr (h ▸ List.mem_cons_self)
        · exact (ih h).imp_right (List.mem_cons_of_mem _)

private theorem lt_of_not_lt {a b : String} (h : ¬ a < b) (hne : a ≠ b) : b < a := by
  apply Decidable.byContradiction
  intro hba
  exact hne (String.le_antisymm (String.not_lt.1 hba) (String.not_lt.1 h))

private theorem insertEntry_sorted {name path : String} {l : List (String × String)}
    (h : l.Pairwise fun a b => a.1 < b.1) : (insertEntry name path l).Pairwise fun a b => a.1 < b.1 := by
  induction l with
  | nil => simp [insertEntry]
  | cons a l ih =>
    obtain ⟨n, p⟩ := a
    rw [List.pairwise_cons] at h
    unfold insertEntry
    split
    · rename_i hlt
      refine List.pairwise_cons.2 ⟨?_, List.pairwise_cons.2 h⟩
      intro e he
      rcases List.mem_cons.1 he with rfl | he
      · exact hlt
      · exact String.lt_trans hlt (h.1 e he)
    · rename_i hnlt
      split
      · rename_i heq
        subst heq
        exact List.pairwise_cons.2 ⟨fun e he => h.1 e he, h.2⟩
      · rename_i hne
        refine List.pairwise_cons.2 ⟨?_, ih h.2⟩
        intro e he
        rcases mem_insertEntry he with rfl | he
        · exact lt_of_not_lt hnlt hne
        · exact h.1 e he

def empty : PathMap := ⟨[], .nil⟩

/-- The map with one more entry, which replaces an earlier one of the same name. -/
def insert (m : PathMap) (name path : String) : PathMap :=
  ⟨insertEntry name path m.entries, insertEntry_sorted m.sorted⟩

def get? (m : PathMap) (name : String) : Option String := m.entries.lookup name

/-- The map of a list of entries, the last one of a name counting. -/
def ofList (entries : List (String × String)) : PathMap :=
  entries.foldl (fun m (name, path) => m.insert name path) empty

/-- A map with the entries of a later one, which replace its own. -/
def merge (m later : PathMap) : PathMap :=
  later.entries.foldl (fun m (name, path) => m.insert name path) m

private theorem lookup_entry (n p : String) (l : List (String × String)) (k : String) :
    ((n, p) :: l).lookup k = if k = n then some p else l.lookup k := by
  rw [List.lookup_cons]
  by_cases hk : k = n
  · simp [hk]
  · simp [hk, beq_eq_false_iff_ne.2 hk]

private theorem lookup_insertEntry (name path : String) (l : List (String × String)) (k : String) :
    (insertEntry name path l).lookup k = if k = name then some path else l.lookup k := by
  induction l with
  | nil => rw [insertEntry, lookup_entry]
  | cons a l ih =>
    obtain ⟨n, p⟩ := a
    unfold insertEntry
    split
    · rw [lookup_entry]
    · split
      · rename_i heq
        subst heq
        rw [lookup_entry, lookup_entry]
        split <;> simp
      · rename_i hne
        rw [lookup_entry, lookup_entry, ih]
        by_cases hn : k = n
        · subst hn
          simp [Ne.symm hne]
        · simp [hn]

/-- An insertion changes the look-up of its own name and of no other. -/
theorem get?_insert (m : PathMap) (name path k : String) :
    (m.insert name path).get? k = if k = name then some path else m.get? k :=
  lookup_insertEntry name path m.entries k

@[simp] theorem get?_empty (k : String) : empty.get? k = none := rfl

end PathMap

end SchemaDecl
