import Mathlib.Data.List.Forall2

/-!
# Traversals that stop at the first error

A traversal of a list succeeds exactly if every element does, with a result for each in its place (`mapM_eq_ok_iff`),
and otherwise fails with the error of the first one that has an error (`mapM_eq_error_iff`).  Fields, entities and files
are all gone through in this way.
-/

namespace SchemaDecl

/-! ### Lists side by side -/

section Forall

variable {α β : Type} {R : α → β → Prop}

/-- What stands in a place of the left list has its partner in the same place of the right one. -/
theorem exists_getElem?_of_forall₂ {l : List α} {l' : List β} (h : List.Forall₂ R l l') {i : Nat} {a : α}
    (ha : l[i]? = some a) : ∃ b, l'[i]? = some b ∧ R a b := by
  induction h generalizing i with
  | nil => simp at ha
  | @cons c d _ _ hcd _ ih =>
    cases i with
    | zero => cases ha; exact ⟨d, rfl, hcd⟩
    | succ i => exact ih ha

theorem exists_mem_of_forall₂ {l : List α} {l' : List β} (h : List.Forall₂ R l l') {a : α} (ha : a ∈ l) :
    ∃ b ∈ l', R a b := by
  obtain ⟨i, hi⟩ := List.getElem?_of_mem ha
  obtain ⟨b, hb, hab⟩ := exists_getElem?_of_forall₂ h hi
  exact ⟨b, List.mem_of_getElem? hb, hab⟩

end Forall

/-! ### Results of a traversal -/

section Results

variable {ε α β γ : Type} {f g : α → Except ε β}

theorem mapM_eq_ok_iff {l : List α} {bs : List β} :
    l.mapM f = .ok bs ↔ List.Forall₂ (fun a b => f a = .ok b) l bs := by
  induction l generalizing bs with
  | nil =>
    rw [List.mapM_nil, List.forall₂_nil_left_iff]
    exact ⟨fun h => (Except.ok.inj h).symm, fun h => congrArg Except.ok h.symm⟩
  | cons a l ih =>
    rw [List.mapM_cons, List.forall₂_cons_left_iff]
    constructor
    · intro h
      cases ha : f a with
      | error e => rw [ha] at h; cases h
      | ok b =>
        cases hl : l.mapM f with
        | error e => rw [ha, hl] at h; cases h
        | ok bs' =>
          rw [ha, hl] at h
          exact ⟨b, bs', rfl, ih.1 hl, (Except.ok.inj h).symm⟩
    · rintro ⟨b, bs', ha, hl, rfl⟩
      rw [ha, ih.2 hl]
      rfl

/-- A traversal fails with the error of the first element that has one. -/
theorem mapM_eq_error_iff {l : List α} {e : ε} :
    l.mapM f = .error e ↔
      ∃ (i : Nat) (a : α), l[i]? = some a ∧ f a = .error e ∧ ∀ k < i, ∀ b, l[k]? = some b → ∃ c, f b = .ok c := by
  induction l with
  | nil =>
    rw [List.mapM_nil]
    constructor
    · intro h; cases h
    · rintro ⟨i, a, ha, -⟩; simp at ha
  | cons a l ih =>
    rw [List.mapM_cons]
    cases ha : f a with
    | error e' =>
      constructor
      · intro h
        cases h
        exact ⟨0, a, rfl, ha, fun k hk => absurd hk (Nat.not_lt_zero k)⟩
      · rintro ⟨i, b, hb, hfb, hbefore⟩
        cases i with
        | zero =>
          cases hb
          rw [ha] at hfb
          cases hfb
          rfl
        | succ i =>
          obtain ⟨c, hc⟩ := hbefore 0 (Nat.succ_pos i) a rfl
          rw [ha] at hc
          cases hc
    | ok c =>
      -- a head that succeeds leaves the error to the rest, one place further
      have hcons : (Except.ok c >>= fun b => do let bs ← l.mapM f; pure (b :: bs) : Except ε (List β)) = .error e ↔
          l.mapM f = .error e := by
        cases l.mapM f with
        | error e' => exact Iff.rfl
        | ok bs =>
          constructor
          · intro h; cases h
          · intro h; cases h
      rw [hcons, ih]
      constructor
      · rintro ⟨i, b, hb, hfb, hbefore⟩
        refine ⟨i + 1, b, hb, hfb, ?_⟩
        intro k hk d hd
        cases k with
        | zero => cases hd; exact ⟨c, ha⟩
        | succ k => exact hbefore k (by omega) d hd
      · rintro ⟨i, b, hb, hfb, hbefore⟩
        cases i with
        | zero =>
          cases hb
          rw [ha] at hfb
          cases hfb
        | succ i => exact ⟨i, b, hb, hfb, fun k hk d hd => hbefore (k + 1) (by omega) d hd⟩

theorem exists_mapM_eq_ok_iff {l : List α} : (∃ bs, l.mapM f = .ok bs) ↔ ∀ a ∈ l, ∃ b, f a = .ok b := by
  constructor
  · rintro ⟨bs, hbs⟩ a ha
    obtain ⟨b, -, hb⟩ := exists_mem_of_forall₂ (mapM_eq_ok_iff.1 hbs) ha
    exact ⟨b, hb⟩
  · intro h
    cases hl : l.mapM f with
    | ok bs => exact ⟨bs, rfl⟩
    | error e =>
      obtain ⟨i, a, ha, herr, -⟩ := mapM_eq_error_iff.1 hl
      obtain ⟨b, hb⟩ := h a (List.mem_of_getElem? ha)
      rw [herr] at hb
      cases hb

theorem mapM_congr_of_mem {l : List α} (h : ∀ a ∈ l, f a = g a) : l.mapM f = l.mapM g := by
  induction l with
  | nil => rfl
  | cons a l ih =>
    have hrest : l.mapM f = l.mapM g := ih fun b hb => h b (List.mem_cons_of_mem a hb)
    rw [List.mapM_cons, List.mapM_cons, h a List.mem_cons_self, hrest]

/-- Making something of each result of a traversal can wait until its end. -/
theorem mapM_map_eq (f : α → Except ε β) (g : α → β → γ) (l : List α) :
    (l.mapM fun a => (f a).map (g a)) = (l.mapM f).map (List.zipWith g l) := by
  induction l with
  | nil => rfl
  | cons a l ih =>
    rw [List.mapM_cons, List.mapM_cons, ih]
    cases f a with
    | error e => rfl
    | ok b => cases l.mapM f <;> rfl

end Results

end SchemaDecl
