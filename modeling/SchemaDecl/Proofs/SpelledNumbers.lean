import SchemaDecl.Coercion
import SchemaDecl.Proofs.Numerals

/-!
# A number and its text are coerced alike

An integer becomes the double nearest to it.  A text that spells the integer, white space before it and something else
behind it, starts with a numeral of the same magnitude, and that is rounded too.  Rounding has one result, so both are
the same double, also where the integer is none itself.
-/

namespace SchemaDecl

open Json Binary64

/-- A text that spells an integer: its decimal digits with a minus before those of a negative one, after white space and
before anything that does not go on as a number. -/
def Spells (n : Int) (text : String) : Prop :=
  ∃ blanks rest : List Char, text.toList = blanks ++ ((toString n).toList ++ rest) ∧ (∀ c ∈ blanks, isBlank c = true) ∧
    ∀ c r, rest = c :: r → isDigit c = false ∧ c ≠ '.' ∧ c ≠ 'e' ∧ c ≠ 'E'

/-- A value that stands for an integer: the number itself, or a text that spells it. -/
inductive Denotes (n : Int) : Value → Prop
  | number : Denotes n (.number (.integer n))
  | text {s : String} (spells : Spells n s) : Denotes n (.string s)

/-- Values that are equal or stand for the same integer. -/
def Alike (v w : Value) : Prop := v = w ∨ ∃ n, Denotes n v ∧ Denotes n w

/-! ### The digits of an integer -/

private theorem digitsValue_toDigits (n : Nat) : digitsValue (Nat.toDigits 10 n) = n :=
  Nat.ofDigitChars_toDigits (by decide) (by decide)

private theorem allDigits_toDigits (n : Nat) : AllDigits (Nat.toDigits 10 n) := by
  intro d hd
  have hdigit := Nat.isDigit_of_mem_toDigits (by decide) (by decide) hd
  unfold Char.isDigit at hdigit
  unfold isDigit
  exact hdigit

private theorem exists_sign_toString (n : Int) :
    ∃ sign, (toString n).toList = sign ++ Nat.toDigits 10 n.natAbs ∧ SignText (n < 0) sign := by
  rw [Int.toString_eq_repr, Int.repr_eq_if]
  by_cases hn : 0 ≤ n
  · have habs : n.toNat = n.natAbs := by omega
    refine ⟨[], ?_, ?_⟩
    · rw [if_pos hn, Nat.toList_repr, habs, List.nil_append]
    · rw [decide_eq_false (by omega)]
      exact .none
  · have habs : (-n).toNat = n.natAbs := by omega
    refine ⟨['-'], ?_, ?_⟩
    · rw [if_neg hn, String.toList_append, Nat.toList_repr, habs]
      rfl
    · rw [decide_eq_true (by omega)]
      exact .minus

/-- What begins an integer is not white space. -/
private theorem dropWhile_isBlank_sign {negative : Bool} {sign : List Char} (h : SignText negative sign) {d : Char}
    (hd : isDigit d = true) (r : List Char) : (sign ++ d :: r).dropWhile isBlank = sign ++ d :: r := by
  have hblank : ∀ c : Char, 43 ≤ c.toNat → c.toNat ≤ 57 → ¬ isBlank c = true := by
    intro c hlow hhigh
    simp only [isBlank, blankRanges, List.any_cons, List.any_nil, Bool.or_false, Bool.or_eq_true, Bool.and_eq_true,
      decide_eq_true_eq]
    omega
  have hrange := isDigit_iff.1 hd
  cases h with
  | none => exact List.dropWhile_cons_of_neg (hblank d (by omega) hrange.2)
  | plus => exact List.dropWhile_cons_of_neg (hblank '+' (by decide) (by decide))
  | minus => exact List.dropWhile_cons_of_neg (hblank '-' (by decide) (by decide))

/-! ### The number of a text that spells an integer -/

/-- Digits are taken exactly if what follows does not go on as a number. -/
private theorem Decimal.leading?_digits {digits rest : List Char} (nonempty : digits ≠ []) (all : AllDigits digits)
    (hrest : ∀ c r, rest = c :: r → isDigit c = false ∧ c ≠ '.' ∧ c ≠ 'e' ∧ c ≠ 'E') (negative : Bool) :
    leading? negative (digits ++ rest) = some (⟨negative, digits, 0⟩, rest) := by
  have hstop : rest.takeWhile isDigit = [] ∧ rest.dropWhile isDigit = rest := by
    cases rest with
    | nil => exact ⟨rfl, rfl⟩
    | cons c r => simp [(hrest c r rfl).1]
  have hpoint : ∀ r, rest ≠ '.' :: r := fun r hr => (hrest '.' r hr).2.1 rfl
  have hmark : ∀ c r, rest = c :: r → ¬ (c = 'e' ∨ c = 'E') := fun c r hr =>
    not_or.2 ⟨(hrest c r hr).2.2.1, (hrest c r hr).2.2.2⟩
  rw [leading?_eq, List.takeWhile_append_of_pos all, List.dropWhile_append_of_pos all, hstop.1, hstop.2,
    takeFraction_of_not_point hpoint, takePower_of_not_mark hmark, List.append_nil, List.append_nil,
    if_neg (by simp [nonempty])]
  rfl

/-- Digits with a sign, white space before them and something behind them that does not go on as a number, are read as
the double nearest to their value. -/
private theorem rounds_ofText_digits {text : String} {negative : Bool} {blanks sign digits rest : List Char}
    (htext : text.toList = blanks ++ (sign ++ (digits ++ rest))) (hblanks : ∀ c ∈ blanks, isBlank c = true)
    (hsign : SignText negative sign) (nonempty : digits ≠ []) (all : AllDigits digits)
    (hrest : ∀ c r, rest = c :: r → isDigit c = false ∧ c ≠ '.' ∧ c ≠ 'e' ∧ c ≠ 'E') :
    Rounds negative (digitsValue digits) (ofText text) := by
  have hleading := Decimal.leading?_digits nonempty all hrest negative
  have hrounds := Decimal.rounds_toBinary64 ⟨negative, digits, 0⟩ all
  obtain ⟨d, ds, rfl⟩ := List.exists_cons_of_ne_nil nonempty
  have hd : isDigit d = true := all d List.mem_cons_self
  have hword : ¬ "Infinity".toList.isPrefixOf (d :: ds ++ rest) = true := by
    rw [List.isPrefixOf_iff_prefix]
    rintro ⟨r, hr⟩
    have hfirst : "Infinity".toList = 'I' :: "nfinity".toList := rfl
    rw [hfirst, List.cons_append, List.cons_append, List.cons_eq_cons] at hr
    rw [← hr.1] at hd
    exact absurd hd (by decide)
  have hvalue : ofText text = (⟨negative, d :: ds, 0⟩ : Decimal).toBinary64 := by
    unfold ofText
    rw [htext, List.dropWhile_append_of_pos hblanks, List.cons_append, dropWhile_isBlank_sign hsign hd,
      takeSign_append hsign (ne_sign_of_isDigit hd).1 (ne_sign_of_isDigit hd).2]
    simp only
    rw [← List.cons_append, if_neg hword, hleading]
  rw [← hvalue, Decimal.magnitude, zpow_zero, mul_one] at hrounds
  exact hrounds

/-- A text that spells an integer is read as the double nearest to it. -/
theorem Spells.rounds_ofText {n : Int} {text : String} (h : Spells n text) :
    Rounds (n < 0) n.natAbs (ofText text) := by
  obtain ⟨blanks, rest, htext, hblanks, hrest⟩ := h
  obtain ⟨sign, hspelled, hsign⟩ := exists_sign_toString n
  rw [hspelled, List.append_assoc] at htext
  have hrounds := rounds_ofText_digits htext hblanks hsign Nat.toDigits_ne_nil (allDigits_toDigits n.natAbs) hrest
  rwa [digitsValue_toDigits] at hrounds

private theorem Spells.ne_empty {n : Int} {text : String} (h : Spells n text) : text ≠ "" := by
  obtain ⟨blanks, rest, htext, -, -⟩ := h
  obtain ⟨sign, hspelled, -⟩ := exists_sign_toString n
  rintro rfl
  rw [hspelled] at htext
  simp [Nat.toDigits_ne_nil] at htext

/-! ### Values that stand for an integer -/

/-- Every value that stands for an integer becomes the double nearest to it. -/
private theorem Denotes.exists_apply {n : Int} {v : Value} (h : Denotes n v) :
    ∃ x, Rounds (n < 0) n.natAbs x ∧ Scalar.number.apply (some v) = .number x := by
  cases h with
  | number => exact ⟨ofInt n, rounds_ofInt n, rfl⟩
  | @text s spells =>
    refine ⟨ofText s, spells.rounds_ofText, ?_⟩
    have hgiven : isBlankValue (some (.string s)) = false := decide_eq_false spells.ne_empty
    unfold Scalar.apply
    simp only
    rw [hgiven]
    rfl

theorem Alike.apply_eq {v w : Value} (h : Alike v w) :
    Scalar.number.apply (some v) = Scalar.number.apply (some w) := by
  rcases h with rfl | ⟨n, hv, hw⟩
  · rfl
  · obtain ⟨x, hx, hvx⟩ := hv.exists_apply
    obtain ⟨y, hy, hwy⟩ := hw.exists_apply
    rw [hvx, hwy, hx.unique hy]

namespace Coercion

/-- An integer of any size and a text that spells it become the same number, the double nearest to the integer; arrays
whose elements are alike become the same array of numbers. -/
theorem apply_number_alike :
    (∀ n text, Spells n text → ∃ x, Rounds (n < 0) n.natAbs x ∧
      (⟨.number, false⟩ : Coercion).apply (some (.number (.integer n))) = .number x ∧
      (⟨.number, false⟩ : Coercion).apply (some (.string text)) = .number x) ∧
    ∀ vs ws, List.Forall₂ Alike vs ws →
      (⟨.number, true⟩ : Coercion).apply (some (.array vs)) =
        (⟨.number, true⟩ : Coercion).apply (some (.array ws)) := by
  refine ⟨fun n text htext => ?_, fun vs ws halike => ?_⟩
  · obtain ⟨x, hx, happly⟩ := Denotes.number.exists_apply
    obtain ⟨y, hy, happly'⟩ := (Denotes.text htext).exists_apply
    exact ⟨x, hx, happly, by rw [hx.unique hy]; exact happly'⟩
  · have hmap : vs.map (fun v => Scalar.number.apply (some v)) = ws.map fun v => Scalar.number.apply (some v) := by
      induction halike with
      | nil => rfl
      | cons hhead _ ih => rw [List.map_cons, List.map_cons, hhead.apply_eq, ih]
    exact congrArg Coerced.array hmap

/-- An integer halfway between two doubles, and the least one that a signed word holds. -/
theorem apply_number_alike_tie :
    (⟨.number, false⟩ : Coercion).apply (some (.number (.integer 9007199254740993))) =
      (⟨.number, false⟩ : Coercion).apply (some (.string "\t9007199254740993px")) ∧
    (⟨.number, true⟩ : Coercion).apply (some (.array [.number (.integer (-9223372036854775808)), .null])) =
      (⟨.number, true⟩ : Coercion).apply (some (.array [.string " -9223372036854775808;.5", .null])) := by
  have htie : Spells 9007199254740993 "\t9007199254740993px" := by
    refine ⟨['\t'], ['p', 'x'], by decide +kernel, List.forall_mem_singleton.2 rfl, ?_⟩
    rintro c r ⟨⟩
    decide
  have hleast : Spells (-9223372036854775808) " -9223372036854775808;.5" := by
    refine ⟨[' '], [';', '.', '5'], by decide +kernel, List.forall_mem_singleton.2 rfl, ?_⟩
    rintro c r ⟨⟩
    decide
  obtain ⟨x, -, hnumber, htext⟩ := apply_number_alike.1 _ _ htie
  refine ⟨hnumber.trans htext.symm, apply_number_alike.2 _ _ ?_⟩
  exact .cons (.inr ⟨_, .number, .text hleast⟩) (.cons (.inl rfl) .nil)

end Coercion

end SchemaDecl
