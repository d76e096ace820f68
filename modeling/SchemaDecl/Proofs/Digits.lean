import SchemaDecl.Proofs.Rounding

/-!
# Decimals are rounded correctly

A row of digits without zeros in front lies between two powers of ten that its length tells (`le_digitsValue`,
`digitsValue_lt`).  So counting digits settles the decimals that are beyond every double or below half of the least one,
and the others are rounded as ratios (`Decimal.rounds_toBinary64`).
-/

namespace SchemaDecl

/-! ### Digits -/

theorem digitsValue_append (ds es : List Char) :
    digitsValue (ds ++ es) = digitsValue ds * 10 ^ es.length + digitsValue es := by
  have hfold : ∀ (l : List Char) (n : Nat),
      l.foldl (fun n d => 10 * n + digitValue d) n = n * 10 ^ l.length + digitsValue l := by
    intro l
    induction l with
    | nil => simp [digitsValue]
    | cons d l ih =>
      intro n
      have hvalue : digitsValue (d :: l) = digitValue d * 10 ^ l.length + digitsValue l := by
        rw [digitsValue, List.foldl_cons, ih]
        simp
      rw [List.foldl_cons, ih, hvalue, List.length_cons, pow_succ]
      ring
  rw [digitsValue, List.foldl_append, hfold]
  rfl

private theorem digitsValue_cons (d : Char) (ds : List Char) :
    digitsValue (d :: ds) = digitValue d * 10 ^ ds.length + digitsValue ds := by
  have h := digitsValue_append [d] ds
  simpa [digitsValue] using h

theorem isDigit_iff {c : Char} : isDigit c = true ↔ 48 ≤ c.toNat ∧ c.toNat ≤ 57 := by
  unfold isDigit
  rw [Bool.and_eq_true, decide_eq_true_eq, decide_eq_true_eq]
  exact Iff.rfl

private theorem digitValue_lt {c : Char} (h : isDigit c = true) : digitValue c < 10 := by
  have hrange := isDigit_iff.1 h
  have hzero : '0'.toNat = 48 := rfl
  unfold digitValue
  omega

theorem digitsValue_lt {ds : List Char} (h : ∀ d ∈ ds, isDigit d = true) : digitsValue ds < 10 ^ ds.length := by
  induction ds with
  | nil => simp [digitsValue]
  | cons d ds ih =>
    have hd := digitValue_lt (h d List.mem_cons_self)
    have hds := ih fun e he => h e (List.mem_cons_of_mem d he)
    rw [digitsValue_cons, List.length_cons, pow_succ]
    nlinarith

/-- The zeros in front of a row of digits do not count. -/
private theorem digitsValue_dropWhile (ds : List Char) : digitsValue (ds.dropWhile (· == '0')) = digitsValue ds := by
  induction ds with
  | nil => rfl
  | cons d ds ih =>
    rw [List.dropWhile_cons]
    split
    · rename_i hd
      have hzero : digitValue d = 0 := by rw [eq_of_beq hd]; rfl
      rw [ih, digitsValue_cons, hzero]
      simp
    · rfl

/-- A row of digits without zeros in front is at least the power of ten of its length. -/
theorem le_digitsValue {ds : List Char} (h : ∀ d ∈ ds, isDigit d = true)
    (hne : ds.dropWhile (· == '0') ≠ []) :
    10 ^ ((ds.dropWhile (· == '0')).length - 1) ≤ digitsValue ds := by
  have hhead := List.head?_dropWhile_not (· == '0') ds
  rw [← digitsValue_dropWhile]
  cases hrest : ds.dropWhile (· == '0') with
  | nil => exact absurd hrest hne
  | cons d rest =>
    rw [hrest] at hhead
    have hd : isDigit d = true := h d ((List.dropWhile_suffix _).subset (hrest ▸ List.mem_cons_self))
    have hnonzero : 1 ≤ digitValue d := by
      have hrange := isDigit_iff.1 hd
      have hzero : '0'.toNat = 48 := rfl
      have hne' : d.toNat ≠ '0'.toNat := fun heq => by
        have hchar : d = '0' := Char.toNat_inj.1 heq
        simp [hchar] at hhead
      unfold digitValue
      omega
    rw [digitsValue_cons, List.length_cons, Nat.add_sub_cancel]
    nlinarith [Nat.zero_le (digitsValue rest), Nat.pow_pos (n := rest.length) (show 0 < 10 by norm_num)]

namespace Decimal

open Binary64

/-- The exact magnitude of a decimal. -/
def magnitude (x : Decimal) : ℚ := digitsValue x.digits * 10 ^ x.exponent

private theorem ratio_div (x : Decimal) : (x.ratio.1 : ℚ) / x.ratio.2 = x.magnitude := by
  have hpow : (10 : ℚ) ^ x.exponent = 10 ^ x.exponent.toNat / 10 ^ (-x.exponent).toNat := by
    rw [← zpow_natCast, ← zpow_natCast, ← zpow_sub₀ (by norm_num)]
    congr 1
    omega
  simp only [ratio, magnitude, Nat.pow_eq]
  rw [hpow]
  push_cast
  ring

/-- A decimal that is not zero is at least the power of ten that its digits tell. -/
private theorem pow_le_magnitude {x : Decimal} (hdigits : ∀ d ∈ x.digits, isDigit d = true)
    (hne : x.digits.dropWhile (· == '0') ≠ []) :
    (10 : ℚ) ^ (((x.digits.dropWhile (· == '0')).length - 1 : Nat) + x.exponent) ≤ x.magnitude := by
  have hlow : (10 : ℚ) ^ (((x.digits.dropWhile (· == '0')).length - 1 : Nat) : Int) ≤ digitsValue x.digits := by
    rw [zpow_natCast]
    exact_mod_cast le_digitsValue hdigits hne
  rw [zpow_add₀ (by norm_num), magnitude]
  gcongr

/-- A decimal is at most the power of ten that its digits tell. -/
private theorem magnitude_le_pow {x : Decimal} (hdigits : ∀ d ∈ x.digits, isDigit d = true) :
    x.magnitude ≤ 10 ^ ((x.digits.dropWhile (· == '0')).length + x.exponent) := by
  have hall : ∀ d ∈ x.digits.dropWhile (· == '0'), isDigit d = true := fun d hd =>
    hdigits d ((List.dropWhile_suffix _).subset hd)
  have hhigh : (digitsValue x.digits : ℚ) ≤ 10 ^ ((x.digits.dropWhile (· == '0')).length : Int) := by
    rw [zpow_natCast, ← digitsValue_dropWhile]
    exact_mod_cast (digitsValue_lt hall).le
  rw [zpow_add₀ (by norm_num), magnitude]
  gcongr

/-- The least power of ten that is beyond every double. -/
private theorem beyond_le_pow : (2 : ℚ) ^ 52 * 2 ^ (maxExponent + 1) ≤ 10 ^ (309 : Int) := by
  have hnat : 2 ^ 52 * 2 ^ 972 ≤ 10 ^ 309 := by decide +kernel
  have hcast : (2 : ℚ) ^ 52 * 2 ^ 972 ≤ 10 ^ 309 := by exact_mod_cast hnat
  have hexponent : maxExponent + 1 = ((972 : Nat) : Int) := rfl
  rw [hexponent, zpow_natCast]
  exact_mod_cast hcast

/-- The greatest power of ten that is below half of every double but zero. -/
private theorem two_mul_pow_lt : 2 * (10 : ℚ) ^ (-324 : Int) < 2 ^ minExponent := by
  have hnat : 2 * 2 ^ 1074 < 10 ^ 324 := by decide +kernel
  have hcast : 2 * (2 : ℚ) ^ 1074 < 10 ^ 324 := by exact_mod_cast hnat
  rw [minExponent, zpow_neg, zpow_neg, ← div_eq_mul_inv, div_lt_iff₀ (by positivity), ← div_eq_inv_mul,
    lt_div_iff₀ (by positivity)]
  exact_mod_cast hcast

/-- The double of a decimal is its magnitude rounded: also where counting digits settles it. -/
theorem rounds_toBinary64 (x : Decimal) (hdigits : ∀ d ∈ x.digits, isDigit d = true) :
    Rounds x.negative x.magnitude x.toBinary64 := by
  unfold toBinary64
  simp only
  split
  · rename_i hnone
    have hnil : x.digits.dropWhile (· == '0') = [] := List.length_eq_zero_iff.1 (by omega)
    have hvalue : digitsValue x.digits = 0 := by
      rw [← digitsValue_dropWhile, hnil]
      rfl
    have hzero := rounds_ofRatio x.negative 0 Nat.one_pos
    rw [Nat.cast_zero, zero_div] at hzero
    rw [magnitude, hvalue, Nat.cast_zero, zero_mul]
    exact hzero
  · rename_i hsome
    have hne : x.digits.dropWhile (· == '0') ≠ [] := fun hnil => hsome (by rw [hnil]; rfl)
    split
    · rename_i hhuge
      refine rounds_infinity_of_le ?_ x.negative
      calc (2 : ℚ) ^ 52 * 2 ^ (maxExponent + 1) ≤ 10 ^ (309 : Int) := beyond_le_pow
        _ ≤ 10 ^ (((x.digits.dropWhile (· == '0')).length - 1 : Nat) + x.exponent) :=
            zpow_le_zpow_right₀ (by norm_num) (by omega)
        _ ≤ x.magnitude := pow_le_magnitude hdigits hne
    · split
      · rename_i htiny
        have hsmall : x.magnitude ≤ 10 ^ (-324 : Int) :=
          (magnitude_le_pow hdigits).trans (zpow_le_zpow_right₀ (by norm_num) htiny)
        have hnonneg : 0 ≤ x.magnitude := by
          unfold magnitude
          positivity
        have hhalf : 2 * x.magnitude < 2 ^ minExponent := by linarith [two_mul_pow_lt]
        exact .finite (nearest_zero_of_lt hnonneg hhalf) (by decide)
      · have h := rounds_ofRatio x.negative x.ratio.1 (d := x.ratio.2) (by simp [ratio, Nat.pow_eq])
        rwa [ratio_div] at h

end Decimal

end SchemaDecl
