import Mathlib.Algebra.Order.Field.Power
import Mathlib.Tactic.Linarith
import Mathlib.Tactic.Positivity
import Mathlib.Tactic.Ring
import SchemaDecl.Decimal

/-!
# Correct rounding

Doubles without an upper bound on the exponent are the mantissas and exponents of `Binary64.IsForm`, one for each
magnitude (`Binary64.IsForm.inj`).  A rational is rounded to the nearest of them, a tie going to the even mantissa
(`Binary64.Nearest`), and to an infinity if its exponent is too large (`Binary64.Rounds`); there is only one way to do
this (`Binary64.Rounds.unique`).  `Binary64.ofRatio`, and with it every number of a decimal literal or an integer, is
rounded so.
-/

namespace SchemaDecl

namespace Binary64

/-! ### What rounding is -/

/-- A mantissa and an exponent of a double, if exponents had no upper bound: a mantissa of fewer than 53 bits has the
least exponent. -/
structure IsForm (m : Nat) (e : Int) : Prop where
  lt : m < 2 ^ 53
  min_le : minExponent ≤ e
  normal : 2 ^ 52 ≤ m ∨ e = minExponent

/-- The magnitude of a mantissa and an exponent. -/
def magnitude (m : Nat) (e : Int) : ℚ := m * 2 ^ e

/-- Of all mantissas and exponents, the one that is nearest to a magnitude; of two that are equally near, the one with
the even mantissa. -/
structure Nearest (q : ℚ) (m : Nat) (e : Int) : Prop where
  form : IsForm m e
  le : ∀ m' e', IsForm m' e' → |magnitude m e - q| ≤ |magnitude m' e' - q|
  even : ∀ m' e', IsForm m' e' → magnitude m' e' ≠ magnitude m e →
    |magnitude m e - q| = |magnitude m' e' - q| → m % 2 = 0

/-- A magnitude with a sign, rounded to a double. -/
inductive Rounds (negative : Bool) (q : ℚ) : Binary64 → Prop
  | finite {m : Nat} {e : Int} (nearest : Nearest q m e) (bounded : e ≤ maxExponent) :
    Rounds negative q (.finite negative m e)
  | infinity {m : Nat} {e : Int} (nearest : Nearest q m e) (beyond : maxExponent < e) :
    Rounds negative q (.infinity negative)

/-! ### There is one rounding -/

/-- Of a larger exponent, the magnitude is a multiple of the smaller power of two. -/
private theorem exists_multiple (m : Nat) {e e' : Int} (h : e ≤ e') : ∃ k : Nat, magnitude m e' = k * 2 ^ e := by
  refine ⟨m * 2 ^ (e' - e).toNat, ?_⟩
  have hsplit : (2 : ℚ) ^ e' = 2 ^ (e' - e).toNat * 2 ^ e := by
    rw [← zpow_natCast, ← zpow_add₀ two_ne_zero]
    congr 1
    omega
  rw [magnitude, hsplit]
  push_cast
  ring

/-- Of a smaller exponent, the magnitude is below every one with 53 bits. -/
private theorem IsForm.magnitude_lt {m : Nat} {e e' : Int} (h : IsForm m e) (he : e < e') :
    magnitude m e < 2 ^ 52 * 2 ^ e' := by
  have hm : (m : ℚ) < 2 ^ 53 := by exact_mod_cast h.lt
  have hpow : (2 : ℚ) ^ e * 2 ≤ 2 ^ e' := by
    rw [← zpow_add_one₀ two_ne_zero]
    exact zpow_le_zpow_right₀ one_le_two (by omega)
  have hpos : (0 : ℚ) < 2 ^ e := by positivity
  calc magnitude m e < 2 ^ 53 * 2 ^ e := mul_lt_mul_of_pos_right hm hpos
    _ = 2 ^ 52 * (2 ^ e * 2) := by ring
    _ ≤ 2 ^ 52 * 2 ^ e' := by gcongr

private theorem IsForm.le_magnitude {m : Nat} {e e' : Int} (h : IsForm m e) (h' : minExponent < e) (he : e' ≤ e) :
    2 ^ 52 * 2 ^ e' ≤ magnitude m e := by
  have hm : (2 : ℚ) ^ 52 ≤ m := by exact_mod_cast h.normal.resolve_right (by omega)
  have hpow : (2 : ℚ) ^ e' ≤ 2 ^ e := zpow_le_zpow_right₀ one_le_two he
  unfold magnitude
  gcongr

/-- Exponents go up with magnitudes. -/
private theorem IsForm.exponent_le {m m' : Nat} {e e' : Int} (h : IsForm m e) (h' : IsForm m' e')
    (hle : magnitude m e ≤ magnitude m' e') : e ≤ e' := by
  by_contra hlt
  have hsmall := h'.magnitude_lt (not_le.1 hlt)
  have hlarge := h.le_magnitude (by have := h'.min_le; omega) le_rfl
  linarith

theorem IsForm.inj {m m' : Nat} {e e' : Int} (h : IsForm m e) (h' : IsForm m' e')
    (heq : magnitude m e = magnitude m' e') : m = m' ∧ e = e' := by
  obtain rfl : e = e' := le_antisymm (h.exponent_le h' heq.le) (h'.exponent_le h heq.ge)
  refine ⟨?_, rfl⟩
  have hpos : (2 : ℚ) ^ e ≠ 0 := by positivity
  exact_mod_cast mul_right_cancel₀ hpos heq

/-- Above an even mantissa there is room for the next one. -/
private theorem IsForm.succ {m : Nat} {e : Int} (h : IsForm m e) (heven : m % 2 = 0) : IsForm (m + 1) e where
  lt := by have := h.lt; omega
  min_le := h.min_le
  normal := h.normal.imp_left (by omega)

/-- Two even mantissas are not next to each other. -/
private theorem Nearest.not_magnitude_lt {q : ℚ} {m m' : Nat} {e e' : Int} (h : Nearest q m e) (h' : Nearest q m' e') :
    ¬ magnitude m e < magnitude m' e' := by
  intro hlt
  have hdist : |magnitude m e - q| = |magnitude m' e' - q| :=
    le_antisymm (h.le m' e' h'.form) (h'.le m e h.form)
  have heven := h.even m' e' h'.form hlt.ne' hdist
  have heven' := h'.even m e h.form hlt.ne hdist.symm
  -- the magnitude is halfway between the two
  have hmid : magnitude m e + magnitude m' e' = 2 * q := by
    rcases abs_eq_abs.1 hdist with hsame | hopposite <;> linarith
  have hsucc := h.form.succ heven
  have hstep : magnitude (m + 1) e = magnitude m e + 2 ^ e := by
    unfold magnitude
    push_cast
    ring
  have hpos : (0 : ℚ) < 2 ^ e := by positivity
  -- nothing is strictly between them, so the greater one is at most one step up
  have hle : magnitude m' e' ≤ magnitude (m + 1) e := by
    by_contra hbetween
    have hnear := h.le (m + 1) e hsucc
    rw [abs_of_neg (by linarith)] at hnear
    rcases abs_cases (magnitude (m + 1) e - q) with ⟨habs, -⟩ | ⟨habs, -⟩ <;> linarith
  obtain ⟨k, hk⟩ := exists_multiple m' (h.form.exponent_le h'.form hlt.le)
  have hlow : m < k := by
    rw [hk, magnitude] at hlt
    exact_mod_cast lt_of_mul_lt_mul_right hlt hpos.le
  have hhigh : k ≤ m + 1 := by
    rw [hk, magnitude] at hle
    exact_mod_cast le_of_mul_le_mul_right hle hpos
  obtain rfl : k = m + 1 := by omega
  obtain ⟨rfl, -⟩ := h'.form.inj hsucc (hk.trans rfl)
  omega

theorem Nearest.unique {q : ℚ} {m m' : Nat} {e e' : Int} (h : Nearest q m e) (h' : Nearest q m' e') :
    m = m' ∧ e = e' :=
  h.form.inj h'.form (le_antisymm (not_lt.1 (h'.not_magnitude_lt h)) (not_lt.1 (h.not_magnitude_lt h')))

theorem Rounds.unique {negative : Bool} {q : ℚ} {x y : Binary64} (hx : Rounds negative q x)
    (hy : Rounds negative q y) : x = y := by
  cases hx with
  | finite nearest bounded =>
    cases hy with
    | finite nearest' _ =>
      obtain ⟨rfl, rfl⟩ := nearest.unique nearest'
      rfl
    | infinity nearest' beyond =>
      obtain ⟨rfl, rfl⟩ := nearest.unique nearest'
      omega
  | infinity nearest beyond =>
    cases hy with
    | finite nearest' bounded =>
      obtain ⟨rfl, rfl⟩ := nearest.unique nearest'
      omega
    | infinity _ _ => rfl

/-! ### Rounding of a ratio -/

/-- A natural is the nearest integer to a rational, or the even one of two that are equally near. -/
structure Closest (k : Nat) (r : ℚ) : Prop where
  near : |(k : ℚ) - r| ≤ 1 / 2
  even : |(k : ℚ) - r| = 1 / 2 → k % 2 = 0

theorem closest_divNearest (n : Nat) {d : Nat} (hd : 0 < d) : Closest (divNearest n d) (n / d) := by
  have hd' : (0 : ℚ) < d := by exact_mod_cast hd
  have hr : (n % d : Nat) < d := Nat.mod_lt n hd
  have hvalue : (n : ℚ) / d = (n / d : Nat) + ((n % d : Nat) : ℚ) / d := by
    have hdiv : (n : ℚ) = d * (n / d : Nat) + (n % d : Nat) := by exact_mod_cast (Nat.div_add_mod n d).symm
    rw [eq_comm, ← mul_right_inj' hd'.ne', mul_add, mul_div_cancel₀ _ hd'.ne', mul_div_cancel₀ _ hd'.ne', ← hdiv]
  have hfraction : 0 ≤ ((n % d : Nat) : ℚ) / d := by positivity
  unfold divNearest
  simp only
  split
  · rename_i hlow
    have hhalf : ((n % d : Nat) : ℚ) / d < 1 / 2 := by
      rw [div_lt_div_iff₀ hd' two_pos]
      exact_mod_cast (by omega : n % d * 2 < 1 * d)
    have habs : |((n / d : Nat) : ℚ) - n / d| = ((n % d : Nat) : ℚ) / d := by
      rw [hvalue, abs_sub_comm, add_sub_cancel_left, abs_of_nonneg hfraction]
    exact ⟨habs ▸ hhalf.le, fun heq => absurd (habs ▸ heq) hhalf.ne⟩
  · rename_i hlow
    split
    · rename_i hhigh
      have hhalf : 1 / 2 < ((n % d : Nat) : ℚ) / d := by
        rw [div_lt_div_iff₀ two_pos hd']
        exact_mod_cast (by omega : 1 * d < n % d * 2)
      have hone : ((n % d : Nat) : ℚ) / d < 1 := by
        rw [div_lt_one hd']
        exact_mod_cast hr
      have habs : |((n / d + 1 : Nat) : ℚ) - n / d| = 1 - ((n % d : Nat) : ℚ) / d := by
        rw [hvalue, abs_of_pos (by push_cast; linarith)]
        push_cast
        ring
      exact ⟨by rw [habs]; linarith, fun heq => by rw [habs] at heq; linarith⟩
    · rename_i hhigh
      have hhalf : ((n % d : Nat) : ℚ) / d = 1 / 2 := by
        rw [div_eq_div_iff hd'.ne' two_ne_zero]
        exact_mod_cast (by omega : n % d * 2 = 1 * d)
      refine ⟨?_, fun _ => by omega⟩
      rw [hvalue, hhalf]
      rcases Nat.mod_two_eq_zero_or_one (n / d) with hparity | hparity <;> rw [hparity] <;> push_cast <;>
        rw [abs_le] <;> constructor <;> linarith

/-- No integer is nearer, and one that is as near is even. -/
private theorem Closest.le {k : Nat} {r : ℚ} (h : Closest k r) (j : Nat) :
    |(k : ℚ) - r| ≤ |(j : ℚ) - r| ∧ (j ≠ k → |(k : ℚ) - r| = |(j : ℚ) - r| → k % 2 = 0) := by
  by_cases hj : j = k
  · subst hj
    exact ⟨le_rfl, fun hne => absurd rfl hne⟩
  · have hone : (1 : ℚ) ≤ |(j : ℚ) - k| := by
      have hint : (1 : ℤ) ≤ |(j : ℤ) - k| := Int.one_le_abs (by omega)
      exact_mod_cast hint
    have htriangle := abs_sub_le (j : ℚ) r k
    rw [abs_sub_comm r] at htriangle
    have hnear := h.near
    exact ⟨by linarith, fun _ heq => h.even (by linarith)⟩

private theorem scaleRatio_pos {d : Nat} (hd : 0 < d) (n : Nat) (e : Int) : 0 < (scaleRatio n d e).2 := by
  simp only [scaleRatio, Nat.shiftLeft_eq]
  positivity

private theorem scaleRatio_div (n d : Nat) (e : Int) :
    ((scaleRatio n d e).1 : ℚ) / (scaleRatio n d e).2 = n / d * 2 ^ e := by
  have hpow : (2 : ℚ) ^ e = 2 ^ e.toNat / 2 ^ (-e).toNat := by
    rw [← zpow_natCast, ← zpow_natCast, ← zpow_sub₀ two_ne_zero]
    congr 1
    omega
  simp only [scaleRatio, Nat.shiftLeft_eq]
  rw [hpow]
  push_cast
  exact mul_div_mul_comm _ _ _ _

theorem floorLog2_spec {n d : Nat} (hn : 0 < n) (hd : 0 < d) :
    (2 : ℚ) ^ floorLog2 n d ≤ n / d ∧ (n : ℚ) / d < 2 ^ (floorLog2 n d + 1) := by
  have hd' : (0 : ℚ) < d := by exact_mod_cast hd
  have hn' : (0 : ℚ) < n := by exact_mod_cast hn
  have hnlow : (2 : ℚ) ^ (n.log2 : ℤ) ≤ n := by
    rw [zpow_natCast]
    exact_mod_cast Nat.log2_self_le hn.ne'
  have hnhigh : (n : ℚ) < 2 ^ ((n.log2 : ℤ) + 1) := by
    rw [← Nat.cast_succ, zpow_natCast]
    exact_mod_cast Nat.lt_log2_self
  have hdlow : (2 : ℚ) ^ (d.log2 : ℤ) ≤ d := by
    rw [zpow_natCast]
    exact_mod_cast Nat.log2_self_le hd.ne'
  have hdhigh : (d : ℚ) < 2 ^ ((d.log2 : ℤ) + 1) := by
    rw [← Nat.cast_succ, zpow_natCast]
    exact_mod_cast Nat.lt_log2_self
  have hhigh : (n : ℚ) / d < 2 ^ ((n.log2 : ℤ) - d.log2 + 1) := by
    have hsplit : (2 : ℚ) ^ ((n.log2 : ℤ) - d.log2 + 1) = 2 ^ ((n.log2 : ℤ) + 1) / 2 ^ (d.log2 : ℤ) := by
      rw [← zpow_sub₀ two_ne_zero]
      congr 1
      ring
    rw [hsplit]
    exact div_lt_div₀ hnhigh hdlow (by positivity) (by positivity)
  have hlow : (2 : ℚ) ^ ((n.log2 : ℤ) - d.log2 - 1) ≤ n / d := by
    have hsplit : (2 : ℚ) ^ ((n.log2 : ℤ) - d.log2 - 1) = 2 ^ (n.log2 : ℤ) / 2 ^ ((d.log2 : ℤ) + 1) := by
      rw [← zpow_sub₀ two_ne_zero]
      congr 1
      ring
    rw [hsplit]
    exact div_le_div₀ hn'.le hnlow hd' hdhigh.le
  -- the estimate by the numbers of bits is right or one too great, as the comparison tells
  have htest : (scaleRatio n d (-((n.log2 : ℤ) - d.log2))).2 ≤ (scaleRatio n d (-((n.log2 : ℤ) - d.log2))).1 ↔
      (2 : ℚ) ^ ((n.log2 : ℤ) - d.log2) ≤ n / d := by
    have hpos : (0 : ℚ) < (scaleRatio n d (-((n.log2 : ℤ) - d.log2))).2 := by
      exact_mod_cast scaleRatio_pos hd n _
    rw [← Nat.cast_le (α := ℚ), ← one_le_div hpos, scaleRatio_div, zpow_neg, ← div_eq_mul_inv,
      one_le_div (by positivity)]
  unfold floorLog2
  simp only
  split
  · rename_i hle
    exact ⟨htest.1 hle, hhigh⟩
  · rename_i hle
    refine ⟨hlow, ?_⟩
    rw [sub_add_cancel]
    exact not_le.1 (mt htest.2 hle)

/-- The multiple of a power of two that is nearest to a magnitude is nearer than every double, if the power of two is
the one that a double of this magnitude has. -/
private theorem nearer_of_closest {q : ℚ} {k : Nat} {e : Int} (hclosest : Closest k (q * 2 ^ (-e)))
    (hlow : minExponent < e → 2 ^ 52 * 2 ^ e ≤ q) {m : Nat} {f : Int} (hform : IsForm m f) :
    |(k : ℚ) * 2 ^ e - q| ≤ |magnitude m f - q| ∧
      (magnitude m f ≠ k * 2 ^ e → |(k : ℚ) * 2 ^ e - q| = |magnitude m f - q| → k % 2 = 0) := by
  have hpos : (0 : ℚ) < 2 ^ e := by positivity
  have hscale : ∀ j : Nat, |(j : ℚ) * 2 ^ e - q| = |(j : ℚ) - q * 2 ^ (-e)| * 2 ^ e := by
    intro j
    have hmul : (j : ℚ) * 2 ^ e - q = (j - q * 2 ^ (-e)) * 2 ^ e := by
      rw [sub_mul, mul_assoc, ← zpow_add₀ two_ne_zero, neg_add_cancel, zpow_zero, mul_one]
    rw [hmul, abs_mul, abs_of_pos hpos]
  rcases le_or_gt e f with hle | hlt
  · -- the double is a multiple itself
    obtain ⟨j, hj⟩ := exists_multiple m hle
    obtain ⟨hnear, heven⟩ := hclosest.le j
    rw [hj, hscale, hscale]
    refine ⟨by gcongr, fun hne heq => heven ?_ (mul_right_cancel₀ hpos.ne' heq)⟩
    rintro rfl
    exact hne rfl
  · -- the double is below the least multiple of 53 bits, which is not above the magnitude
    have hq := hlow (hform.min_le.trans_lt hlt)
    have hsmall := hform.magnitude_lt hlt
    have hnear := (hclosest.le (2 ^ 52)).1
    have hfar : |(k : ℚ) * 2 ^ e - q| < |magnitude m f - q| := by
      calc |(k : ℚ) * 2 ^ e - q| ≤ |((2 ^ 52 : Nat) : ℚ) * 2 ^ e - q| := by
            rw [hscale, hscale]
            gcongr
        _ = q - 2 ^ 52 * 2 ^ e := by
            rw [Nat.cast_pow, Nat.cast_ofNat, abs_sub_comm, abs_of_nonneg (by linarith)]
        _ < q - magnitude m f := by linarith
        _ ≤ |magnitude m f - q| := by
            rw [abs_sub_comm]
            exact le_abs_self _
    exact ⟨hfar.le, fun _ heq => absurd heq hfar.ne⟩

theorem nearest_zero_of_lt {q : ℚ} (hq : 0 ≤ q) (hlt : 2 * q < 2 ^ minExponent) : Nearest q 0 minExponent where
  form := ⟨by norm_num, le_rfl, .inr rfl⟩
  le m e hform := by
    have hzero : |magnitude 0 minExponent - q| = q := by simp [magnitude, abs_of_nonneg hq]
    rw [hzero]
    by_cases hm : m = 0
    · subst hm
      simp [magnitude, abs_of_nonneg hq]
    · have hone : (1 : ℚ) ≤ m := by exact_mod_cast Nat.one_le_iff_ne_zero.2 hm
      have hpow : (2 : ℚ) ^ minExponent ≤ 2 ^ e := zpow_le_zpow_right₀ one_le_two hform.min_le
      have hlarge : (2 : ℚ) ^ minExponent ≤ magnitude m e := by
        unfold magnitude
        nlinarith
      exact le_trans (by linarith) (le_abs_self _)
  even _ _ _ _ _ := rfl

/-- A multiple of at most 53 bits as a double. -/
theorem rounds_pack {negative : Bool} {q : ℚ} {k : Nat} {e : Int} (hclosest : Closest k (q * 2 ^ (-e)))
    (hmin : minExponent ≤ e) (hlow : minExponent < e → 2 ^ 52 * 2 ^ e ≤ q) (hk : k ≤ 2 ^ 53)
    (hnormal : minExponent < e → 2 ^ 52 ≤ k) : Rounds negative q (pack negative k e) := by
  have hform : ∀ m f, magnitude m f = k * 2 ^ e → IsForm m f → (k % 2 = 0 → m % 2 = 0) → Nearest q m f := by
    intro m f heq hform heven
    refine ⟨hform, fun m' f' hform' => ?_, fun m' f' hform' hne hdist => heven ?_⟩
    · rw [heq]
      exact (nearer_of_closest hclosest hlow hform').1
    · rw [heq] at hne hdist
      exact (nearer_of_closest hclosest hlow hform').2 hne hdist
  have hsplit : ∀ m f, Nearest q m f →
      Rounds negative q (if maxExponent < f then .infinity negative else .finite negative m f) := by
    intro m f hnearest
    split
    · rename_i hbeyond
      exact .infinity hnearest hbeyond
    · rename_i hbounded
      exact .finite hnearest (by omega)
  unfold pack
  simp only [Nat.one_shiftLeft]
  by_cases hcarry : k = 2 ^ 53
  · rw [if_pos hcarry]
    refine hsplit _ _ (hform _ _ ?_ ⟨by norm_num, by omega, .inl le_rfl⟩ fun _ => by norm_num)
    rw [magnitude, hcarry, zpow_add_one₀ two_ne_zero]
    push_cast
    ring
  · rw [if_neg hcarry]
    refine hsplit _ _ (hform _ _ rfl ⟨by omega, hmin, ?_⟩ id)
    by_cases hleast : e = minExponent
    · exact .inr hleast
    · exact .inl (hnormal (by omega))

/-- The double of a ratio is the ratio rounded. -/
theorem rounds_ofRatio (negative : Bool) (n : Nat) {d : Nat} (hd : 0 < d) :
    Rounds negative (n / d) (ofRatio negative n d) := by
  unfold ofRatio
  split
  · rename_i hn
    subst hn
    have hzero : ((0 : Nat) : ℚ) / d = 0 := by simp
    rw [hzero]
    exact .finite (nearest_zero_of_lt le_rfl (by rw [mul_zero]; positivity)) (by decide)
  · rename_i hn
    obtain ⟨hfloor, hceil⟩ := floorLog2_spec (Nat.pos_of_ne_zero hn) hd
    simp only
    generalize hexp : max (floorLog2 n d - 52) minExponent = e
    have hclosest := closest_divNearest (scaleRatio n d (-e)).1 (scaleRatio_pos hd n (-e))
    rw [scaleRatio_div] at hclosest
    have hpos : (0 : ℚ) < 2 ^ e := by positivity
    have hlow : minExponent < e → 2 ^ 52 * 2 ^ e ≤ (n : ℚ) / d := by
      intro hlt
      obtain rfl : e = floorLog2 n d - 52 := by omega
      refine le_trans (le_of_eq ?_) hfloor
      rw [zpow_sub₀ two_ne_zero]
      norm_num
      ring
    have hhigh : (n : ℚ) / d * 2 ^ (-e) < 2 ^ 53 := by
      have hle : (2 : ℚ) ^ (floorLog2 n d + 1) ≤ 2 ^ (((53 : Nat) : Int) + e) :=
        zpow_le_zpow_right₀ one_le_two (by omega)
      rw [zpow_add₀ (two_ne_zero : (2 : ℚ) ≠ 0) ((53 : Nat) : Int), zpow_natCast] at hle
      rw [zpow_neg, ← div_eq_mul_inv, div_lt_iff₀ hpos]
      exact hceil.trans_le hle
    have hnear := abs_le.1 hclosest.near
    refine rounds_pack hclosest (by omega) hlow ?_ fun hlt => ?_
    · by_contra hgt
      have hlarge : ((2 ^ 53 + 1 : Nat) : ℚ) ≤ (divNearest (scaleRatio n d (-e)).1 (scaleRatio n d (-e)).2 : Nat) := by
        exact_mod_cast (by omega)
      push_cast at hlarge
      linarith
    · have hlow' : (2 : ℚ) ^ 52 ≤ n / d * 2 ^ (-e) := by
        rw [zpow_neg, ← div_eq_mul_inv, le_div_iff₀ hpos]
        exact hlow hlt
      by_contra hgt
      have hsmall : ((divNearest (scaleRatio n d (-e)).1 (scaleRatio n d (-e)).2 : Nat) : ℚ) + 1 ≤ (2 ^ 52 : Nat) := by
        exact_mod_cast (by omega)
      push_cast at hsmall
      linarith

/-! ### Integers and magnitudes out of range -/

theorem rounds_ofInt (n : Int) : Rounds (n < 0) n.natAbs (ofInt n) := by
  have h := rounds_ofRatio (n < 0) n.natAbs Nat.one_pos
  rwa [Nat.cast_one, div_one] at h

theorem rounds_infinity_of_le {q : ℚ} (hq : 2 ^ 52 * 2 ^ (maxExponent + 1) ≤ q) (negative : Bool) :
    Rounds negative q (.infinity negative) := by
  have hpos : (0 : ℚ) < 2 ^ 52 * 2 ^ (maxExponent + 1) := by positivity
  have hratio : (q.num.natAbs : ℚ) / q.den = q := by
    have hnum : 0 ≤ q.num := Rat.num_nonneg.2 (hpos.le.trans hq)
    rw [← Int.cast_natCast, Int.natAbs_of_nonneg hnum, Rat.num_div_den]
  have hrounds := rounds_ofRatio negative q.num.natAbs q.den_pos
  rw [hratio] at hrounds
  generalize ofRatio negative q.num.natAbs q.den = x at hrounds
  cases hrounds with
  | infinity nearest beyond => exact .infinity nearest beyond
  | @finite m e nearest bounded =>
    -- the least magnitude beyond every double would be nearer
    have hform : IsForm (2 ^ 52) (maxExponent + 1) := ⟨by norm_num, by decide, .inl le_rfl⟩
    have hsmall := nearest.form.magnitude_lt (Int.lt_add_one_of_le bounded)
    have hnear := nearest.le _ _ hform
    rw [magnitude, magnitude, Nat.cast_pow, Nat.cast_ofNat, abs_of_neg (by rw [magnitude] at hsmall; linarith),
      abs_of_nonpos (by linarith)] at hnear
    rw [magnitude] at hsmall
    linarith

end Binary64

end SchemaDecl
