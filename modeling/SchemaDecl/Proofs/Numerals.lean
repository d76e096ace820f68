import Mathlib.Data.List.TakeWhile
import Mathlib.Tactic.FieldSimp
import SchemaDecl.Decimal.Leading
import SchemaDecl.Proofs.Digits
import SchemaDecl.Text.Edge

/-!
# The longest numeral in front of a text

A numeral is a sign and then the word `Infinity` or a decimal literal (`Numeral`).  Reading the front of a text takes a
numeral off it (`Binary64.exists_numeral_of_scan?`), and never less than any numeral that the text begins with
(`Binary64.scan?_append`): a point or a mark of a power is left where what must follow it is missing.  So the number of
a text is that of the longest numeral in front, and not a number if there is none.
-/

namespace SchemaDecl

/-! ### Numerals -/

def AllDigits (ds : List Char) : Prop := ∀ d ∈ ds, isDigit d = true

/-- What may stand in front of a number, and whether it negates the number. -/
inductive SignText : Bool → List Char → Prop
  | none : SignText false []
  | plus : SignText false ['+']
  | minus : SignText true ['-']

/-- What may stand behind a number, and the power of ten that it multiplies the number by. -/
inductive PowerText : Int → List Char → Prop
  | none : PowerText 0 []
  | some {mark : Char} {negative : Bool} {sign digits : List Char} (isMark : mark = 'e' ∨ mark = 'E')
    (isSign : SignText negative sign) (nonempty : digits ≠ []) (all : AllDigits digits) :
    PowerText (if negative then -(digitsValue digits : Int) else digitsValue digits) (mark :: (sign ++ digits))

/-- A literal without sign, and its magnitude: digits, perhaps with a point and digits behind it, or a point and digits,
and a power of ten. -/
inductive LiteralText : ℚ → List Char → Prop
  | whole {digits power : List Char} {e : Int} (nonempty : digits ≠ []) (all : AllDigits digits)
    (isPower : PowerText e power) : LiteralText (digitsValue digits * 10 ^ e) (digits ++ power)
  | pointed {digits fraction power : List Char} {e : Int} (nonempty : digits ≠ []) (all : AllDigits digits)
    (allFraction : AllDigits fraction) (isPower : PowerText e power) :
    LiteralText ((digitsValue digits + digitsValue fraction / 10 ^ fraction.length) * 10 ^ e)
      (digits ++ '.' :: (fraction ++ power))
  | fraction {fraction power : List Char} {e : Int} (nonempty : fraction ≠ []) (allFraction : AllDigits fraction)
    (isPower : PowerText e power) :
    LiteralText (digitsValue fraction / 10 ^ fraction.length * 10 ^ e) ('.' :: (fraction ++ power))

/-- A number without sign that is one as a whole, and its magnitude: digits, digits with a point and perhaps more digits
behind them, or a point with digits behind it and perhaps before it, and a power of ten. -/
inductive NumberText : ℚ → List Char → Prop
  | whole {digits power : List Char} {e : Int} (nonempty : digits ≠ []) (all : AllDigits digits)
    (isPower : PowerText e power) : NumberText (digitsValue digits * 10 ^ e) (digits ++ power)
  | digitsBefore {digits fraction power : List Char} {e : Int} (nonempty : digits ≠ []) (all : AllDigits digits)
    (allFraction : AllDigits fraction) (isPower : PowerText e power) :
    NumberText ((digitsValue digits + digitsValue fraction / 10 ^ fraction.length) * 10 ^ e)
      (digits ++ '.' :: (fraction ++ power))
  | digitsBehind {digits fraction power : List Char} {e : Int} (nonempty : fraction ≠ []) (all : AllDigits digits)
    (allFraction : AllDigits fraction) (isPower : PowerText e power) :
    NumberText ((digitsValue digits + digitsValue fraction / 10 ^ fraction.length) * 10 ^ e)
      (digits ++ '.' :: (fraction ++ power))

theorem LiteralText.numberText {q : ℚ} {cs : List Char} (h : LiteralText q cs) : NumberText q cs := by
  cases h with
  | whole nonempty all isPower => exact .whole nonempty all isPower
  | pointed nonempty all allFraction isPower => exact .digitsBefore nonempty all allFraction isPower
  | fraction nonempty allFraction isPower =>
    have hbehind := NumberText.digitsBehind nonempty (List.forall_mem_nil _) allFraction isPower
    have hzero : digitsValue [] = 0 := rfl
    rwa [hzero, Nat.cast_zero, zero_add, List.nil_append] at hbehind

/-- A numeral, whether it is negative, and its magnitude, which an infinite one does not have. -/
inductive Numeral : Bool → Option ℚ → List Char → Prop
  | infinity {negative : Bool} {sign : List Char} (isSign : SignText negative sign) :
    Numeral negative none (sign ++ "Infinity".toList)
  | literal {negative : Bool} {sign cs : List Char} {q : ℚ} (isSign : SignText negative sign)
    (isLiteral : LiteralText q cs) : Numeral negative (some q) (sign ++ cs)

/-- The double of a numeral: a signed infinity, or the magnitude rounded. -/
def Binary64.IsValue (negative : Bool) : Option ℚ → Binary64 → Prop
  | none, x => x = .infinity negative
  | some q, x => Rounds negative q x

theorem Binary64.IsValue.unique {negative : Bool} {q : Option ℚ} {x y : Binary64} (hx : IsValue negative q x)
    (hy : IsValue negative q y) : x = y := by
  cases q with
  | none => exact hx.trans hy.symm
  | some q => exact Rounds.unique hx hy

/-- The longest numeral that a text begins with. -/
structure LongestNumeral (s p : List Char) : Prop where
  begins : p <+: s
  numeral : ∃ negative q, Numeral negative q p
  longest : ∀ p' negative q, p' <+: s → Numeral negative q p' → p'.length ≤ p.length

/-! ### Characters that begin no part -/

private theorem not_isDigit_of_mark {c : Char} (h : c = 'e' ∨ c = 'E') : isDigit c = false := by
  rcases h with rfl | rfl <;> decide

/-- A number begins with a digit or a point. -/
theorem NumberText.exists_cons {q : ℚ} {cs : List Char} (h : NumberText q cs) :
    ∃ c r, cs = c :: r ∧ (isDigit c = true ∨ c = '.') := by
  have hdigits : ∀ (ds rest : List Char), AllDigits ds → ds ≠ [] ∨ rest.head? = some '.' →
      ∃ c r, ds ++ rest = c :: r ∧ (isDigit c = true ∨ c = '.') := by
    intro ds rest hall hsome
    cases ds with
    | nil =>
      obtain ⟨r, rfl⟩ := List.head?_eq_some_iff.1 (hsome.resolve_left (by simp))
      exact ⟨'.', r, rfl, .inr rfl⟩
    | cons c r => exact ⟨c, r ++ rest, rfl, .inl (hall c List.mem_cons_self)⟩
  cases h with
  | whole nonempty all _ => exact hdigits _ _ all (.inl nonempty)
  | digitsBefore nonempty all _ _ => exact hdigits _ _ all (.inl nonempty)
  | digitsBehind _ all _ _ => exact hdigits _ _ all (.inr rfl)

/-! ### Signs -/

theorem exists_sign (cs : List Char) : ∃ sign, cs = sign ++ (takeSign cs).2 ∧ SignText (takeSign cs).1 sign := by
  unfold takeSign
  split
  · exact ⟨['-'], rfl, .minus⟩
  · exact ⟨['+'], rfl, .plus⟩
  · exact ⟨[], rfl, .none⟩

theorem takeSign_append {negative : Bool} {sign : List Char} (h : SignText negative sign) {c : Char}
    (hminus : c ≠ '-') (hplus : c ≠ '+') (rest : List Char) :
    takeSign (sign ++ c :: rest) = (negative, c :: rest) := by
  cases h with
  | none =>
    unfold takeSign
    split <;> simp_all
  | plus => rfl
  | minus => rfl

theorem ne_sign_of_isDigit {c : Char} (h : isDigit c = true) : c ≠ '-' ∧ c ≠ '+' := by
  constructor <;> rintro rfl <;> revert h <;> decide

/-! ### Powers -/

theorem takePower_of_mark {mark : Char} (h : mark = 'e' ∨ mark = 'E') (r : List Char) :
    takePower (mark :: r) =
      if ((takeSign r).2.takeWhile isDigit).isEmpty then (0, mark :: r)
      else (if (takeSign r).1 then -(digitsValue ((takeSign r).2.takeWhile isDigit) : Int)
        else digitsValue ((takeSign r).2.takeWhile isDigit), (takeSign r).2.dropWhile isDigit) := by
  rw [takePower, if_pos h]

theorem takePower_of_not_mark {cs : List Char} (h : ∀ c r, cs = c :: r → ¬ (c = 'e' ∨ c = 'E')) :
    takePower cs = (0, cs) := by
  cases cs with
  | nil => rfl
  | cons c r => rw [takePower, if_neg (h c r rfl)]

private theorem exists_power (cs : List Char) :
    ∃ power, cs = power ++ (takePower cs).2 ∧ PowerText (takePower cs).1 power := by
  by_cases hmark : ∃ mark r, cs = mark :: r ∧ (mark = 'e' ∨ mark = 'E')
  · obtain ⟨mark, r, rfl, hmark⟩ := hmark
    rw [takePower_of_mark hmark]
    split
    · exact ⟨[], rfl, .none⟩
    · rename_i hdigits
      obtain ⟨sign, hsplit, hsign⟩ := exists_sign r
      refine ⟨mark :: (sign ++ (takeSign r).2.takeWhile isDigit), ?_, ?_⟩
      · rw [List.cons_append, List.append_assoc, List.takeWhile_append_dropWhile, ← hsplit]
      · refine .some hmark hsign (by simpa using hdigits) ?_
        exact fun d hd => List.mem_takeWhile_imp hd
  · have hnot : ∀ c r, cs = c :: r → ¬ (c = 'e' ∨ c = 'E') := fun c r hcs hc => hmark ⟨c, r, hcs, hc⟩
    rw [takePower_of_not_mark hnot]
    exact ⟨[], rfl, .none⟩

private theorem takePower_suffix (cs : List Char) : (takePower cs).2 <:+ cs := by
  obtain ⟨power, hsplit, -⟩ := exists_power cs
  exact ⟨power, hsplit.symm⟩

/-- A power is taken as a whole, and all of it if nothing follows. -/
private theorem takePower_append {e : Int} {power : List Char} (h : PowerText e power) (after : List Char) :
    (takePower (power ++ after)).2 <:+ after ∧ (after = [] → takePower (power ++ after) = (e, [])) := by
  cases h with
  | none =>
    refine ⟨takePower_suffix after, ?_⟩
    rintro rfl
    rfl
  | @some mark negative sign digits isMark isSign nonempty all =>
    obtain ⟨d, ds, rfl⟩ := List.exists_cons_of_ne_nil nonempty
    have hd := ne_sign_of_isDigit (all d List.mem_cons_self)
    have hsign : takeSign (sign ++ (d :: ds) ++ after) = (negative, (d :: ds) ++ after) := by
      rw [List.append_assoc]
      exact takeSign_append isSign hd.1 hd.2 (ds ++ after)
    rw [List.cons_append, takePower_of_mark isMark, hsign, List.takeWhile_append_of_pos all,
      List.dropWhile_append_of_pos all, if_neg (by simp)]
    refine ⟨List.dropWhile_suffix _, ?_⟩
    rintro rfl
    simp

/-! ### Literals -/

theorem takeFraction_point (r : List Char) : takeFraction ('.' :: r) = (r.takeWhile isDigit, r.dropWhile isDigit) := rfl

theorem takeFraction_of_not_point {cs : List Char} (h : ∀ r, cs ≠ '.' :: r) : takeFraction cs = ([], cs) := by
  unfold takeFraction
  split
  · rename_i r
    exact absurd rfl (h r)
  · rfl

private theorem takeFraction_suffix (cs : List Char) : (takeFraction cs).2 <:+ cs := by
  unfold takeFraction
  split
  · exact (List.dropWhile_suffix _).trans (List.suffix_cons _ _)
  · exact List.suffix_refl _

namespace Decimal

theorem leading?_eq (negative : Bool) (cs : List Char) :
    leading? negative cs =
      if (cs.takeWhile isDigit ++ (takeFraction (cs.dropWhile isDigit)).1).isEmpty then none
      else some (⟨negative, cs.takeWhile isDigit ++ (takeFraction (cs.dropWhile isDigit)).1,
        (takePower (takeFraction (cs.dropWhile isDigit)).2).1 - (takeFraction (cs.dropWhile isDigit)).1.length⟩,
        (takePower (takeFraction (cs.dropWhile isDigit)).2).2) := rfl

/-- The digits before and behind the point as one row. -/
private theorem magnitude_pointed (negative : Bool) (digits fraction : List Char) (e : Int) :
    (⟨negative, digits ++ fraction, e - fraction.length⟩ : Decimal).magnitude =
      (digitsValue digits + digitsValue fraction / 10 ^ fraction.length) * 10 ^ e := by
  have hpow : (10 : ℚ) ^ (e - fraction.length) = 10 ^ e / 10 ^ fraction.length := by
    rw [zpow_sub₀ (by norm_num), zpow_natCast]
  have hne : (10 : ℚ) ^ fraction.length ≠ 0 := by positivity
  rw [magnitude, digitsValue_append, hpow]
  push_cast
  field_simp

/-- What is taken off the front of a text is a literal. -/
theorem exists_literal_of_leading? {negative : Bool} {cs rest : List Char} {x : Decimal}
    (h : leading? negative cs = some (x, rest)) :
    ∃ literal, cs = literal ++ rest ∧ LiteralText x.magnitude literal ∧ x.negative = negative ∧ AllDigits x.digits := by
  rw [leading?_eq] at h
  generalize hwhole : cs.takeWhile isDigit = whole at h
  generalize hrest : cs.dropWhile isDigit = r at h
  have hsplit : cs = whole ++ r := by rw [← hwhole, ← hrest, List.takeWhile_append_dropWhile]
  have hall : AllDigits whole := fun d hd => List.mem_takeWhile_imp (hwhole ▸ hd)
  have hpowers := exists_power (takeFraction r).2
  split at h
  · cases h
  · rename_i hsome
    cases h
    obtain ⟨power, hpower, hisPower⟩ := hpowers
    by_cases hpoint : ∃ r', r = '.' :: r'
    · obtain ⟨r', rfl⟩ := hpoint
      rw [takeFraction_point] at hpower hisPower hsome ⊢
      have hfraction : AllDigits (r'.takeWhile isDigit) := fun d hd => List.mem_takeWhile_imp hd
      have htext : r' = r'.takeWhile isDigit ++ (power ++ (takePower (r'.dropWhile isDigit)).2) := by
        rw [← hpower, List.takeWhile_append_dropWhile]
      rw [magnitude_pointed]
      by_cases hnone : whole = []
      · subst hnone
        refine ⟨'.' :: (r'.takeWhile isDigit ++ power), ?_, ?_, rfl, ?_⟩
        · rw [hsplit, List.nil_append, List.cons_append, List.append_assoc, ← htext]
        · have hzero : digitsValue [] = 0 := rfl
          rw [hzero, Nat.cast_zero, zero_add]
          exact .fraction (by simpa using hsome) hfraction hisPower
        · simpa using hfraction
      · refine ⟨whole ++ '.' :: (r'.takeWhile isDigit ++ power), ?_, .pointed hnone hall hfraction hisPower, rfl, ?_⟩
        · rw [hsplit, List.append_assoc, List.cons_append, List.append_assoc, ← htext]
        · exact List.forall_mem_append.2 ⟨hall, hfraction⟩
    · rw [takeFraction_of_not_point (not_exists.1 hpoint)] at hpower hisPower hsome ⊢
      rw [magnitude_pointed]
      have hzero : digitsValue [] = 0 := rfl
      refine ⟨whole ++ power, ?_, ?_, rfl, by simpa using hall⟩
      · rw [hsplit, List.append_assoc, ← hpower]
      · rw [hzero, Nat.cast_zero, zero_div, add_zero]
        exact .whole (by simpa using hsome) hall hisPower

/-- The double of what is taken is its magnitude rounded. -/
theorem rounds_of_leading? {negative : Bool} {cs rest : List Char} {x : Decimal}
    (h : leading? negative cs = some (x, rest)) : Binary64.Rounds negative x.magnitude x.toBinary64 := by
  obtain ⟨-, -, -, hnegative, hall⟩ := exists_literal_of_leading? h
  have hrounds := x.rounds_toBinary64 hall
  rwa [hnegative] at hrounds

/-- Behind digits that go on as far as they can, a power is taken as a whole, and all of it if nothing follows. -/
private theorem takePower_dropWhile_append {e : Int} {power : List Char} (h : PowerText e power) (after : List Char) :
    (takePower ((power ++ after).dropWhile isDigit)).2 <:+ after ∧
      (after = [] →
        (power ++ after).takeWhile isDigit = [] ∧ takePower ((power ++ after).dropWhile isDigit) = (e, [])) := by
  have htaken := takePower_append h after
  cases h with
  | none =>
    refine ⟨(takePower_suffix _).trans (List.dropWhile_suffix _), ?_⟩
    rintro rfl
    exact ⟨rfl, rfl⟩
  | some isMark _ _ _ =>
    have hmark := not_isDigit_of_mark isMark
    rw [List.cons_append, List.dropWhile_cons_of_neg (by simp [hmark]), List.takeWhile_cons_of_neg (by simp [hmark])]
    exact ⟨htaken.1, fun hnil => ⟨rfl, htaken.2 hnil⟩⟩

/-- Digits with a power are taken as a whole, and exactly if nothing follows. -/
private theorem leading?_whole {e : Int} {digits power : List Char} (nonempty : digits ≠ []) (all : AllDigits digits)
    (isPower : PowerText e power) (negative : Bool) (after : List Char) :
    ∃ x rest, leading? negative (digits ++ (power ++ after)) = some (x, rest) ∧ rest <:+ after ∧
      (after = [] → x = ⟨negative, digits, e⟩) := by
  have hdigits : ¬ (digits ++ (power ++ after).takeWhile isDigit ++
      (takeFraction ((power ++ after).dropWhile isDigit)).1).isEmpty = true := by simp [nonempty]
  rw [leading?_eq, List.takeWhile_append_of_pos all, List.dropWhile_append_of_pos all, if_neg hdigits]
  refine ⟨_, _, rfl, ?_⟩
  have htaken := takePower_dropWhile_append isPower after
  cases isPower with
  | none =>
    refine ⟨(takePower_suffix _).trans ((takeFraction_suffix _).trans (List.dropWhile_suffix _)), ?_⟩
    rintro rfl
    simp [takeFraction, takePower]
  | some isMark _ _ _ =>
    -- the mark of a power is no point
    have hmark := not_isDigit_of_mark isMark
    rw [List.cons_append, List.dropWhile_cons_of_neg (by simp [hmark])] at htaken ⊢
    rw [takeFraction_of_not_point fun r hr => by rcases isMark with rfl | rfl <;> simp at hr]
    refine ⟨htaken.1, fun hnil => ?_⟩
    rw [(htaken.2 hnil).1, (htaken.2 hnil).2]
    simp

/-- Digits with a point among them or at an end, and with a power, are taken as a whole, and exactly if nothing
follows. -/
private theorem leading?_pointed {e : Int} {digits fraction power : List Char} (nonempty : digits ≠ [] ∨ fraction ≠ [])
    (all : AllDigits digits) (allFraction : AllDigits fraction) (isPower : PowerText e power) (negative : Bool)
    (after : List Char) :
    ∃ x rest, leading? negative (digits ++ '.' :: (fraction ++ (power ++ after))) = some (x, rest) ∧ rest <:+ after ∧
      (after = [] → x = ⟨negative, digits ++ fraction, e - fraction.length⟩) := by
  have hpoint : isDigit '.' = false := by decide
  have hdigits : ¬ (digits ++ (fraction ++ (power ++ after).takeWhile isDigit)).isEmpty = true := by
    rcases nonempty with hne | hne <;> simp [hne]
  rw [leading?_eq, List.takeWhile_append_of_pos all, List.dropWhile_append_of_pos all,
    List.takeWhile_cons_of_neg (by simp [hpoint]), List.dropWhile_cons_of_neg (by simp [hpoint]), takeFraction_point,
    List.takeWhile_append_of_pos allFraction, List.dropWhile_append_of_pos allFraction, List.append_nil,
    if_neg hdigits]
  obtain ⟨hsuffix, hexact⟩ := takePower_dropWhile_append isPower after
  refine ⟨_, _, rfl, hsuffix, fun hnil => ?_⟩
  rw [(hexact hnil).1, (hexact hnil).2, List.append_nil]

/-- A number is taken as a whole, and exactly if nothing follows. -/
theorem leading?_append {q : ℚ} {number : List Char} (h : NumberText q number) (negative : Bool)
    (after : List Char) :
    ∃ x rest, leading? negative (number ++ after) = some (x, rest) ∧ rest <:+ after ∧
      (after = [] → x.magnitude = q) := by
  cases h with
  | whole nonempty all isPower =>
    obtain ⟨x, rest, htaken, hsuffix, hexact⟩ := leading?_whole nonempty all isPower negative after
    rw [← List.append_assoc] at htaken
    exact ⟨x, rest, htaken, hsuffix, fun hnil => by rw [hexact hnil]; rfl⟩
  | digitsBefore nonempty all allFraction isPower =>
    obtain ⟨x, rest, htaken, hsuffix, hexact⟩ :=
      leading?_pointed (.inl nonempty) all allFraction isPower negative after
    refine ⟨x, rest, by simpa using htaken, hsuffix, fun hnil => ?_⟩
    rw [hexact hnil, magnitude_pointed]
  | digitsBehind nonempty all allFraction isPower =>
    obtain ⟨x, rest, htaken, hsuffix, hexact⟩ :=
      leading?_pointed (.inr nonempty) all allFraction isPower negative after
    refine ⟨x, rest, by simpa using htaken, hsuffix, fun hnil => ?_⟩
    rw [hexact hnil, magnitude_pointed]

end Decimal

/-! ### Numerals in front of a text -/

namespace Binary64

/-- The number in front of a text, and what follows it. -/
def scan? (s : List Char) : Option (Binary64 × List Char) :=
  match after? "Infinity".toList (takeSign s).2 with
  | some rest => some (.infinity (takeSign s).1, rest)
  | none => (Decimal.leading? (takeSign s).1 (takeSign s).2).map fun p => (p.1.toBinary64, p.2)

theorem ofText_eq_scan? (text : String) :
    ofText text = ((scan? (text.toList.dropWhile isBlank)).map Prod.fst).getD .nan := by
  unfold ofText scan?
  simp only
  generalize takeSign (text.toList.dropWhile isBlank) = signed
  cases hafter : after? "Infinity".toList signed.2 with
  | some rest =>
    have hword : "Infinity".toList.isPrefixOf signed.2 = true := by
      rw [after?_eq_some_iff.1 hafter]
      simp
    rw [if_pos hword]
    rfl
  | none =>
    have hword : ¬ "Infinity".toList.isPrefixOf signed.2 = true := by
      intro hword
      obtain ⟨rest, hrest⟩ := List.isPrefixOf_iff_prefix.1 hword
      rw [after?_eq_some_iff.2 hrest.symm] at hafter
      cases hafter
    rw [if_neg hword]
    cases Decimal.leading? signed.1 signed.2 <;> rfl

/-- What is taken off the front of a text is a numeral, and its number is taken. -/
theorem exists_numeral_of_scan? {s rest : List Char} {x : Binary64} (h : scan? s = some (x, rest)) :
    ∃ p negative q, s = p ++ rest ∧ Numeral negative q p ∧ IsValue negative q x := by
  obtain ⟨sign, hsplit, hsign⟩ := exists_sign s
  unfold scan? at h
  split at h
  · rename_i r hafter
    cases h
    refine ⟨sign ++ "Infinity".toList, _, none, ?_, .infinity hsign, rfl⟩
    rw [List.append_assoc, ← after?_eq_some_iff.1 hafter, ← hsplit]
  · obtain ⟨p, hp, heq⟩ := Option.map_eq_some_iff.1 h
    cases heq
    obtain ⟨literal, hliteral, htext, -⟩ := Decimal.exists_literal_of_leading? hp
    refine ⟨sign ++ literal, _, some p.1.magnitude, ?_, .literal hsign htext, Decimal.rounds_of_leading? hp⟩
    rw [List.append_assoc, ← hliteral, ← hsplit]

/-- A numeral is taken as a whole, and its number if nothing follows. -/
theorem scan?_append {negative : Bool} {q : Option ℚ} {p : List Char} (h : Numeral negative q p) (after : List Char) :
    ∃ x rest, scan? (p ++ after) = some (x, rest) ∧ rest <:+ after ∧ (after = [] → IsValue negative q x) := by
  cases h with
  | @infinity sign isSign =>
    have hsign : takeSign (sign ++ "Infinity".toList ++ after) = (negative, "Infinity".toList ++ after) := by
      rw [List.append_assoc]
      exact takeSign_append isSign (by decide) (by decide) _
    unfold scan?
    rw [hsign, after?_eq_some_iff.2 rfl]
    exact ⟨_, _, rfl, List.suffix_refl after, fun _ => rfl⟩
  | @literal sign cs q isSign isLiteral =>
    obtain ⟨c, r, hcs, hc⟩ := isLiteral.numberText.exists_cons
    have hfirst : c ≠ '-' ∧ c ≠ '+' ∧ c ≠ 'I' := by
      rcases hc with hdigit | rfl
      · refine ⟨(ne_sign_of_isDigit hdigit).1, (ne_sign_of_isDigit hdigit).2, ?_⟩
        rintro rfl
        revert hdigit
        decide
      · decide
    have hsign : takeSign (sign ++ cs ++ after) = (negative, cs ++ after) := by
      rw [List.append_assoc, hcs]
      exact takeSign_append isSign hfirst.1 hfirst.2.1 _
    have hword : after? "Infinity".toList (cs ++ after) = none := by
      rw [hcs]
      exact if_neg (Ne.symm hfirst.2.2)
    obtain ⟨x, rest, htaken, hsuffix, hexact⟩ := Decimal.leading?_append isLiteral.numberText negative after
    unfold scan?
    rw [hsign, hword, htaken]
    refine ⟨_, _, rfl, hsuffix, fun hnil => ?_⟩
    have hrounds := Decimal.rounds_of_leading? htaken
    rwa [hexact hnil] at hrounds

theorem scan?_eq_none_iff {s : List Char} :
    scan? s = none ↔ ∀ p negative q, p <+: s → ¬ Numeral negative q p := by
  constructor
  · rintro h p negative q ⟨after, rfl⟩ hp
    obtain ⟨x, rest, htaken, -⟩ := scan?_append hp after
    rw [h] at htaken
    cases htaken
  · intro h
    cases hscan : scan? s with
    | none => rfl
    | some taken =>
      obtain ⟨p, negative, q, hsplit, hp, -⟩ := exists_numeral_of_scan? hscan
      exact absurd hp (h p negative q ⟨_, hsplit.symm⟩)

/-- What is taken off the front of a text is the longest numeral there, with its number. -/
theorem scan?_eq_of_longest {s p : List Char} {negative : Bool} {q : Option ℚ} (h : LongestNumeral s p)
    (hp : Numeral negative q p) : ∃ x rest, s = p ++ rest ∧ scan? s = some (x, rest) ∧ IsValue negative q x := by
  obtain ⟨after, rfl⟩ := h.begins
  obtain ⟨x, rest, htaken, hsuffix, -⟩ := scan?_append hp after
  obtain ⟨p', negative', q', hsplit, hp', hvalue⟩ := exists_numeral_of_scan? htaken
  -- it is no shorter than the longest one, and no longer
  have hlength := h.longest p' negative' q' ⟨rest, hsplit.symm⟩ hp'
  have hrest : rest = after := by
    refine hsuffix.eq_of_length (le_antisymm hsuffix.length_le ?_)
    have hlengths := congrArg List.length hsplit
    rw [List.length_append, List.length_append] at hlengths
    omega
  subst hrest
  obtain rfl : p = p' := List.append_cancel_right hsplit
  -- the two ways to see it as a numeral give one number
  obtain ⟨y, rest', halone, -, hexact⟩ := scan?_append hp []
  obtain ⟨y', rest'', halone', -, hexact'⟩ := scan?_append hp' []
  rw [halone] at halone'
  cases halone'
  obtain rfl : x = y := hvalue.unique (hexact' rfl)
  exact ⟨x, rest, rfl, htaken, hexact rfl⟩

end Binary64

end SchemaDecl
