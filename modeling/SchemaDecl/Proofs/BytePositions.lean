import SchemaDecl.Proofs.Numerals

/-!
# Reading a number by byte positions

A text is a row of bytes, and a position in it is a number of bytes.  Looking at a byte needs a position within the row,
and cutting the text needs one that is not inside a character.  The number in front of a text can be found by looking at
bytes and cutting (`Binary64.readBytes?`), with a failure for every look or cut that is not possible and for a piece
that is no number as a whole.  No failure happens, and the number is the one that is read character by character: all
that is passed over are characters of one byte, so positions stay between characters.
-/

namespace SchemaDecl

/-! ### Bytes and cuts -/

def utf8 (s : List Char) : List UInt8 := s.flatMap String.utf8EncodeChar

/-- The two parts of a text at a byte position, unless it is beyond the end or inside a character. -/
def cutAt? : List Char → Nat → Option (List Char × List Char)
  | s, 0 => some ([], s)
  | [], _ + 1 => none
  | c :: s, n + 1 =>
    if c.utf8Size ≤ n + 1 then (cutAt? s (n + 1 - c.utf8Size)).map fun p => (c :: p.1, p.2) else none

/-- The byte of a character that has only one. -/
def asciiByte (c : Char) : UInt8 := UInt8.ofNat c.toNat

def isDigitByte (b : UInt8) : Bool := asciiByte '0' ≤ b && b ≤ asciiByte '9'

/-- Whether a byte is one of two characters. -/
def isEitherByte (a a' : Char) (b : UInt8) : Bool := b = asciiByte a || b = asciiByte a'

/-- Whether there is a byte at a position and it passes a test; the byte is looked at only if the position is within
bounds. -/
def testAt? (bytes : List UInt8) (i : Nat) (test : UInt8 → Bool) : Option Bool :=
  if i < bytes.length then bytes[i]?.map test else some false

/-- The end of the digits from a position on. -/
def digitsEnd? (bytes : List UInt8) (i : Nat) : Option Nat :=
  if i < bytes.length then
    (testAt? bytes i isDigitByte).bind fun digit => if digit then digitsEnd? bytes (i + 1) else some i
  else some i
termination_by bytes.length - i

/-- The end of a point and the digits behind it, and the number of digits on both sides, those before it being between
`start` and `whole`.  A point without digits is not passed over. -/
def fractionEnd? (bytes : List UInt8) (start whole : Nat) : Option (Nat × Nat) :=
  (testAt? bytes whole (· = asciiByte '.')).bind fun point =>
    if point then
      (digitsEnd? bytes (whole + 1)).map fun stop =>
        let count := whole - start + (stop - whole - 1)
        (if 0 < count then stop else whole, count)
    else some (whole, whole - start)

/-- The end of a power of ten; a mark without digits is not passed over. -/
def powerEnd? (bytes : List UInt8) (i : Nat) : Option Nat :=
  (testAt? bytes i (isEitherByte 'e' 'E')).bind fun mark =>
    if mark then
      (testAt? bytes (i + 1) (isEitherByte '+' '-')).bind fun signed =>
        let start := if signed then i + 2 else i + 1
        (digitsEnd? bytes start).map fun stop => if start < stop then stop else i
    else some i

/-- The end of a literal; a literal has a digit. -/
def literalEnd? (bytes : List UInt8) (start : Nat) : Option (Option Nat) :=
  (digitsEnd? bytes start).bind fun whole =>
    (fractionEnd? bytes start whole).bind fun fraction =>
      if fraction.2 = 0 then some none else (powerEnd? bytes fraction.1).map some

/-! ### Texts that are numbers as a whole -/

/-- A text that is a double as a whole: a number, or a word for an infinity or for no number, in letters of either case,
each with a sign. -/
inductive DoubleText : Binary64 → List Char → Prop
  | infinity {negative : Bool} {sign word : List Char} (isSign : SignText negative sign)
    (isWord : word.map Char.toLower = "inf".toList ∨ word.map Char.toLower = "infinity".toList) :
    DoubleText (.infinity negative) (sign ++ word)
  | nan {negative : Bool} {sign word : List Char} (isSign : SignText negative sign)
    (isWord : word.map Char.toLower = "nan".toList) : DoubleText .nan (sign ++ word)
  | number {negative : Bool} {sign cs : List Char} {q : ℚ} {x : Binary64} (isSign : SignText negative sign)
    (isNumber : NumberText q cs) (rounds : Binary64.Rounds negative q x) : DoubleText x (sign ++ cs)

/-- The double of a text that is one as a whole. -/
def Binary64.parse? (cs : List Char) : Option Binary64 :=
  let word := (takeSign cs).2.map Char.toLower
  if word = "inf".toList ∨ word = "infinity".toList then some (.infinity (takeSign cs).1)
  else if word = "nan".toList then some .nan
  else (Decimal.leading? (takeSign cs).1 (takeSign cs).2).bind fun p => if p.2 = [] then some p.1.toBinary64 else none

/-- A character that begins a number is none that begins a word or a sign. -/
private theorem toLower_of_isDigit_or_point {c : Char} (h : isDigit c = true ∨ c = '.') :
    c ≠ '-' ∧ c ≠ '+' ∧ c.toLower ≠ 'i' ∧ c.toLower ≠ 'n' := by
  rcases h with hdigit | rfl
  · obtain ⟨hminus, hplus⟩ := ne_sign_of_isDigit hdigit
    have hlower : c.toLower = c := by
      have hle : c.val.toNat ≤ 57 := (isDigit_iff.1 hdigit).2
      unfold Char.toLower
      rw [dif_neg]
      rintro ⟨hupper, -⟩
      have hge : 65 ≤ c.val.toNat := hupper
      omega
    rw [hlower]
    refine ⟨hminus, hplus, ?_, ?_⟩ <;> rintro rfl <;> revert hdigit <;> decide
  · decide

/-- A word begins with a letter, so that a sign before it is taken. -/
private theorem takeSign_append_word {negative : Bool} {sign word : List Char} (isSign : SignText negative sign)
    {l : Char} {ls : List Char} (h : word.map Char.toLower = l :: ls) (hminus : l ≠ '-') (hplus : l ≠ '+') :
    takeSign (sign ++ word) = (negative, word) := by
  obtain ⟨c, r, rfl, rfl, -⟩ := List.map_eq_cons_iff.1 h
  refine takeSign_append isSign ?_ ?_ r
  · rintro rfl
    exact hminus rfl
  · rintro rfl
    exact hplus rfl

/-- What is read as a double is one as a whole. -/
private theorem doubleText_of_parse? {cs : List Char} {x : Binary64} (h : Binary64.parse? cs = some x) :
    DoubleText x cs := by
  obtain ⟨sign, hsplit, hsign⟩ := exists_sign cs
  unfold Binary64.parse? at h
  simp only at h
  split at h
  · rename_i hword
    cases h
    have htext := DoubleText.infinity hsign hword
    rwa [← hsplit] at htext
  · split at h
    · rename_i hword
      cases h
      have htext := DoubleText.nan hsign hword
      rwa [← hsplit] at htext
    · obtain ⟨p, hp, hvalue⟩ := Option.bind_eq_some_iff.1 h
      split at hvalue
      · rename_i hrest
        cases hvalue
        obtain ⟨literal, hliteral, htext, -⟩ := Decimal.exists_literal_of_leading? hp
        rw [hrest, List.append_nil] at hliteral
        rw [hsplit, hliteral]
        exact .number hsign htext.numberText (Decimal.rounds_of_leading? hp)
      · cases hvalue

/-- What is a double as a whole is read as this one. -/
private theorem DoubleText.parse? {cs : List Char} {x : Binary64} (h : DoubleText x cs) :
    Binary64.parse? cs = some x := by
  unfold Binary64.parse?
  cases h with
  | @infinity negative sign word isSign isWord =>
    have hsign : takeSign (sign ++ word) = (negative, word) := by
      rcases isWord with hword | hword
      · exact takeSign_append_word isSign hword (by decide) (by decide)
      · exact takeSign_append_word isSign hword (by decide) (by decide)
    simp only [hsign]
    rw [if_pos isWord]
  | @nan negative sign word isSign isWord =>
    have hsign := takeSign_append_word isSign isWord (by decide) (by decide)
    simp only [hsign]
    rw [isWord, if_neg (by decide), if_pos rfl]
  | @number negative sign cs q _ isSign isNumber rounds =>
    obtain ⟨c, r, rfl, hc⟩ := isNumber.exists_cons
    obtain ⟨hminus, hplus, hi, hn⟩ := toLower_of_isDigit_or_point hc
    have hsign := takeSign_append isSign hminus hplus r
    obtain ⟨d, rest, htaken, hsuffix, hmagnitude⟩ := Decimal.leading?_append isNumber negative []
    rw [List.suffix_nil.1 hsuffix, List.append_nil] at htaken
    have hrounds := Decimal.rounds_of_leading? htaken
    rw [hmagnitude rfl] at hrounds
    simp only [hsign, htaken, List.map_cons]
    rw [if_neg (by simp [hi]), if_neg (by simp [hn])]
    simp [rounds.unique hrounds]

/-- A text is read as a double exactly if it is one as a whole. -/
theorem parse?_eq_some_iff {cs : List Char} {x : Binary64} : Binary64.parse? cs = some x ↔ DoubleText x cs :=
  ⟨doubleText_of_parse?, DoubleText.parse?⟩

/-- The number in front of a text, found by byte positions.  After the sign the text is cut to compare it with
`Infinity`; then positions move over digits, a fraction and a power, and what lies before the last one is cut off and
read as a whole. -/
def Binary64.readBytes? (s : List Char) : Option Binary64 :=
  let bytes := utf8 s
  let start := if bytes.head?.any (isEitherByte '+' '-') then 1 else 0
  (cutAt? s start).bind fun parts =>
    if "Infinity".toList.isPrefixOf parts.2 then
      bytes[0]?.map fun first => .infinity (first = asciiByte '-')
    else
      (literalEnd? bytes start).bind fun
        | none => some .nan
        | some stop => (cutAt? s stop).bind fun parts => parse? parts.1

/-! ### Positions between characters -/

private theorem utf8_append (p r : List Char) : utf8 (p ++ r) = utf8 p ++ utf8 r := List.flatMap_append

private theorem cutAt?_length (p r : List Char) : cutAt? (p ++ r) (utf8 p).length = some (p, r) := by
  induction p with
  | nil => cases r <;> rfl
  | cons c p ih =>
    have hlength : (utf8 (c :: p)).length = c.utf8Size + (utf8 p).length := by
      simp [utf8, String.length_utf8EncodeChar]
    have hpos := c.utf8Size_pos
    obtain ⟨n, hn⟩ : ∃ n, c.utf8Size + (utf8 p).length = n + 1 := ⟨_, (Nat.succ_pred_eq_of_pos (by omega)).symm⟩
    rw [hlength, hn, List.cons_append, cutAt?, if_pos (by omega), ← hn, Nat.add_sub_cancel_left, ih]
    rfl

/-- The first byte of a character is the character itself, or beyond all characters of one byte. -/
private theorem exists_head_utf8 (c : Char) (r : List Char) :
    ∃ b, (utf8 (c :: r)).head? = some b ∧ (c.toNat < 128 ∧ b = asciiByte c ∨ 128 ≤ c.toNat ∧ 128 ≤ b.toNat) := by
  have hval : c.toNat = c.val.toNat := rfl
  rw [utf8, List.flatMap_cons, String.utf8EncodeChar]
  split
  · exact ⟨_, rfl, .inl ⟨by omega, rfl⟩⟩
  · split
    · refine ⟨_, rfl, .inr ⟨by omega, ?_⟩⟩
      rw [UInt8.toNat_ofNat']
      omega
    · split
      · refine ⟨_, rfl, .inr ⟨by omega, ?_⟩⟩
        rw [UInt8.toNat_ofNat']
        omega
      · refine ⟨_, rfl, .inr ⟨by omega, ?_⟩⟩
        rw [UInt8.toNat_ofNat']
        omega

private theorem toNat_asciiByte {c : Char} (h : c.toNat < 128) : (asciiByte c).toNat = c.toNat := by
  rw [asciiByte, UInt8.toNat_ofNat']
  omega

private theorem toNat_lt_of_isDigit {c : Char} (h : isDigit c = true) : c.toNat < 128 := by
  have hrange := isDigit_iff.1 h
  omega

private theorem isDigitByte_iff {b : UInt8} : isDigitByte b = true ↔ 48 ≤ b.toNat ∧ b.toNat ≤ 57 := by
  unfold isDigitByte
  rw [Bool.and_eq_true, decide_eq_true_eq, decide_eq_true_eq]
  exact Iff.rfl

private theorem any_head_isDigitByte (c : Char) (r : List Char) :
    (utf8 (c :: r)).head?.any isDigitByte = isDigit c := by
  obtain ⟨b, hb, hcases⟩ := exists_head_utf8 c r
  rw [hb, Option.any_some, Bool.eq_iff_iff, isDigitByte_iff, isDigit_iff]
  rcases hcases with ⟨hc, rfl⟩ | ⟨hc, hlarge⟩
  · rw [toNat_asciiByte hc]
  · omega

/-- A first byte is that of a given character of one byte only if that is the first character. -/
private theorem eq_asciiByte_iff {c : Char} {r : List Char} {b : UInt8} (hb : (utf8 (c :: r)).head? = some b) {a : Char}
    (ha : a.toNat < 128) : b = asciiByte a ↔ c = a := by
  obtain ⟨b', hb', hcases⟩ := exists_head_utf8 c r
  rw [hb] at hb'
  cases hb'
  rw [← UInt8.toNat_inj, toNat_asciiByte ha, ← Char.toNat_inj]
  rcases hcases with ⟨hc, rfl⟩ | ⟨hc, hlarge⟩
  · rw [toNat_asciiByte hc]
  · omega

private theorem any_head_point (c : Char) (r : List Char) :
    (utf8 (c :: r)).head?.any (· = asciiByte '.') = decide (c = '.') := by
  obtain ⟨b, hb, -⟩ := exists_head_utf8 c r
  rw [hb, Option.any_some, decide_eq_decide]
  exact eq_asciiByte_iff hb (by decide)

private theorem any_head_isEitherByte {a a' : Char} (ha : a.toNat < 128) (ha' : a'.toNat < 128) (c : Char)
    (r : List Char) :
    (utf8 (c :: r)).head?.any (isEitherByte a a') = decide (c = a ∨ c = a') := by
  obtain ⟨b, hb, -⟩ := exists_head_utf8 c r
  rw [hb, Option.any_some, isEitherByte, Bool.decide_or, decide_eq_decide.2 (eq_asciiByte_iff hb ha),
    decide_eq_decide.2 (eq_asciiByte_iff hb ha')]

private theorem testAt?_length (p r : List Char) (test : UInt8 → Bool) :
    testAt? (utf8 (p ++ r)) (utf8 p).length test = some ((utf8 r).head?.any test) := by
  rw [testAt?, utf8_append]
  split
  · rename_i hlt
    rw [List.getElem?_append_right le_rfl, Nat.sub_self]
    cases hr : utf8 r with
    | nil => simp [hr] at hlt
    | cons b bs => rfl
  · rename_i hge
    have hnil : utf8 r = [] := List.length_eq_zero_iff.1 (by rw [List.length_append] at hge; omega)
    rw [hnil]
    rfl

/-- Behind a part of a text, and behind one more character of one byte. -/
private theorem length_utf8_concat (p : List Char) {c : Char} (hc : c.toNat < 128) :
    (utf8 (p ++ [c])).length = (utf8 p).length + 1 := by
  have hsize : c.utf8Size = 1 := Char.utf8Size_eq_one_iff.2 (UInt32.le_iff_toNat_le.2 (Nat.le_of_lt_succ hc))
  rw [utf8_append, List.length_append]
  simp [utf8, String.length_utf8EncodeChar, hsize]

private theorem length_utf8_digits (p : List Char) {ds : List Char} (h : AllDigits ds) :
    (utf8 (p ++ ds)).length = (utf8 p).length + ds.length := by
  induction ds generalizing p with
  | nil => simp
  | cons d ds ih =>
    have hd := toNat_lt_of_isDigit (h d List.mem_cons_self)
    have hds := ih (p ++ [d]) fun e he => h e (List.mem_cons_of_mem d he)
    rw [List.append_assoc, List.singleton_append, length_utf8_concat p hd] at hds
    rw [hds, List.length_cons]
    omega

/-- From behind a part of a text, digits end behind those that follow it. -/
private theorem digitsEnd?_length (p r : List Char) :
    digitsEnd? (utf8 (p ++ r)) (utf8 p).length = some (utf8 (p ++ r.takeWhile isDigit)).length := by
  induction r generalizing p with
  | nil =>
    rw [digitsEnd?, List.append_nil, if_neg (lt_irrefl _)]
    simp
  | cons c r ih =>
    have htest := testAt?_length p (c :: r) isDigitByte
    rw [any_head_isDigitByte] at htest
    have hlt : (utf8 p).length < (utf8 (p ++ c :: r)).length := by
      obtain ⟨b, hb, -⟩ := exists_head_utf8 c r
      obtain ⟨bs, hbs⟩ := List.head?_eq_some_iff.1 hb
      simp [utf8_append, hbs]
    rw [digitsEnd?, if_pos hlt, htest, Option.bind_some]
    by_cases hc : isDigit c = true
    · have hnext := ih (p ++ [c])
      rw [List.append_assoc, List.singleton_append, length_utf8_concat p (toNat_lt_of_isDigit hc), List.append_assoc,
        List.singleton_append] at hnext
      rw [if_pos hc, hnext, List.takeWhile_cons_of_pos hc]
    · rw [if_neg hc, List.takeWhile_cons_of_neg hc, List.append_nil]

/-- Behind a part of a text, the sign that follows it is passed over. -/
private theorem exists_sign_end (p r : List Char) :
    ∃ sign, r = sign ++ (takeSign r).2 ∧ SignText (takeSign r).1 sign ∧
      (if (utf8 r).head?.any (isEitherByte '+' '-') then (utf8 p).length + 1 else (utf8 p).length) =
        (utf8 (p ++ sign)).length := by
  unfold takeSign
  split
  · refine ⟨['-'], rfl, .minus, ?_⟩
    rw [any_head_isEitherByte (by decide) (by decide), if_pos (by decide), length_utf8_concat p (by decide)]
  · refine ⟨['+'], rfl, .plus, ?_⟩
    rw [any_head_isEitherByte (by decide) (by decide), if_pos (by decide), length_utf8_concat p (by decide)]
  · rename_i hminus hplus
    refine ⟨[], rfl, .none, ?_⟩
    rw [List.append_nil]
    cases r with
    | nil => rfl
    | cons c r =>
      have hc : ¬ (c = '+' ∨ c = '-') := by
        rintro (rfl | rfl)
        · exact hplus r rfl
        · exact hminus r rfl
      rw [any_head_isEitherByte (by decide) (by decide), if_neg (by simpa using hc)]

/-- Behind digits, a point with the digits that follow it is passed over unless there is no digit at all. -/
private theorem fractionEnd?_length (p : List Char) {ds : List Char} (hall : AllDigits ds) (r : List Char) :
    ∃ point, r = point ++ (takeFraction r).2 ∧
      fractionEnd? (utf8 (p ++ ds ++ r)) (utf8 p).length (utf8 (p ++ ds)).length =
        some (if 0 < ds.length + (takeFraction r).1.length then (utf8 (p ++ ds ++ point)).length
          else (utf8 (p ++ ds)).length, ds.length + (takeFraction r).1.length) := by
  have hcount : (utf8 (p ++ ds)).length - (utf8 p).length = ds.length := by
    rw [length_utf8_digits p hall]
    omega
  rw [fractionEnd?, testAt?_length, Option.bind_some]
  by_cases hpoint : ∃ r', r = '.' :: r'
  · obtain ⟨r', rfl⟩ := hpoint
    have hfraction : AllDigits (r'.takeWhile isDigit) := fun d hd => List.mem_takeWhile_imp hd
    have hbehind := length_utf8_concat (p ++ ds) (c := '.') (by decide)
    have hend := digitsEnd?_length (p ++ ds ++ ['.']) r'
    have hlength := length_utf8_digits (p ++ ds ++ ['.']) hfraction
    rw [List.append_assoc (p ++ ds), List.singleton_append, hbehind] at hend
    refine ⟨'.' :: r'.takeWhile isDigit, ?_, ?_⟩
    · rw [takeFraction_point, List.cons_append, List.takeWhile_append_dropWhile]
    · have hdigits : (utf8 (p ++ ds ++ ['.'] ++ r'.takeWhile isDigit)).length - (utf8 (p ++ ds)).length - 1 =
          (r'.takeWhile isDigit).length := by omega
      rw [any_head_point, if_pos (by decide), hend, takeFraction_point]
      simp only [Option.map_some]
      rw [hcount, hdigits, List.append_assoc (p ++ ds), List.singleton_append]
  · have hnot := not_exists.1 hpoint
    refine ⟨[], ?_, ?_⟩
    · rw [takeFraction_of_not_point hnot, List.nil_append]
    · have htest : (utf8 r).head?.any (· = asciiByte '.') = false := by
        cases r with
        | nil => rfl
        | cons c r =>
          rw [any_head_point, decide_eq_false_iff_not]
          rintro rfl
          exact hnot r rfl
      rw [htest, takeFraction_of_not_point hnot, List.append_nil, ite_self, hcount]
      rfl

/-- Behind a part of a text, the power that follows it is passed over. -/
private theorem powerEnd?_length (p r : List Char) :
    ∃ power, r = power ++ (takePower r).2 ∧
      powerEnd? (utf8 (p ++ r)) (utf8 p).length = some (utf8 (p ++ power)).length := by
  rw [powerEnd?, testAt?_length, Option.bind_some]
  by_cases hmark : ∃ mark r', r = mark :: r' ∧ (mark = 'e' ∨ mark = 'E')
  · obtain ⟨mark, r, rfl, hmark⟩ := hmark
    have hsmall : mark.toNat < 128 := by rcases hmark with rfl | rfl <;> decide
    have hdigits : AllDigits ((takeSign r).2.takeWhile isDigit) := fun d hd => List.mem_takeWhile_imp hd
    have hbehind := length_utf8_concat p hsmall
    obtain ⟨sign, hsplit, -, hstart⟩ := exists_sign_end (p ++ [mark]) r
    have hsigned := testAt?_length (p ++ [mark]) r (isEitherByte '+' '-')
    have hend := digitsEnd?_length (p ++ [mark] ++ sign) (takeSign r).2
    have hlength := length_utf8_digits (p ++ [mark] ++ sign) hdigits
    rw [List.append_assoc (p ++ [mark]), ← hsplit, List.append_assoc p, List.singleton_append] at hend
    rw [List.append_assoc p, List.singleton_append, hbehind] at hsigned
    rw [hbehind] at hstart
    rw [any_head_isEitherByte (by decide) (by decide), if_pos (by simpa using hmark), hsigned, Option.bind_some,
      takePower_of_mark hmark]
    simp only
    rw [hstart, hend, Option.map_some, hlength]
    by_cases hnone : (takeSign r).2.takeWhile isDigit = []
    · refine ⟨[], ?_, ?_⟩
      · rw [if_pos (by simp [hnone]), List.nil_append]
      · rw [hnone, if_neg (by simp), List.append_nil]
    · refine ⟨mark :: (sign ++ (takeSign r).2.takeWhile isDigit), ?_, ?_⟩
      · rw [if_neg (by simp [hnone]), List.cons_append, List.append_assoc, List.takeWhile_append_dropWhile, ← hsplit]
      · have hpos := List.length_pos_iff.2 hnone
        rw [if_pos (by omega), ← hlength, List.append_assoc (p ++ [mark]), List.append_assoc p, List.singleton_append]
  · have hnot : ∀ c r', r = c :: r' → ¬ (c = 'e' ∨ c = 'E') := fun c r' hr hc => hmark ⟨c, r', hr, hc⟩
    have htest : (utf8 r).head?.any (isEitherByte 'e' 'E') = false := by
      cases r with
      | nil => rfl
      | cons c r => rw [any_head_isEitherByte (by decide) (by decide), decide_eq_false (hnot c r rfl)]
    refine ⟨[], ?_, ?_⟩
    · rw [takePower_of_not_mark hnot, List.nil_append]
    · rw [htest, List.append_nil]
      rfl

/-- Behind a part of a text, the literal that is taken off what follows is passed over, if there is one. -/
theorem literalEnd?_length (negative : Bool) (p cs : List Char) :
    Decimal.leading? negative cs = none ∧ literalEnd? (utf8 (p ++ cs)) (utf8 p).length = some none ∨
      ∃ x literal rest, Decimal.leading? negative cs = some (x, rest) ∧ cs = literal ++ rest ∧
        literalEnd? (utf8 (p ++ cs)) (utf8 p).length = some (some (utf8 (p ++ literal)).length) := by
  have hwhole := digitsEnd?_length p cs
  have hall : AllDigits (cs.takeWhile isDigit) := fun d hd => List.mem_takeWhile_imp hd
  have hcs := List.takeWhile_append_dropWhile (p := isDigit) (l := cs)
  rw [Decimal.leading?_eq]
  generalize cs.takeWhile isDigit = whole at hwhole hall hcs ⊢
  generalize cs.dropWhile isDigit = r at hcs ⊢
  subst hcs
  obtain ⟨point, hpoint, hfraction⟩ := fractionEnd?_length p hall r
  obtain ⟨power, hpower, hstop⟩ := powerEnd?_length (p ++ whole ++ point) (takeFraction r).2
  rw [List.append_assoc (p ++ whole), ← hpoint] at hstop
  rw [List.append_assoc p] at hfraction hstop
  rw [literalEnd?, hwhole, Option.bind_some, hfraction, Option.bind_some]
  by_cases hnone : (whole ++ (takeFraction r).1).isEmpty = true
  · refine .inl ⟨if_pos hnone, if_pos (by simpa using hnone)⟩
  · have hpos : 0 < whole.length + (takeFraction r).1.length := by
      rw [← List.length_append]
      exact List.length_pos_iff.2 (by simpa using hnone)
    refine .inr ⟨_, whole ++ (point ++ power), _, if_neg hnone, ?_, ?_⟩
    · rw [List.append_assoc, List.append_assoc, ← hpower, ← hpoint]
    · rw [if_neg hpos.ne', if_pos hpos, hstop]
      simp

namespace Binary64

private theorem takeSign_cons_fst (c : Char) (r : List Char) : (takeSign (c :: r)).1 = decide (c = '-') := by
  unfold takeSign
  split <;> simp_all

/-- The first byte tells the sign of an infinity. -/
private theorem infinity_of_first_byte {s : List Char} (h : s ≠ []) :
    (utf8 s)[0]?.map (fun first => infinity (first = asciiByte '-')) = some (.infinity (takeSign s).1) := by
  obtain ⟨c, r, rfl⟩ := List.exists_cons_of_ne_nil h
  obtain ⟨b, hb, -⟩ := exists_head_utf8 c r
  rw [← List.head?_eq_getElem?, hb, Option.map_some, takeSign_cons_fst,
    decide_eq_decide.2 (eq_asciiByte_iff hb (by decide))]

/-- What is passed over as a literal behind a sign is a number as a whole. -/
private theorem parse?_literal {negative : Bool} {sign literal rest : List Char} {x : Decimal}
    (hsign : SignText negative sign) (h : Decimal.leading? negative (literal ++ rest) = some (x, rest)) :
    parse? (sign ++ literal) = some x.toBinary64 := by
  obtain ⟨literal', hliteral, htext, -⟩ := Decimal.exists_literal_of_leading? h
  obtain rfl : literal = literal' := List.append_cancel_right hliteral
  exact parse?_eq_some_iff.2 (.number hsign htext.numberText (Decimal.rounds_of_leading? h))

/-- The number in front of a text can be found by byte positions: every look and cut is possible, and the piece cut off
is a number as a whole. -/
theorem readBytes?_eq_ofText (text : String) :
    readBytes? (text.toList.dropWhile isBlank) = some (ofText text) := by
  unfold readBytes? ofText
  generalize text.toList.dropWhile isBlank = s
  simp only
  obtain ⟨sign, hsplit, hsign, hstart⟩ := exists_sign_end [] s
  have hcut : ∀ p r, s = p ++ r → cutAt? s (utf8 p).length = some (p, r) := by
    rintro p r rfl
    exact cutAt?_length p r
  have hzero : (utf8 []).length = 0 := rfl
  rw [hzero, Nat.zero_add, List.nil_append] at hstart
  rw [hstart, hcut sign _ hsplit, Option.bind_some]
  by_cases hword : "Infinity".toList.isPrefixOf (takeSign s).2 = true
  · have hne : s ≠ [] := by
      rintro rfl
      revert hword
      decide
    rw [if_pos hword, if_pos hword, infinity_of_first_byte hne]
  · rw [if_neg hword, if_neg hword]
    have hend := literalEnd?_length (takeSign s).1 sign (takeSign s).2
    rw [← hsplit] at hend
    rcases hend with ⟨hleading, hend⟩ | ⟨x, literal, rest, hleading, hrest, hend⟩
    · rw [hleading, hend]
      rfl
    · have hpiece : s = sign ++ literal ++ rest := by rw [List.append_assoc, ← hrest, ← hsplit]
      rw [hleading, hend, Option.bind_some]
      simp only
      rw [hcut _ _ hpiece, Option.bind_some]
      rw [hrest] at hleading
      exact parse?_literal hsign hleading

/-- A longest numeral in front of a text, if there is a numeral at all. -/
private theorem exists_longest {s : List Char} (h : ∃ p negative q, p <+: s ∧ Numeral negative q p) :
    ∃ p, LongestNumeral s p := by
  cases hscan : scan? s with
  | none =>
    obtain ⟨p, negative, q, hbegins, hp⟩ := h
    exact absurd hp (scan?_eq_none_iff.1 hscan p negative q hbegins)
  | some taken =>
    obtain ⟨x, rest⟩ := taken
    obtain ⟨p, negative, q, hsplit, hp, -⟩ := exists_numeral_of_scan? hscan
    refine ⟨p, ⟨rest, hsplit.symm⟩, ⟨negative, q, hp⟩, ?_⟩
    rintro p' negative' q' ⟨after, rfl⟩ hp'
    -- what is taken leaves no more than is behind any numeral
    obtain ⟨x', rest', htaken, hsuffix, -⟩ := scan?_append hp' after
    rw [hscan] at htaken
    cases htaken
    have hlengths := congrArg List.length hsplit
    have hle := hsuffix.length_le
    rw [List.length_append, List.length_append] at hlengths
    omega

/-- A text without a numeral in front, white space apart, is not a number; any other text has the value of the longest
numeral in front.  Reading it by byte positions looks at no byte beyond the end and cuts only between characters, and
the piece cut off is always a number as a whole. -/
theorem ofText_longest (text : String) :
    ((∀ p negative q, p <+: text.toList.dropWhile isBlank → ¬ Numeral negative q p) → ofText text = .nan) ∧
    ((∃ p negative q, p <+: text.toList.dropWhile isBlank ∧ Numeral negative q p) →
      ∃ p, LongestNumeral (text.toList.dropWhile isBlank) p ∧
        ∀ negative q, Numeral negative q p → IsValue negative q (ofText text)) ∧
    readBytes? (text.toList.dropWhile isBlank) = some (ofText text) := by
  refine ⟨fun hnone => ?_, fun hsome => ?_, readBytes?_eq_ofText text⟩
  · rw [ofText_eq_scan?, scan?_eq_none_iff.2 hnone]
    rfl
  · obtain ⟨p, hp⟩ := exists_longest hsome
    refine ⟨p, hp, fun negative q hnumeral => ?_⟩
    obtain ⟨x, rest, -, hscan, hvalue⟩ := scan?_eq_of_longest hp hnumeral
    rw [ofText_eq_scan?, hscan]
    exact hvalue

/-- A point without digits behind it belongs to the number, a mark of a power without digits does not. -/
theorem ofText_longest_tentative :
    (∃ p, LongestNumeral "-5.e+é".toList p ∧
      ∀ negative q, Numeral negative q p → IsValue negative q (ofText "\t -5.e+é")) ∧
    ofText "+é.5" = .nan := by
  have hblank : "\t -5.e+é".toList.dropWhile isBlank = "-5.e+é".toList := by decide
  have hdigits : AllDigits ['5'] := List.forall_mem_singleton.2 rfl
  have hliteral := LiteralText.pointed (List.cons_ne_nil _ _) hdigits (List.forall_mem_nil _) .none
  have htentative := (ofText_longest "\t -5.e+é").2.1
  rw [hblank] at htentative
  refine ⟨htentative ⟨_, _, _, ⟨"e+é".toList, rfl⟩, .literal .minus hliteral⟩, ?_⟩
  exact (ofText_longest "+é.5").1 (scan?_eq_none_iff.1 rfl)

end Binary64

end SchemaDecl
