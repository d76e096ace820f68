import SchemaDecl.Proofs.Scanning

/-!
# The spelling of tokens

Which characters spell a token: a string may be written with any escapes, a number with either exponent letter.  White
space may stand before and after every token (`Token.Spelled`).  A text is cut into the tokens that it spells
(`Token.run_spelled`).
-/

namespace SchemaDecl.Json

/-! ### Strings -/

/-- A part of a string: a character as it is, a short escape, or four hexadecimal digits. -/
inductive Piece.Spelling : Piece → List Char → Prop
  | plain {c : Char} (hquote : c ≠ '"') (hslash : c ≠ '\\') (h : 0x20 ≤ c.toNat) : Spelling (.char c) [c]
  | short {letter c : Char} (h : shortEscape? letter = some c) : Spelling (.char c) ['\\', letter]
  | unit {d₃ d₂ d₁ d₀ : Char} {code : Nat} (h : hexDigitsValue? [d₃, d₂, d₁, d₀] = some code) :
    Spelling (.unit code) ['\\', 'u', d₃, d₂, d₁, d₀]

/-- The characters between the quotes of a string. -/
inductive Piece.Spelled : List Piece → List Char → Prop
  | nil : Spelled [] []
  | cons {p : Piece} {ps : List Piece} {cs ds : List Char} (head : p.Spelling cs) (tail : Spelled ps ds) :
    Spelled (p :: ps) (cs ++ ds)

private theorem utf8Size_of_hexValue? {c : Char} {n : Nat} (h : hexValue? c = some n) : c.utf8Size = 1 := by
  have hle : c ≤ 'f' := by
    rw [hexValue?] at h
    split at h
    · rename_i hdigit
      simp only [isDigit, Bool.and_eq_true, decide_eq_true_eq] at hdigit
      exact Char.le_trans hdigit.2 (by decide)
    split at h
    · rename_i hlower
      exact hlower.2
    split at h
    · rename_i hupper
      exact Char.le_trans hupper.2 (by decide)
    · cases h
  have hval : c.val ≤ 0x7f := UInt32.le_trans hle (by decide)
  simp [Char.utf8Size, hval]

private theorem hexValue?_of_hexDigitsValue? {ds : List Char} {start code : Nat}
    (h : ds.foldlM (fun n d => (hexValue? d).map (16 * n + ·)) start = some code) :
    ∀ d ∈ ds, ∃ n, hexValue? d = some n := by
  induction ds generalizing start with
  | nil => exact fun d hd => absurd hd List.not_mem_nil
  | cons d ds ih =>
    cases hd : hexValue? d with
    | none => simp [hd] at h
    | some n =>
      rw [List.foldlM_cons, hd] at h
      exact List.forall_mem_cons.2 ⟨⟨n, hd⟩, ih h⟩

namespace Scan

private theorem run_of_step {s s' : Scan} {c : Char} {tokens : List Token} (h : s.step c = (some s', tokens))
    (cs : List Char) :
    run s (c :: cs) = tokens ++ run s' cs := by
  rw [run, h]

theorem run_piece {p : Piece} {cs : List Char} (h : p.Spelling cs) (done : List Piece) (rest : List Char) :
    run (.string done) (cs ++ rest) = run (.string (p :: done)) rest := by
  cases h with
  | @plain c hquote hslash h =>
    have hstep : (Scan.string done).step c = (some (.string (.char c :: done)), []) := by
      rw [step, if_neg hquote, if_neg hslash, if_neg (by omega)]
    exact run_of_step hstep rest
  | @short letter c h =>
    have hu : letter ≠ 'u' := by
      rintro rfl
      cases h
    have hstep : (Scan.escape done).step letter = (some (.string (.char c :: done)), []) := by
      simp only [step, if_neg hu, h]
    exact (run_of_step (s := .string done) rfl _).trans (run_of_step hstep rest)
  | @unit d₃ d₂ d₁ d₀ code h =>
    have hsize : ∀ d ∈ [d₃, d₂, d₁, d₀], d.utf8Size = 1 := fun d hd =>
      (hexValue?_of_hexDigitsValue? h d hd).elim fun _ => utf8Size_of_hexValue?
    simp only [List.forall_mem_cons] at hsize
    obtain ⟨u₃, u₂, u₁, u₀, -⟩ := hsize
    -- the escape ends with the fourth digit, for each takes one byte
    have h₃ : (Scan.hex done []).step d₃ = (some (.hex done [d₃]), []) := by simp [step, stepHex, u₃]
    have h₂ : (Scan.hex done [d₃]).step d₂ = (some (.hex done [d₂, d₃]), []) := by simp [step, stepHex, u₃, u₂]
    have h₁ : (Scan.hex done [d₂, d₃]).step d₁ = (some (.hex done [d₁, d₂, d₃]), []) := by
      simp [step, stepHex, u₃, u₂, u₁]
    have h₀ : (Scan.hex done [d₁, d₂, d₃]).step d₀ = (some (.string (.unit code :: done)), []) := by
      simp [step, stepHex, u₃, u₂, u₁, u₀, h]
    show run (.string done) ('\\' :: 'u' :: d₃ :: d₂ :: d₁ :: d₀ :: rest) = _
    rw [run_of_step rfl, run_of_step rfl, run_of_step h₃, run_of_step h₂, run_of_step h₁, run_of_step h₀]
    rfl

theorem run_pieces {ps : List Piece} {cs : List Char} (h : Piece.Spelled ps cs) (done : List Piece) (rest : List Char) :
    run (.string done) (cs ++ rest) = run (.string (ps.reverse ++ done)) rest := by
  induction h generalizing done with
  | nil => rfl
  | cons head _ ih => rw [List.append_assoc, run_piece head, ih, List.reverse_cons, List.append_assoc]; rfl

end Scan

/-! ### Numbers -/

/-- The digits before the point: a zero alone, or digits that do not begin with one. -/
inductive NumberLiteral.IsWhole : List Char → Prop
  | zero : IsWhole ['0']
  | digits {d : Char} {ds : List Char} (hd : isDigit d = true) (hne : d ≠ '0') (hds : ∀ c ∈ ds, isDigit c = true) :
    IsWhole (d :: ds)

inductive NumberLiteral.FractionSpelling : List Char → List Char → Prop
  | none : FractionSpelling [] []
  | some {d : Char} {ds : List Char} (h : ∀ c ∈ d :: ds, isDigit c = true) : FractionSpelling (d :: ds) ('.' :: d :: ds)

/-- The power of ten; a positive one may have a sign. -/
inductive NumberLiteral.PowerSpelling : Option (Bool × List Char) → List Char → Prop
  | none : PowerSpelling none []
  | unsigned {e d : Char} {ds : List Char} (he : e = 'e' ∨ e = 'E') (h : ∀ c ∈ d :: ds, isDigit c = true) :
    PowerSpelling (some (false, d :: ds)) (e :: d :: ds)
  | signed {e d : Char} {ds : List Char} {negative : Bool} (he : e = 'e' ∨ e = 'E')
    (h : ∀ c ∈ d :: ds, isDigit c = true) :
    PowerSpelling (some (negative, d :: ds)) (e :: (if negative then '-' else '+') :: d :: ds)

inductive NumberLiteral.Spelling : NumberLiteral → List Char → Prop
  | mk {negative : Bool} {whole fraction : List Char} {power : Option (Bool × List Char)} {fs ps : List Char}
    (hwhole : IsWhole whole) (hfraction : FractionSpelling fraction fs) (hpower : PowerSpelling power ps) :
    Spelling ⟨negative, whole, fraction, power⟩ ((if negative then ['-'] else []) ++ whole ++ fs ++ ps)

/-- A character that cannot belong to a number that comes before it. -/
def endsNumber (c : Char) : Bool := !(isDigit c || c = '.' || c = 'e' || c = 'E')

namespace Scan

/-- The text does not go on with a number. -/
def NumberEnds (rest : List Char) : Prop := ∀ c, rest.head? = some c → endsNumber c = true

private theorem run_number_ends {x : NumberLiteral} {phase : NumberPhase} (hcomplete : phase.complete = true)
    {rest : List Char} (h : NumberEnds rest) : run (.number x phase) rest = .number x :: run .ground rest := by
  cases rest with
  | nil => rw [run, finish, if_pos hcomplete]; rfl
  | cons c rest =>
    have hc := h c rfl
    simp only [endsNumber, Bool.not_eq_true', Bool.or_eq_false_iff, decide_eq_false_iff_not] at hc
    obtain ⟨⟨⟨hdigit, hpoint⟩, hlower⟩, hupper⟩ := hc
    have hover : x.extend? phase c = none := by
      cases phase with
      | sign | point | mark | markSign => cases hcomplete
      | zero | whole | fraction | power =>
        simp [NumberLiteral.extend?, NumberLiteral.extend?.afterWhole, hdigit, hpoint, hlower, hupper]
    exact run_number_end hover ⟨hcomplete, fun hzero => by rw [hdigit] at hzero; cases hzero.2⟩ rest

private theorem run_extend {x y : NumberLiteral} {phase phase' : NumberPhase} {c : Char}
    (h : x.extend? phase c = some (y, phase')) (cs : List Char) :
    run (.number x phase) (c :: cs) = run (.number y phase') cs := by
  have hstep : (Scan.number x phase).step c = (some (.number y phase'), []) := by rw [step, stepNumber, h]
  rw [run_of_step hstep]
  rfl

/-- Digits extend one part of a number; `f` gives the number for the digits of this part. -/
private theorem run_digits {f : List Char → NumberLiteral} {phase : NumberPhase}
    (h : ∀ done d, isDigit d = true → (f done).extend? phase d = some (f (done ++ [d]), phase)) {ds : List Char}
    (hds : ∀ d ∈ ds, isDigit d = true) (done rest : List Char) :
    run (.number (f done) phase) (ds ++ rest) = run (.number (f (done ++ ds)) phase) rest := by
  induction ds generalizing done with
  | nil => rw [List.append_nil]; rfl
  | cons d ds ih =>
    obtain ⟨hd, hrest⟩ := List.forall_mem_cons.1 hds
    rw [List.cons_append, run_extend (h done d hd), ih hrest, List.append_assoc]
    rfl

variable {negative : Bool} {whole fraction : List Char} {phase : NumberPhase}

private theorem run_power {power : Option (Bool × List Char)} {ps : List Char}
    (h : NumberLiteral.PowerSpelling power ps)
    (hphase : phase = .zero ∨ phase = .whole ∨ phase = .fraction) {rest : List Char} (hrest : NumberEnds rest) :
    run (.number ⟨negative, whole, fraction, none⟩ phase) (ps ++ rest) =
      .number ⟨negative, whole, fraction, power⟩ :: run .ground rest := by
  have hmark : ∀ e, e = 'e' ∨ e = 'E' → (⟨negative, whole, fraction, none⟩ : NumberLiteral).extend? phase e =
      some (⟨negative, whole, fraction, none⟩, .mark) := by
    rintro e (rfl | rfl)
    · rcases hphase with rfl | rfl | rfl <;> rfl
    · rcases hphase with rfl | rfl | rfl <;> rfl
  have hdigits : ∀ (sign : Bool) (d : Char) (ds : List Char), (∀ c ∈ ds, isDigit c = true) →
      run (.number ⟨negative, whole, fraction, some (sign, [d])⟩ .power) (ds ++ rest) =
        .number ⟨negative, whole, fraction, some (sign, d :: ds)⟩ :: run .ground rest := by
    intro sign d ds hds
    rw [run_digits (f := fun done => ⟨negative, whole, fraction, some (sign, done)⟩) ?_ hds]
    · exact run_number_ends rfl hrest
    · intro done d hd
      simp [NumberLiteral.extend?, NumberLiteral.extend?.addPowerDigit, hd]
  cases h with
  | none =>
    refine run_number_ends ?_ hrest
    rcases hphase with rfl | rfl | rfl <;> rfl
  | @unsigned e d ds he h =>
    obtain ⟨hd, hds⟩ := List.forall_mem_cons.1 h
    have hplus : d ≠ '+' := by rintro rfl; exact absurd hd (by decide)
    have hminus : d ≠ '-' := by rintro rfl; exact absurd hd (by decide)
    have hfirst : (⟨negative, whole, fraction, none⟩ : NumberLiteral).extend? .mark d =
        some (⟨negative, whole, fraction, some (false, [d])⟩, .power) := by
      simp [NumberLiteral.extend?, hplus, hminus, hd]
    rw [List.cons_append, run_extend (hmark e he), List.cons_append, run_extend hfirst, hdigits false d ds hds]
  | @signed e d ds sign he h =>
    obtain ⟨hd, hds⟩ := List.forall_mem_cons.1 h
    have hsign : (⟨negative, whole, fraction, none⟩ : NumberLiteral).extend? .mark (if sign then '-' else '+') =
        some (⟨negative, whole, fraction, some (sign, [])⟩, .markSign) := by
      cases sign <;> rfl
    have hfirst : (⟨negative, whole, fraction, some (sign, [])⟩ : NumberLiteral).extend? .markSign d =
        some (⟨negative, whole, fraction, some (sign, [d])⟩, .power) := by
      simp [NumberLiteral.extend?, NumberLiteral.extend?.addPowerDigit, hd]
    rw [List.cons_append, run_extend (hmark e he), List.cons_append, run_extend hsign, List.cons_append,
      run_extend hfirst, hdigits sign d ds hds]

-- A number is read in three parts, the last one first: each of these lemmas ends with the whole number.
private theorem run_fraction {power : Option (Bool × List Char)} {fs ps : List Char}
    (hfraction : NumberLiteral.FractionSpelling fraction fs) (hpower : NumberLiteral.PowerSpelling power ps)
    (hphase : phase = .zero ∨ phase = .whole) {rest : List Char} (hrest : NumberEnds rest) :
    run (.number ⟨negative, whole, [], none⟩ phase) (fs ++ (ps ++ rest)) =
      .number ⟨negative, whole, fraction, power⟩ :: run .ground rest := by
  cases hfraction with
  | none =>
    exact run_power hpower (hphase.imp_right .inl) hrest
  | @some d ds h =>
    obtain ⟨hd, hds⟩ := List.forall_mem_cons.1 h
    have hpoint : (⟨negative, whole, [], none⟩ : NumberLiteral).extend? phase '.' =
        some (⟨negative, whole, [], none⟩, .point) := by
      rcases hphase with rfl | rfl <;> rfl
    have hfirst : (⟨negative, whole, [], none⟩ : NumberLiteral).extend? .point d =
        some (⟨negative, whole, [d], none⟩, .fraction) := by
      simp [NumberLiteral.extend?, hd]
    rw [List.cons_append, run_extend hpoint, List.cons_append, run_extend hfirst,
      run_digits (f := fun done => ⟨negative, whole, done, none⟩) ?_ hds]
    · exact run_power hpower (.inr (.inr rfl)) hrest
    · intro done d hd
      simp [NumberLiteral.extend?, hd]

/-- A digit other than zero begins a number. -/
private theorem step_digit {d : Char} (hd : isDigit d = true) (hzero : d ≠ '0') :
    Scan.ground.step d = (some (.number ⟨false, [d], [], none⟩ .whole), []) := by
  have hne : ∀ c, isDigit c = false → d ≠ c := by
    rintro c hc rfl
    rw [hd] at hc
    cases hc
  have hspace : ¬ isSpace d = true := by
    simp [isSpace, hne ' ' rfl, hne '\t' rfl, hne '\n' rfl, hne '\r' rfl]
  rw [step, stepGround, if_neg hspace, if_neg (hne _ rfl), if_neg (hne _ rfl), if_neg (hne _ rfl), if_neg (hne _ rfl),
    if_neg (hne _ rfl), if_neg (hne _ rfl), if_neg (hne _ rfl), if_neg (hne _ rfl), if_neg (hne _ rfl),
    if_neg (hne _ rfl), if_neg (hne _ rfl), if_neg hzero, if_pos hd]

theorem run_number {x : NumberLiteral} {cs : List Char} (h : x.Spelling cs) {rest : List Char}
    (hrest : NumberEnds rest) :
    run .ground (cs ++ rest) = .number x :: run .ground rest := by
  cases h with
  | @mk negative whole fraction power fs ps hwhole hfraction hpower =>
    rw [List.append_assoc, List.append_assoc]
    cases hwhole with
    | zero =>
      have hzero : ∀ cs, run .ground ((if negative then ['-'] else []) ++ ['0'] ++ cs) =
          run (.number ⟨negative, ['0'], [], none⟩ .zero) cs := by
        cases negative <;> exact fun cs => rfl
      rw [hzero]
      exact run_fraction hfraction hpower (.inl rfl) hrest
    | @digits d ds hd hne hds =>
      have hfirst : ∀ cs, run .ground ((if negative then ['-'] else []) ++ d :: cs) =
          run (.number ⟨negative, [d], [], none⟩ .whole) cs := by
        intro cs
        cases negative with
        | false => exact run_of_step (step_digit hd hne) cs
        | true =>
          have hextend : (⟨true, [], [], none⟩ : NumberLiteral).extend? .sign d =
              some (⟨true, [d], [], none⟩, .whole) := by
            simp [NumberLiteral.extend?, hne, hd]
          exact run_extend hextend cs
      rw [List.append_assoc, List.cons_append, hfirst,
        run_digits (f := fun done => ⟨negative, done, [], none⟩) ?_ hds]
      · exact run_fraction hfraction hpower (.inr rfl) hrest
      · intro done d hd
        simp [NumberLiteral.extend?, hd]

end Scan

/-! ### Tokens -/

namespace Token

/-- The characters of a token.  Marks and words have one spelling each. -/
inductive Spelling : Token → List Char → Prop
  | fixed {t : Token} (h : t.isMark = true ∨ t.isWord = true) : Spelling t t.render
  | number {x : NumberLiteral} {cs : List Char} (h : x.Spelling cs) : Spelling (.number x) cs
  | string {ps : List Piece} {cs : List Char} (h : Piece.Spelled ps cs) : Spelling (.string ps) ('"' :: cs ++ ['"'])

/-- The texts of tokens: white space may stand everywhere between them, and a number has to end. -/
inductive Spelled : List Token → List Char → Prop
  | nil : Spelled [] []
  | space {c : Char} {ts : List Token} {cs : List Char} (h : isSpace c = true) (tail : Spelled ts cs) :
    Spelled ts (c :: cs)
  | token {t : Token} {ts : List Token} {cs ds : List Char} (head : t.Spelling cs)
    (ends : ∀ x, t = .number x → Scan.NumberEnds ds) (tail : Spelled ts ds) : Spelled (t :: ts) (cs ++ ds)

theorem run_spelling {t : Token} {cs rest : List Char} (h : t.Spelling cs)
    (hrest : ∀ x, t = .number x → Scan.NumberEnds rest) :
    Scan.run .ground (cs ++ rest) = t :: Scan.run .ground rest := by
  cases h with
  | fixed h =>
    cases t with
    | boolean b => cases b <;> rfl
    | openObject | closeObject | openArray | closeArray | comma | colon | null => rfl
    | _ => simp [isMark, isWord] at h
  | number h => exact Scan.run_number h (hrest _ rfl)
  | @string ps cs h =>
    have hopen : Scan.ground.step '"' = (some (.string []), []) := rfl
    rw [List.cons_append, List.cons_append, List.append_assoc, Scan.run_of_step hopen, List.nil_append,
      Scan.run_pieces h, List.append_nil, List.singleton_append, Scan.run_of_step rfl, List.reverse_reverse]
    rfl

/-- A text is cut into the tokens that it spells. -/
theorem run_spelled {ts : List Token} {cs : List Char} (h : Spelled ts cs) : Scan.run .ground cs = ts := by
  induction h with
  | nil => rfl
  | @space c _ _ h _ ih =>
    have hstep : Scan.ground.step c = (some .ground, []) := by rw [Scan.step, Scan.stepGround, if_pos h]
    rw [Scan.run_of_step hstep, ih]
    rfl
  | token head ends _ ih => rw [run_spelling head ends, ih]

end Token

end SchemaDecl.Json
