import SchemaDecl.Json.Value
import SchemaDecl.Proofs.CutText
import SchemaDecl.Proofs.Reading

/-!
# Decoders and texts that end early

A decoder takes its tokens from left to right, so on the tokens of a text whose end is cut off it does what it does on
the whole text until it gets to the cut (`Decoder.Follows`).  There it stops and says that the text is cut short; only
where the cut is inside a number can it say that the text is malformed, or take what is left of the number for all of
it.  This passes from the parts of a decoder to the whole, through the elements of an array (`Follows.array`) and the
members of an object (`Follows.allMembers`), after which a bracket or a comma has to come.
-/

namespace SchemaDecl.Json

variable {inside loose : Prop}

/-- A fault that a cut can lead to. -/
def Fault.FromCut (inside : Prop) (fault : Fault) : Prop := fault = .truncated ∨ inside ∧ fault = .malformed

/-! ### Single tokens -/

private theorem exists_ok_of_map {ε α β : Type} {f : α → β} {x : Except ε α} {b : β} (h : x.map f = .ok b) :
    ∃ a, x = .ok a ∧ f a = b := by
  cases x with
  | error e => cases h
  | ok a => exact ⟨a, rfl, Except.ok.inj h⟩

namespace Piece

/-- A string that is not closed has no text. -/
private theorem decode_open (fault : Fault) (ps : List Piece) (cs : List Char) : decode (some fault) ps ≠ .ok cs := by
  intro h
  fun_induction decode (some fault) ps generalizing cs with
  | case1 hclose => cases hclose
  | case3 c ps ih | case7 u hu hlead v ps hv ih | case9 u ps hu hlead ih =>
    obtain ⟨cs', hcs', -⟩ := exists_ok_of_map h
    exact ih cs' hcs'
  | case2 | case4 | case5 | case6 | case8 => cases h

/-- What a string with a text begins with is cut short, also between two surrogates. -/
theorem decode_cut (fault : Fault) {ps qs : List Piece} {cs : List Char} (h : decode none (ps ++ qs) = .ok cs) :
    decode (some fault) ps = .error fault := by
  fun_induction decode (some fault) ps generalizing cs with
  | case1 hclose => cases hclose
  | case2 fault' hclose => cases hclose; rfl
  | case3 c ps ih =>
    rw [List.cons_append, decode] at h
    obtain ⟨cs', hcs', -⟩ := exists_ok_of_map h
    rw [ih hcs']
    rfl
  | case4 u ps hu =>
    rw [List.cons_append, decode.eq_def] at h
    simp [hu] at h
  | case5 u hu hlead => rfl
  | case6 u hu hlead c ps =>
    rw [decode.eq_def] at h
    simp [hu, hlead] at h
  | case7 u hu hlead v ps hv ih =>
    rw [decode.eq_def] at h
    simp only [List.cons_append, hu, hlead, hv, if_true] at h
    obtain ⟨cs', hcs', -⟩ := exists_ok_of_map h
    rw [ih hcs']
    rfl
  | case8 u hu hlead v ps hv =>
    rw [decode.eq_def] at h
    simp [hu, hlead, hv] at h
  | case9 u ps hu hlead ih =>
    rw [decode.eq_def] at h
    simp only [List.cons_append, hu, hlead] at h
    obtain ⟨cs', hcs', -⟩ := exists_ok_of_map h
    rw [ih hcs']
    rfl

end Piece

namespace Token

private theorem LeftOver.isMark_eq {t u : Token} (h : t.LeftOver inside u) : t.isMark = false ∧ u.isMark = false := by
  cases h with
  | word hword => cases t <;> simp_all [isMark, isWord]
  | broken ht hu => cases t <;> simp_all [isMark, isBroken]
  | _ => exact ⟨rfl, rfl⟩

private theorem text?_ok {t : Token} {s : String} (h : t.text? = some (.ok s)) :
    ∃ ps cs, t = .string ps ∧ Piece.decode none ps = .ok cs := by
  cases t with
  | string ps =>
    obtain ⟨cs, hcs, -⟩ := exists_ok_of_map (Option.some.inj h)
    exact ⟨ps, cs, rfl, hcs⟩
  | brokenString ps ended =>
    obtain ⟨cs, hcs, -⟩ := exists_ok_of_map (Option.some.inj h)
    exact absurd hcs (Piece.decode_open _ ps cs)
  | _ => cases h

private theorem text?_of_leftOver {t u : Token} {s : String} (h : t.text? = some (.ok s)) (hu : t.LeftOver inside u) :
    u.text? = some (.error .truncated) := by
  obtain ⟨ps, cs, rfl, hcs⟩ := text?_ok h
  cases hu with
  | word hword => cases hword
  | broken ht _ => cases ht
  | @string _ ps' hps =>
    obtain ⟨qs, rfl⟩ := hps
    show some ((Piece.decode (some .truncated) ps').map String.ofList) = _
    rw [Piece.decode_cut _ hcs]
    rfl

end Token

namespace Cut

variable {t m : Token} {ts us : List Token}

/-- A mark is kept or missing. -/
private theorem of_mark (h : Cut inside (m :: ts) us) (hm : m.isMark = true) :
    us = [] ∨ ∃ us', us = m :: us' ∧ Cut inside ts us' := by
  cases h with
  | before t ts => exact .inl rfl
  | after t h => exact .inr ⟨_, rfl, h⟩
  | within hu ts =>
    rw [hu.isMark_eq.1] at hm
    cases hm

/-- A cut puts no mark in the place of another token. -/
private theorem head_ne (h : Cut inside (t :: ts) us) (hm : m.isMark = true) (ht : t ≠ m) :
    us = [] ∨ ∃ u us', us = u :: us' ∧ u ≠ m := by
  cases h with
  | before t ts => exact .inl rfl
  | after t h => exact .inr ⟨_, _, rfl, ht⟩
  | within hu ts =>
    refine .inr ⟨_, _, rfl, ?_⟩
    rintro rfl
    rw [hu.isMark_eq.2] at hm
    cases hm

end Cut

namespace Decoder

variable {α β σ : Type}

/-! ### Following a cut -/

/-- What a decoder does on the tokens `us` that a cut leaves, when it reads the value `a` from the whole and leaves
`rest`: it reads the same value and leaves what the cut leaves of `rest`; or it takes what is left of a number for the
whole of it, and nothing remains; or it stops.  It takes at least `k` tokens unless it stops. -/
inductive Follows.Outcome (inside loose : Prop) (k : Nat) (d : Decoder α) (us : List Token) (a : α)
    (rest : List Token) : Prop
  | same {rest' : List Token} (h : d us = .ok (a, rest')) (cut : Cut inside rest rest')
    (taken : rest'.length + k ≤ us.length)
  | spent {a' : α} (allowed : loose) (h : d us = .ok (a', [])) (taken : k ≤ us.length)
  | stopped {fault : Fault} (h : d us = .error fault) (fromCut : fault.FromCut inside)

/-- On a text whose end is cut off, the decoder does what it does on the whole until it gets to the cut. -/
def Follows (inside loose : Prop) (k : Nat) (d : Decoder α) : Prop :=
  ∀ ⦃ts us : List Token⦄ ⦃a : α⦄ ⦃rest : List Token⦄, d ts = .ok (a, rest) → Cut inside ts us →
    Follows.Outcome inside loose k d us a rest

private theorem bind_of_error {d : Decoder α} {f : α → Decoder β} {ts : List Token} {fault : Fault}
    (h : d ts = .error fault) :
    (d >>= f) ts = .error fault := by
  show (d ts >>= fun p => f p.1 p.2) = .error fault
  rw [h]
  rfl

private theorem bind_eq_ok {d : Decoder α} {f : α → Decoder β} {ts rest : List Token} {b : β}
    (h : (d >>= f) ts = .ok (b, rest)) : ∃ a mid, d ts = .ok (a, mid) ∧ f a mid = .ok (b, rest) := by
  cases hd : d ts with
  | error fault => rw [bind_of_error hd] at h; cases h
  | ok p =>
    obtain ⟨a, mid⟩ := p
    exact ⟨a, mid, rfl, (bind_of_ok hd).symm.trans h⟩

namespace Follows

theorem pure (a : α) : Follows inside loose 0 (Pure.pure a) := by
  intro ts us b rest h hcut
  cases h
  exact .same rfl hcut (Nat.le_refl _)

theorem fail (fault : Fault) : Follows inside loose 0 (Decoder.fail fault : Decoder α) := by
  intro ts us a rest h
  cases h

/-- A computation on what has been read takes no tokens. -/
theorem lift (x : Except Fault α) : Follows inside loose 0 (x : Decoder α) := by
  intro ts us a rest h hcut
  cases x with
  | error fault => cases h
  | ok b =>
    cases h
    exact .same rfl hcut (Nat.le_refl _)

theorem weaken {loose' : Prop} {d : Decoder α} {k : Nat} (h : Follows inside loose k d) (himp : loose → loose') :
    Follows inside loose' 0 d := by
  intro ts us a rest hd hcut
  cases h hd hcut with
  | same h cut taken => exact .same h cut (by omega)
  | spent allowed h _ => exact .spent (himp allowed) h (Nat.zero_le _)
  | stopped h fromCut => exact .stopped h fromCut

/-- The outcome of one decoder after another. -/
private theorem Outcome.bind {d : Decoder α} {f : α → Decoder β} {j k : Nat} {us mid rest : List Token} {a : α} {b : β}
    (h : Outcome inside False j d us a mid)
    (hf : ∀ us', Cut inside mid us' → Outcome inside loose k (f a) us' b rest) :
    Outcome inside loose (j + k) (d >>= f) us b rest := by
  cases h with
  | spent allowed _ _ => exact allowed.elim
  | stopped h fromCut => exact .stopped (bind_of_error h) fromCut
  | same h cut taken =>
    cases hf _ cut with
    | same h' cut' taken' => exact .same ((bind_of_ok h).trans h') cut' (by omega)
    | spent allowed h' taken' => exact .spent allowed ((bind_of_ok h).trans h') (by omega)
    | stopped h' fromCut => exact .stopped ((bind_of_ok h).trans h') fromCut

theorem bind {d : Decoder α} {f : α → Decoder β} {k : Nat} (hd : Follows inside False k d)
    (hf : ∀ a, Follows inside loose 0 (f a)) : Follows inside loose k (d >>= f) := by
  intro ts us b rest h hcut
  obtain ⟨a, mid, hmid, hrest⟩ := bind_eq_ok h
  exact (hd hmid hcut).bind fun us' hus' => hf a hrest hus'

/-- Making something of what has been read changes nothing. -/
theorem map {d : Decoder α} {k : Nat} (hd : Follows inside loose k d) (g : α → β) :
    Follows inside loose k (d >>= fun a => Pure.pure (g a)) := by
  intro ts us b rest h hcut
  obtain ⟨a, mid, hmid, hrest⟩ := bind_eq_ok h
  cases hrest
  cases hd hmid hcut with
  | same h cut taken => exact .same (bind_of_ok h) cut taken
  | spent allowed h taken => exact .spent allowed (bind_of_ok h) taken
  | stopped h fromCut => exact .stopped (bind_of_error h) fromCut

/-- A decoder of single tokens follows a cut if it refuses what is left of a token that it takes. -/
theorem token {d : Decoder α} (hnil : d [] = .error .truncated)
    (htake : ∀ t ts a rest, d (t :: ts) = .ok (a, rest) → rest = ts ∧ (∀ us, d (t :: us) = .ok (a, us)) ∧
      ∀ u, t.LeftOver inside u → d [u] = .error .truncated) : Follows inside loose 1 d := by
  intro ts us a rest h hcut
  cases hcut with
  | before t ts => exact .stopped hnil (.inl rfl)
  | within hu ts =>
    obtain ⟨-, -, hleft⟩ := htake _ _ _ _ h
    exact .stopped (hleft _ hu) (.inl rfl)
  | after t hcut =>
    obtain ⟨rfl, hus, -⟩ := htake _ _ _ _ h
    exact .same (hus _) hcut (Nat.le_refl _)

/-- Where a bracket has to come first, what follows it decides. -/
theorem mark {d : Decoder α} (hnil : d [] = .error .truncated)
    (hmark : ∀ t ts a rest, d (t :: ts) = .ok (a, rest) → t.isMark = true ∧
      ∃ d', Follows inside False 0 d' ∧ ∀ us, d (t :: us) = d' us) : Follows inside False 1 d := by
  intro ts us a rest h hcut
  cases hcut with
  | before t ts => exact .stopped hnil (.inl rfl)
  | within hu ts =>
    obtain ⟨hmark, -⟩ := hmark _ _ _ _ h
    rw [hu.isMark_eq.1] at hmark
    cases hmark
  | after t hcut =>
    obtain ⟨-, d', hd', heq⟩ := hmark _ _ _ _ h
    rw [heq] at h
    cases hd' h hcut with
    | same h' cut taken => exact .same ((heq _).trans h') cut (by rw [List.length_cons]; omega)
    | spent allowed _ _ => exact allowed.elim
    | stopped h' fromCut => exact .stopped ((heq _).trans h') fromCut

/-! ### Scalars and brackets -/

theorem textAs (expected : String) : Follows inside loose 1 (Decoder.textAs expected) := by
  refine token rfl ?_
  intro t ts a rest h
  rw [Decoder.textAs] at h
  split at h
  · rename_i s hs
    cases h
    refine ⟨rfl, fun us => by rw [Decoder.textAs, hs], fun u hu => ?_⟩
    rw [Decoder.textAs, Token.text?_of_leftOver hs hu]
  · cases h
  · cases h

theorem key : Follows inside loose 1 Decoder.key := by
  refine token rfl ?_
  intro t ts a rest h
  rw [Decoder.key] at h
  split at h
  · rename_i s hs
    cases h
    refine ⟨rfl, fun us => by rw [Decoder.key, hs], fun u hu => ?_⟩
    rw [Decoder.key, Token.text?_of_leftOver hs hu]
  · cases h
  · cases h

theorem boolean : Follows inside loose 1 Decoder.boolean := by
  refine token rfl ?_
  intro t ts a rest h
  cases t with
  | boolean b =>
    cases h
    refine ⟨rfl, fun us => rfl, fun u hu => ?_⟩
    cases hu with
    | word _ => rfl
    | broken ht _ => cases ht
  | _ => cases h

theorem colon : Follows inside loose 1 Decoder.colon := by
  refine token rfl ?_
  intro t ts a rest h
  cases t with
  | colon =>
    cases h
    exact ⟨rfl, fun us => rfl, fun u hu => absurd hu.isMark_eq.1 nofun⟩
  | _ => cases h

theorem closeArray : Follows inside loose 1 Decoder.closeArray := by
  refine token rfl ?_
  intro t ts a rest h
  cases t with
  | closeArray =>
    cases h
    exact ⟨rfl, fun us => rfl, fun u hu => absurd hu.isMark_eq.1 nofun⟩
  | _ => cases h

theorem choice (choices : List (String × α)) : Follows inside loose 1 (Decoder.choice choices) := by
  refine bind (textAs _) fun name => ?_
  unfold choose
  split
  · exact pure _
  · exact fail _

theorem require (name : String) (o : Option α) : Follows inside loose 0 (Decoder.require name o) := by
  cases o with
  | none => exact fail _
  | some a => exact pure a

theorem requireElement (index : Nat) (expected : String) (o : Option α) :
    Follows inside loose 0 (Decoder.requireElement index expected o) := by
  cases o with
  | none => exact fail _
  | some a => exact pure a

theorem once {item : Decoder α} {k : Nat} (name : String) (earlier : Option α) (hitem : Follows inside loose k item) :
    Follows inside loose 0 (Decoder.once name earlier item) := by
  cases earlier with
  | some a => exact fail _
  | none => exact (bind colon fun _ => (hitem.weaken id).map some).weaken id

/-! ### Arrays -/

/-- After an element, another one follows a comma. -/
private theorem element?_false {t : Token} {ts rest : List Token} {more : Bool} (ht : t ≠ .closeArray)
    (h : Decoder.element? false (t :: ts) = .ok (more, rest)) :
    ∃ t' ts', t' ≠ .closeArray ∧ t = .comma ∧ ts = t' :: ts' ∧ more = true ∧ rest = t' :: ts' := by
  by_cases hcomma : t = .comma
  · subst hcomma
    cases ts with
    | nil => cases h
    | cons t' ts' =>
      by_cases ht' : t' = .closeArray
      · subst ht'
        cases h
      · rw [element?_comma ht'] at h
        cases h
        exact ⟨t', ts', ht', rfl, rfl, rfl, rfl⟩
  · cases t <;> simp_all [Decoder.element?]

theorem element? (first : Bool) : Follows inside loose 0 (Decoder.element? first) := by
  intro ts us more rest h hcut
  cases ts with
  | nil => cases h
  | cons t ts =>
    by_cases hclose : t = .closeArray
    · subst hclose
      cases h
      rcases hcut.of_mark rfl with rfl | ⟨us, rfl, -⟩
      · exact .stopped rfl (.inl rfl)
      · exact .same rfl hcut (Nat.le_refl _)
    cases first with
    | true =>
      rw [element?_first hclose] at h
      cases h
      rcases hcut.head_ne rfl hclose with rfl | ⟨u, us, rfl, hu⟩
      · exact .stopped rfl (.inl rfl)
      · exact .same (element?_first hu us) hcut (Nat.le_refl _)
    | false =>
      obtain ⟨t', ts', ht', rfl, rfl, rfl, rfl⟩ := element?_false hclose h
      rcases hcut.of_mark rfl with rfl | ⟨us, rfl, hafter⟩
      · exact .stopped rfl (.inl rfl)
      · rcases hafter.head_ne rfl ht' with rfl | ⟨u, us, rfl, hu⟩
        · exact .stopped rfl (.inl rfl)
        · exact .same (element?_comma hu us) hafter (by simp)

theorem optional {item : Decoder α} {k : Nat} (first : Bool) (hitem : Follows inside loose k item) :
    Follows inside loose 0 (Decoder.optional first item) := by
  refine bind (element? first) fun more => ?_
  cases more with
  | true => exact (hitem.weaken id).map some
  | false => exact pure none

private theorem elements_succ (item : Decoder α) (n : Nat) (first : Bool) :
    Decoder.elements item (n + 1) first = (Decoder.element? first >>= fun more =>
      if more = true then item >>= fun a => Decoder.elements item n false >>= fun as => Pure.pure (a :: as)
      else Pure.pure []) := by
  rw [Decoder.elements, Decoder.optional, bind_assoc]
  congr 1
  funext more
  cases more <;> simp

/-- An element takes a token and the next one needs a comma, so the tokens that are left bound their number, and what
is left of a number is not the end of the array. -/
private theorem elements {item : Decoder α} (hitem : Follows inside loose 1 item) {n m : Nat} {first : Bool}
    {ts us rest : List Token} {as : List α} (h : Decoder.elements item n first ts = .ok (as, rest))
    (hcut : Cut inside ts us) (hm : us.length < m) :
    Outcome inside False 0 (Decoder.elements item m first) us as rest := by
  induction n generalizing m first ts us as with
  | zero => cases h
  | succ n ih =>
    obtain ⟨m, rfl⟩ : ∃ m', m = m' + 1 := ⟨m - 1, by omega⟩
    rw [elements_succ] at h ⊢
    obtain ⟨more, mid, hmore, hmid⟩ := bind_eq_ok h
    have helement : Outcome inside False 0 (Decoder.element? first) us more mid := element? first hmore hcut
    cases helement with
    | spent allowed _ _ => exact allowed.elim
    | stopped h' fromCut => exact .stopped (bind_of_error h') fromCut
    | same h' cut taken =>
      cases more with
      | false =>
        cases hmid
        exact .same (bind_of_ok h') cut taken
      | true =>
        obtain ⟨a, mid', ha, hmid'⟩ := bind_eq_ok hmid
        obtain ⟨as', rest', has', hrest'⟩ := bind_eq_ok hmid'
        cases hrest'
        cases hitem ha cut with
        | stopped h'' fromCut => exact .stopped ((bind_of_ok h').trans (bind_of_error h'')) fromCut
        | spent allowed h'' taken' =>
          -- nothing is left behind the piece of a number, so the next round finds the text cut short
          obtain ⟨m, rfl⟩ : ∃ m', m = m' + 1 := ⟨m - 1, by omega⟩
          exact .stopped ((bind_of_ok h').trans (bind_of_ok h'')) (.inl rfl)
        | same h'' cut' taken' =>
          have hnext := ih has' cut' (m := m) (by omega)
          cases hnext with
          | spent allowed _ _ => exact allowed.elim
          | stopped h₃ fromCut =>
            exact .stopped ((bind_of_ok h').trans ((bind_of_ok h'').trans (bind_of_error h₃))) fromCut
          | same h₃ cut₃ taken₃ =>
            exact .same ((bind_of_ok h').trans ((bind_of_ok h'').trans (bind_of_ok h₃))) cut₃ (by omega)

theorem allElements {item : Decoder α} (hitem : Follows inside loose 1 item) (first : Bool) :
    Follows inside False 0 (Decoder.allElements item first) := by
  intro ts us as rest h hcut
  cases elements hitem h hcut (Nat.lt_succ_self us.length) with
  | same h' cut taken => exact .same h' cut taken
  | spent allowed _ _ => exact allowed.elim
  | stopped h' fromCut => exact .stopped h' fromCut

theorem array {item : Decoder α} (hitem : Follows inside loose 1 item) :
    Follows inside False 1 (Decoder.array item) := by
  refine mark rfl ?_
  intro t ts as rest h
  cases t with
  | openArray =>
    exact ⟨rfl, _, (allElements hitem true).bind fun xs => (closeArray.map fun _ => xs).weaken id, fun us => rfl⟩
  | _ => cases h

/-! ### Objects -/

private theorem key?_true {t : Token} (ht : t ≠ .closeObject) (ts : List Token) :
    Decoder.key? true (t :: ts) = (some <$> Decoder.key : Decoder (Option String)) (t :: ts) := by
  cases t with
  | closeObject => exact absurd rfl ht
  | _ => rfl

private theorem key?_false {t : Token} {ts rest : List Token} {o : Option String} (ht : t ≠ .closeObject)
    (h : Decoder.key? false (t :: ts) = .ok (o, rest)) :
    t = .comma ∧ (some <$> Decoder.key : Decoder (Option String)) ts = .ok (o, rest) := by
  by_cases hcomma : t = .comma
  · subst hcomma
    exact ⟨rfl, h⟩
  · cases t <;> simp_all [Decoder.key?]

theorem key? (first : Bool) : Follows inside False 1 (Decoder.key? first) := by
  have hkey : Follows inside False 1 (some <$> Decoder.key : Decoder (Option String)) := key.map some
  intro ts us o rest h hcut
  cases ts with
  | nil => cases h
  | cons t ts =>
    by_cases hclose : t = .closeObject
    · subst hclose
      cases h
      rcases hcut.of_mark rfl with rfl | ⟨us, rfl, hafter⟩
      · exact .stopped rfl (.inl rfl)
      · exact .same rfl hafter (Nat.le_refl _)
    cases first with
    | true =>
      rw [key?_true hclose] at h
      rcases hcut.head_ne rfl hclose with rfl | ⟨u, us, rfl, hu⟩
      · exact .stopped rfl (.inl rfl)
      · cases hkey h hcut with
        | spent allowed _ _ => exact allowed.elim
        | stopped h' fromCut => exact .stopped ((key?_true hu us).trans h') fromCut
        | same h' cut taken => exact .same ((key?_true hu us).trans h') cut taken
    | false =>
      obtain ⟨rfl, h⟩ := key?_false hclose h
      rcases hcut.of_mark rfl with rfl | ⟨us, rfl, hafter⟩
      · exact .stopped rfl (.inl rfl)
      · cases hkey h hafter with
        | spent allowed _ _ => exact allowed.elim
        | stopped h' fromCut => exact .stopped h' fromCut
        | same h' cut taken => exact .same h' cut (by rw [List.length_cons]; omega)

/-- A member is followed by a comma or the end of the object, so what is left of a number is not the end. -/
private theorem members {member : σ → String → Decoder σ} (hmember : ∀ s k, Follows inside loose 0 (member s k))
    {n m : Nat} {first : Bool} {s s' : σ} {ts us rest : List Token}
    (h : Decoder.members member n first s ts = .ok (s', rest)) (hcut : Cut inside ts us) (hm : us.length < m) :
    Outcome inside False 0 (Decoder.members member m first s) us s' rest := by
  induction n generalizing m first s ts us with
  | zero => cases h
  | succ n ih =>
    obtain ⟨m, rfl⟩ : ∃ m', m = m' + 1 := ⟨m - 1, by omega⟩
    rw [Decoder.members] at h ⊢
    obtain ⟨o, mid, ho, hmid⟩ := bind_eq_ok h
    cases key? first ho hcut with
    | spent allowed _ _ => exact allowed.elim
    | stopped h' fromCut => exact .stopped (bind_of_error h') fromCut
    | same h' cut taken =>
      cases o with
      | none =>
        cases hmid
        exact .same (bind_of_ok h') cut (by omega)
      | some k =>
        obtain ⟨s₁, mid', hs₁, hmid'⟩ := bind_eq_ok hmid
        cases hmember s k hs₁ cut with
        | stopped h'' fromCut => exact .stopped ((bind_of_ok h').trans (bind_of_error h'')) fromCut
        | spent allowed h'' _ =>
          obtain ⟨m, rfl⟩ : ∃ m', m = m' + 1 := ⟨m - 1, by omega⟩
          exact .stopped ((bind_of_ok h').trans (bind_of_ok h'')) (.inl rfl)
        | same h'' cut' taken' =>
          have hnext := ih hmid' cut' (m := m) (by omega)
          cases hnext with
          | spent allowed _ _ => exact allowed.elim
          | stopped h₃ fromCut => exact .stopped ((bind_of_ok h').trans ((bind_of_ok h'').trans h₃)) fromCut
          | same h₃ cut₃ taken₃ => exact .same ((bind_of_ok h').trans ((bind_of_ok h'').trans h₃)) cut₃ (by omega)

theorem allMembers {member : σ → String → Decoder σ} (hmember : ∀ s k, Follows inside loose 0 (member s k)) (s : σ) :
    Follows inside False 0 (Decoder.allMembers member s) := by
  intro ts us s' rest h hcut
  cases members hmember h hcut (Nat.lt_succ_self us.length) with
  | same h' cut taken => exact .same h' cut taken
  | spent allowed _ _ => exact allowed.elim
  | stopped h' fromCut => exact .stopped h' fromCut

theorem record {fromMembers fromElements : Decoder α} (expected : String)
    (hmembers : Follows inside False 0 fromMembers) (helements : Follows inside False 0 fromElements) :
    Follows inside False 1 (Decoder.record expected fromMembers fromElements) := by
  refine mark rfl ?_
  intro t ts a rest h
  cases t with
  | openObject => exact ⟨rfl, _, hmembers, fun us => rfl⟩
  | openArray => exact ⟨rfl, _, helements.bind fun a => (closeArray.map fun _ => a).weaken id, fun us => rfl⟩
  | _ => cases h

end Follows

end Decoder

/-! ### Folded values -/

namespace Fold

variable {κ α : Type}

/-- What is left of a token that the fold takes is taken, for a number, or stops the fold. -/
structure Tight (inside : Prop) (fold : Fold κ α) : Prop where
  scalar : ∀ {t a}, fold.scalar t = .ok a → ∀ u, t.LeftOver inside u →
    (∃ a', fold.scalar u = .ok a') ∨ ∃ fault, fold.scalar u = .error fault ∧ fault.FromCut inside
  key : ∀ {t k}, fold.key t = .ok k → ∀ u, t.LeftOver inside u →
    ∃ fault, fold.key u = .error fault ∧ fault.FromCut inside

/-- Where a step takes a token, it takes what is left of it, or stops as a cut does. -/
theorem Tight.step {fold : Fold κ α} (hfold : fold.Tight inside) {place : Place} {stack : List (Frame κ α)}
    {t u : Token} {p : Progress κ α} (h : fold.step place stack t = .ok p) (hu : t.LeftOver inside u) :
    (∃ p', fold.step place stack u = .ok p') ∨
      ∃ fault, fold.step place stack u = .error fault ∧ fault.FromCut inside := by
  obtain ⟨htmark, humark⟩ := hu.isMark_eq
  have ht : ∀ m, m.isMark = true → t ≠ m := by rintro m hm rfl; rw [htmark] at hm; cases hm
  have hu' : ∀ m, m.isMark = true → u ≠ m := by rintro m hm rfl; rw [humark] at hm; cases hm
  have hvalue : ∀ stack, fold.stepValue stack t = .ok p → (∃ p', fold.stepValue stack u = .ok p') ∨
      ∃ fault, fold.stepValue stack u = .error fault ∧ fault.FromCut inside := by
    intro stack hp
    rw [stepValue_of_not_mark fold stack htmark] at hp
    rw [stepValue_of_not_mark fold stack humark]
    obtain ⟨a, ha, -⟩ := exists_ok_of_map hp
    rcases hfold.scalar ha u hu with ⟨a', ha'⟩ | ⟨fault, hfault, hcut⟩
    · exact .inl ⟨_, by rw [ha']; rfl⟩
    · exact .inr ⟨fault, by rw [hfault]; rfl, hcut⟩
  have hkey : ∀ done stack, fold.stepKey done stack t = .ok p →
      ∃ fault, fold.stepKey done stack u = .error fault ∧ fault.FromCut inside := by
    intro done stack hp
    obtain ⟨k, hk, -⟩ := exists_ok_of_map hp
    obtain ⟨fault, hfault, hcut⟩ := hfold.key hk u hu
    exact ⟨fault, by rw [stepKey, hfault]; rfl, hcut⟩
  -- neither token is a mark, so what is left of one is tried in the place of a value or of a key as the whole was
  cases place with
  | value => exact hvalue stack h
  | colon =>
    rw [Fold.step, if_neg (ht .colon rfl)] at h
    cases h
  | first =>
    cases stack with
    | nil => cases h
    | cons frame stack =>
      cases frame with
      | array done =>
        rw [Fold.step, if_neg (ht .closeArray rfl)] at h
        rw [Fold.step, if_neg (hu' .closeArray rfl)]
        exact hvalue _ h
      | object done =>
        rw [Fold.step, if_neg (ht .closeObject rfl)] at h
        rw [Fold.step, if_neg (hu' .closeObject rfl)]
        exact .inr (hkey done stack h)
      | member done k => cases h
  | next =>
    cases stack with
    | nil => cases h
    | cons frame stack =>
      cases frame with
      | array done =>
        rw [Fold.step, if_neg (ht .comma rfl), if_neg (ht .closeArray rfl)] at h
        cases h
      | object done =>
        rw [Fold.step, if_neg (ht .comma rfl), if_neg (ht .closeObject rfl)] at h
        cases h
      | member done k => cases h
  | key =>
    cases stack with
    | nil => cases h
    | cons frame stack =>
      cases frame with
      | object done => exact .inr (hkey done stack h)
      | array done => cases h
      | member done k => cases h

theorem Tight.run {fold : Fold κ α} (hfold : fold.Tight inside) (place : Place) (stack : List (Frame κ α)) :
    Decoder.Follows inside True 1 (fold.run place stack) := by
  intro ts us a rest h hcut
  -- before the cut both runs take the same steps, which change the place and the stack
  induction hcut generalizing place stack with
  | before t ts => exact .stopped rfl (.inl rfl)
  | @within t u hu ts =>
    rw [Fold.run] at h
    cases ht : fold.step place stack t with
    | error fault => rw [ht] at h; cases h
    | ok p =>
      rcases hfold.step ht hu with ⟨p', hp'⟩ | ⟨fault, hfault, hcut⟩
      · cases p' with
        | done a' => exact .spent trivial (by rw [Fold.run, hp']) (Nat.le_refl _)
        | more place' stack' => exact .stopped (by rw [Fold.run, hp']; rfl) (.inl rfl)
      · exact .stopped (by rw [Fold.run, hfault]) hcut
  | @after t ts us hcut ih =>
    rw [Fold.run] at h
    cases ht : fold.step place stack t with
    | error fault => rw [ht] at h; cases h
    | ok p =>
      rw [ht] at h
      cases p with
      | done a' =>
        cases h
        exact .same (by rw [Fold.run, ht]) hcut (Nat.le_refl _)
      | more place' stack' =>
        have hrun : fold.run place stack (t :: us) = fold.run place' stack' us := by rw [Fold.run, ht]
        cases ih place' stack' h with
        | same h' cut taken => exact .same (hrun.trans h') cut (by rw [List.length_cons]; omega)
        | spent allowed h' taken => exact .spent allowed (hrun.trans h') (by rw [List.length_cons]; omega)
        | stopped h' fromCut => exact .stopped (hrun.trans h') fromCut

end Fold

/-- A value that is kept refuses tokens that are broken. -/
private theorem Value.not_broken_of_scalar {limit : Nat} {t : Token} {a : Value}
    (h : (Value.fold limit).scalar t = .ok a) : t.isBroken = false := by
  cases t with
  | brokenWord ended => cases h
  | brokenNumber ended => cases h
  | stray => cases h
  | brokenString ps ended =>
    obtain ⟨s, hs, -⟩ := exists_ok_of_map h
    obtain ⟨cs, hcs, -⟩ := exists_ok_of_map hs
    exact absurd hcs (Piece.decode_open _ ps cs)
  | _ => rfl

theorem Value.tight_fold (limit : Nat) : (Value.fold limit).Tight inside where
  scalar := by
    intro t a h u hu
    cases hu with
    | word hword => exact .inr ⟨_, rfl, .inl rfl⟩
    | brokenNumber hin x => exact .inr ⟨_, rfl, .inl rfl⟩
    | number hin x y =>
      cases hy : y.value? with
      | some n => exact .inl ⟨.number n, by simp only [fold, hy]⟩
      | none => exact .inr ⟨.malformed, by simp only [fold, hy], .inr ⟨hin, rfl⟩⟩
    | @string ps ps' hps =>
      obtain ⟨s, hs, -⟩ := exists_ok_of_map h
      have htext : (Token.string ps).text? = some (.ok s) := congrArg some hs
      have hu : (Token.string ps).LeftOver inside (.brokenString ps' true) := .string hps
      have hleft := Token.text?_of_leftOver htext hu
      exact .inr ⟨.truncated, by simp only [fold, hleft]; rfl, .inl rfl⟩
    | broken ht hmark =>
      rw [not_broken_of_scalar h] at ht
      cases ht
  key := by
    intro t k h u hu
    have htext : t.text? = some (.ok k) := by
      cases ht : t.text? with
      | none => simp only [fold, ht] at h; cases h
      | some text => simp only [fold, ht] at h; exact congrArg some h
    have hleft := Token.text?_of_leftOver htext hu
    exact ⟨.truncated, by simp only [fold, hleft]; rfl, .inl rfl⟩

theorem tight_ignoredFold : ignoredFold.Tight inside where
  scalar := by
    intro t a h u hu
    cases hu with
    | word hword => exact .inr ⟨_, rfl, .inl rfl⟩
    | string hps => exact .inr ⟨_, rfl, .inl rfl⟩
    | number hin x y => exact .inl ⟨(), rfl⟩
    | brokenNumber hin x => exact .inr ⟨_, rfl, .inr ⟨hin, rfl⟩⟩
    | broken ht hmark => cases t <;> simp_all [ignoredFold, Token.isBroken]
  key := by
    intro t k h u hu
    cases t with
    | string ps =>
      cases hu with
      | string hps => exact ⟨_, rfl, .inl rfl⟩
      | word hword => cases hword
      | broken ht hmark => cases ht
    | _ => cases h

namespace Decoder.Follows

theorem value (limit : Nat) : Follows inside True 1 (Decoder.value limit) := (Value.tight_fold limit).run .value []

theorem ignoredMember : Follows inside True 1 Decoder.ignoredMember :=
  colon.bind fun _ => (tight_ignoredFold.run .value []).weaken id

end Decoder.Follows

end SchemaDecl.Json
