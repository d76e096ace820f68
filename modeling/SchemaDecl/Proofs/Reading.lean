import Mathlib.Data.List.Forall2
import SchemaDecl.Json.Value
import SchemaDecl.Proofs.TokenText

/-!
# Reading tokens

What a decoder makes of the tokens of a value does not depend on what follows them (`Decoder.Reads`).  This passes from
the parts of a value to the whole: through sequences of decoders, through the elements of an array (`Reads.array`) and
through the members of an object, each of which changes what has been gathered (`MembersRead`, `MembersRead.reads`).
-/

namespace SchemaDecl.Json

/-- A member of an object as it is written: the token of its key, which has a text, and the tokens of its value. -/
structure Entry where
  key : Token
  name : String
  value : List Token
  text?_key : key.text? = some (.ok name)

def Entry.ofText (name : String) (value : List Token) : Entry := ⟨.ofText name, name, value, Token.text?_ofText name⟩

def Entry.tokens (e : Entry) : List Token := e.key :: .colon :: e.value

/-- The tokens of members between braces, with the closing one. -/
def memberTokens (es : List Entry) : List Token := List.intercalate [.comma] (es.map Entry.tokens) ++ [.closeObject]

theorem Fold.stepValue_of_not_mark {κ α : Type} (fold : Fold κ α) (stack : List (Frame κ α)) {t : Token}
    (ht : t.isMark = false) : fold.stepValue stack t = (fold.scalar t).map (finish · stack) := by
  cases t with
  | openArray => cases ht
  | openObject => cases ht
  | _ => rfl

namespace Decoder

variable {α β σ : Type}

/-- A decoder reads tokens as a value, whatever follows them. -/
def Reads (d : Decoder α) (tokens : List Token) (a : α) : Prop := ∀ rest, d (tokens ++ rest) = .ok (a, rest)

theorem bind_of_ok {d : Decoder α} {f : α → Decoder β} {ts ts' : List Token} {a : α} (h : d ts = .ok (a, ts')) :
    (d >>= f) ts = f a ts' := by
  show (d ts >>= fun p => f p.1 p.2) = f a ts'
  rw [h]
  rfl

namespace Reads

theorem pure (a : α) : Reads (Pure.pure a) [] a := fun _ => rfl

theorem bind {d : Decoder α} {f : α → Decoder β} {ts ts' : List Token} {a : α} {b : β} (h : d.Reads ts a)
    (h' : (f a).Reads ts' b) : (d >>= f).Reads (ts ++ ts') b := by
  intro rest
  rw [List.append_assoc, bind_of_ok (h (ts' ++ rest))]
  exact h' rest

/-- A decoder that makes something of what another one has read takes no more tokens. -/
theorem andThen {d : Decoder α} {f : α → Decoder β} {ts : List Token} {a : α} {b : β} (h : d.Reads ts a)
    (h' : (f a).Reads [] b) : (d >>= f).Reads ts b := by
  have := h.bind h'
  rwa [List.append_nil] at this

theorem map {d : Decoder α} {ts : List Token} {a : α} (f : α → β) (h : d.Reads ts a) : (f <$> d).Reads ts (f a) := by
  intro rest
  show (d (ts ++ rest) >>= fun p => .ok (f p.1, p.2)) = _
  rw [h rest]
  rfl

end Reads

/-! ### Scalars -/

theorem reads_textAs (expected : String) {t : Token} {s : String} (h : t.text? = some (.ok s)) :
    (textAs expected).Reads [t] s := by
  intro rest
  show textAs expected (t :: rest) = _
  rw [textAs, h]

theorem reads_boolean (b : Bool) : boolean.Reads [.boolean b] b := fun _ => rfl

theorem reads_colon : colon.Reads [.colon] () := fun _ => rfl

theorem reads_choice {choices : List (String × α)} {name : String} {a : α} (hname : choices.lookup name = some a)
    {t : Token} (h : t.text? = some (.ok name)) : (choice choices).Reads [t] a := by
  refine (reads_textAs "variant identifier" h).andThen ?_
  intro rest
  rw [choose, hname]
  rfl

theorem reads_once {item : Decoder α} {ts : List Token} {a : α} (name : String) (h : item.Reads ts a) :
    (once name none item).Reads (.colon :: ts) (some a) :=
  reads_colon.bind (h.andThen (.pure _))

/-! ### Arrays -/

/-- Tokens of an element: they do not begin with the end of the array. -/
def ElementReads (item : Decoder α) (ts : List Token) (a : α) : Prop :=
  item.Reads ts a ∧ ∃ t ts', ts = t :: ts' ∧ t ≠ .closeArray

theorem element?_first {t : Token} (h : t ≠ .closeArray) (ts : List Token) :
    element? true (t :: ts) = .ok (true, t :: ts) := by
  cases t with
  | closeArray => exact absurd rfl h
  | _ => rfl

theorem element?_comma {t : Token} (h : t ≠ .closeArray) (ts : List Token) :
    element? false (.comma :: t :: ts) = .ok (true, t :: ts) := by
  cases t with
  | closeArray => exact absurd rfl h
  | _ => rfl

/-- An element is read at the beginning of an array, and after a comma. -/
private theorem elements_cons {item : Decoder α} {ts : List Token} {a : α} {as : List α} {n : Nat}
    {rest rest' : List Token} (h : item.ElementReads ts a) (hrest : elements item n false rest = .ok (as, rest')) :
    elements item (n + 1) true (ts ++ rest) = .ok (a :: as, rest') ∧
      elements item (n + 1) false (.comma :: ts ++ rest) = .ok (a :: as, rest') := by
  obtain ⟨hreads, t, ts', rfl, ht⟩ := h
  have hnext : ∀ first ts₀, element? first ts₀ = .ok (true, t :: ts' ++ rest) →
      elements item (n + 1) first ts₀ = .ok (a :: as, rest') := by
    intro first ts₀ hts₀
    have hoption : optional first item ts₀ = .ok (some a, rest) := by
      rw [optional, bind_of_ok hts₀]
      exact bind_of_ok (hreads rest)
    rw [elements, bind_of_ok hoption]
    exact bind_of_ok hrest
  exact ⟨hnext true _ (element?_first ht _), hnext false _ (element?_comma ht _)⟩

-- Every element but the first has a comma before it, and each takes one unit of the bound.
private theorem elements_of_forall₂ {item : Decoder α} {tss : List (List Token)} {as : List α}
    (h : List.Forall₂ item.ElementReads tss as) {n : Nat} (hn : as.length < n) (rest : List Token) :
    elements item n false (tss.flatMap (.comma :: ·) ++ .closeArray :: rest) = .ok (as, .closeArray :: rest) := by
  induction h generalizing n with
  | nil =>
    obtain ⟨n, rfl⟩ : ∃ m, n = m + 1 := ⟨n - 1, by omega⟩
    rfl
  | cons hts _ ih =>
    obtain ⟨n, rfl⟩ : ∃ m, n = m + 1 := ⟨n - 1, by omega⟩
    rw [List.flatMap_cons, List.append_assoc]
    exact (elements_cons hts (ih (by simpa using hn))).2

private theorem length_le_flatMap_comma (tss : List (List Token)) :
    tss.length ≤ (tss.flatMap (.comma :: ·)).length := by
  induction tss with
  | nil => exact Nat.le_refl 0
  | cons ts tss ih =>
    rw [List.flatMap_cons, List.length_append, List.length_cons, List.length_cons]
    omega

/-- The elements after the first one, each with a comma before it. -/
theorem allElements_rest {item : Decoder α} {tss : List (List Token)} {as : List α}
    (h : List.Forall₂ item.ElementReads tss as) (rest : List Token) :
    allElements item false (tss.flatMap (.comma :: ·) ++ .closeArray :: rest) = .ok (as, .closeArray :: rest) := by
  have hlen := length_le_flatMap_comma tss
  rw [h.length_eq] at hlen
  refine elements_of_forall₂ h ?_ rest
  rw [List.length_append]
  omega

/-- An array is read whose elements are. -/
theorem Reads.array {item : Decoder α} {tss : List (List Token)} {as : List α}
    (h : List.Forall₂ item.ElementReads tss as) : (Decoder.array item).Reads (Token.array tss) as := by
  intro rest
  have helements : allElements item true (List.intercalate [.comma] tss ++ .closeArray :: rest) =
      .ok (as, .closeArray :: rest) := by
    cases h with
    | nil => rfl
    | @cons ts a tss as hts htss =>
      have hlen := length_le_flatMap_comma tss
      rw [htss.length_eq] at hlen
      rw [Token.intercalate_comma, List.append_assoc, allElements]
      refine (elements_cons hts (elements_of_forall₂ htss ?_ rest)).1
      simp only [List.length_append, List.length_cons]
      omega
  show (allElements item true >>= fun xs => closeArray >>= fun _ => Pure.pure xs)
    (List.intercalate [.comma] tss ++ [.closeArray] ++ rest) = _
  rw [List.append_assoc, List.singleton_append, bind_of_ok helements]
  rfl

/-! ### Objects -/

/-- Members are read one after the other, each changing what has been gathered. -/
inductive MembersRead (member : σ → String → Decoder σ) : List Entry → σ → σ → Prop
  | nil (s : σ) : MembersRead member [] s s
  | cons {e : Entry} {es : List Entry} {s s' s'' : σ} (head : (member s e.name).Reads (.colon :: e.value) s')
    (tail : MembersRead member es s' s'') : MembersRead member (e :: es) s s''

private theorem key_tokens (e : Entry) (ts : List Token) : key (e.key :: ts) = .ok (e.name, ts) := by
  rw [key, e.text?_key]

private theorem key?_first (e : Entry) (ts : List Token) : key? true (e.key :: ts) = .ok (some e.name, ts) := by
  have hfirst : key? true (e.key :: ts) = (key >>= fun k => Pure.pure (some k)) (e.key :: ts) := by
    have htext := e.text?_key
    cases hk : e.key with
    | closeObject => rw [hk] at htext; cases htext
    | _ => rfl
  rw [hfirst, bind_of_ok (key_tokens e ts)]
  rfl

private theorem key?_comma (e : Entry) (ts : List Token) :
    key? false (.comma :: e.key :: ts) = .ok (some e.name, ts) := by
  show (key >>= fun k => Pure.pure (some k)) (e.key :: ts) = _
  rw [bind_of_ok (key_tokens e ts)]
  rfl

/-- A member is read at the beginning of an object, and after a comma. -/
private theorem members_cons {member : σ → String → Decoder σ} {e : Entry} {s s' s'' : σ} {n : Nat}
    {rest rest' : List Token} (h : (member s e.name).Reads (.colon :: e.value) s')
    (hrest : members member n false s' rest = .ok (s'', rest')) :
    members member (n + 1) true s (e.tokens ++ rest) = .ok (s'', rest') ∧
      members member (n + 1) false s (.comma :: e.tokens ++ rest) = .ok (s'', rest') := by
  have hnext : ∀ first ts₀, key? first ts₀ = .ok (some e.name, .colon :: e.value ++ rest) →
      members member (n + 1) first s ts₀ = .ok (s'', rest') := by
    intro first ts₀ hts₀
    rw [members, bind_of_ok hts₀]
    exact (bind_of_ok (h rest)).trans hrest
  exact ⟨hnext true _ (key?_first e _), hnext false _ (key?_comma e _)⟩

private theorem members_of_membersRead {member : σ → String → Decoder σ} {es : List Entry} {s s' : σ}
    (h : MembersRead member es s s') {n : Nat} (hn : es.length < n) (rest : List Token) :
    members member n false s ((es.map Entry.tokens).flatMap (.comma :: ·) ++ .closeObject :: rest) =
      .ok (s', rest) := by
  induction h generalizing n with
  | nil s =>
    obtain ⟨n, rfl⟩ : ∃ m, n = m + 1 := ⟨n - 1, by omega⟩
    rfl
  | cons head _ ih =>
    obtain ⟨n, rfl⟩ : ∃ m, n = m + 1 := ⟨n - 1, by omega⟩
    rw [List.map_cons, List.flatMap_cons, List.append_assoc]
    exact (members_cons head (ih (by simpa using hn))).2

/-- Members that are read make an object that is. -/
theorem MembersRead.reads {member : σ → String → Decoder σ} {es : List Entry} {s s' : σ}
    (h : MembersRead member es s s') : (allMembers member s).Reads (memberTokens es) s' := by
  intro rest
  rw [memberTokens, List.append_assoc, List.singleton_append, allMembers]
  cases h with
  | nil s => rfl
  | @cons e es _ s'' _ head tail =>
    have hlen := length_le_flatMap_comma (es.map Entry.tokens)
    rw [List.length_map] at hlen
    rw [List.map_cons, Token.intercalate_comma, List.append_assoc]
    refine (members_cons head (members_of_membersRead tail ?_ rest)).1
    rw [List.length_append, List.length_append, List.length_cons, Entry.tokens, List.length_cons]
    omega

/-! ### Whole texts -/

/-- What is read as a value is the value of its texts. -/
theorem Reads.run_spelled {d : Decoder α} {tokens : List Token} {a : α} (h : d.Reads tokens a) {text : String}
    (htext : Token.Spelled tokens text.toList) : d.run text = .ok a := by
  have htokens := h []
  rw [List.append_nil] at htokens
  rw [Decoder.run, Token.scan, Token.run_spelled htext, htokens]

theorem Reads.run {d : Decoder α} {tokens : List Token} {a : α} (h : d.Reads tokens a)
    (hends : ∀ t ∈ tokens, t.SelfEnding) : d.run (Token.print tokens) = .ok a :=
  h.run_spelled (Token.spelled_print hends)

end Decoder

end SchemaDecl.Json
