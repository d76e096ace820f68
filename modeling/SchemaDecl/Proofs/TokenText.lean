import SchemaDecl.Json.Print
import SchemaDecl.Proofs.Spelling

/-!
# Printed tokens

What is printed for tokens spells them (`Token.spelled_print`).  This holds for tokens that show their own end
(`Token.SelfEnding`), so that no space has to stand between them; among them are the tokens of all texts, whose
characters are escaped one by one (`Piece.spelling_ofChar`) and read as they were (`Token.text?_ofText`).
-/

namespace SchemaDecl.Json

/-! ### Escapes -/

private theorem shortEscapes_sound : ∀ p ∈ shortEscapes, shortEscape? p.1 = some p.2 := by decide

private theorem shortEscape?_of_escapeLetter? {c letter : Char} (h : escapeLetter? c = some letter) :
    shortEscape? letter = some c := by
  unfold escapeLetter? at h
  cases hfind : shortEscapes.find? (·.2 = c) with
  | none => rw [hfind] at h; cases h
  | some p =>
    rw [hfind] at h
    cases h
    have hc : p.2 = c := by simpa using List.find?_some hfind
    rw [← hc]
    exact shortEscapes_sound p (List.mem_of_find?_eq_some hfind)

private theorem plain_of_escapeLetter? {c : Char} (h : escapeLetter? c = none) : c ≠ '"' ∧ c ≠ '\\' := by
  constructor
  · rintro rfl; exact absurd h (by decide)
  · rintro rfl; exact absurd h (by decide)

private theorem hexValue?_digitChar : ∀ n < 16, hexValue? (Nat.digitChar n) = some n := by decide

private theorem hexDigitsValue?_hexDigits {code : Nat} (h : code < 0x10000) :
    hexDigitsValue? (hexDigits code) = some code := by
  have v₃ := hexValue?_digitChar (code / 0x1000 % 0x10) (by omega)
  have v₂ := hexValue?_digitChar (code / 0x100 % 0x10) (by omega)
  have v₁ := hexValue?_digitChar (code / 0x10 % 0x10) (by omega)
  have v₀ := hexValue?_digitChar (code % 0x10) (by omega)
  simp only [hexDigits, List.map_cons, List.map_nil, hexDigitsValue?, List.foldlM_cons, List.foldlM_nil, v₃, v₂, v₁, v₀,
    Option.map_some, Option.bind_eq_bind, Option.bind_some, Option.pure_def, Option.some.injEq]
  omega

/-! ### The printed form as a spelling -/

theorem Piece.spelling_ofChar (c : Char) : (ofChar c).Spelling (ofChar c).render := by
  cases hletter : escapeLetter? c with
  | some letter =>
    have hpiece : ofChar c = .char c := by simp [ofChar, hletter]
    have hrender : (Piece.char c).render = ['\\', letter] := by simp [render, hletter]
    rw [hpiece, hrender]
    exact .short (shortEscape?_of_escapeLetter? hletter)
  | none =>
    by_cases hcontrol : c.toNat < 0x20
    · have hpiece : ofChar c = .unit c.toNat := by simp [ofChar, hletter, hcontrol]
      rw [hpiece]
      exact .unit (hexDigitsValue?_hexDigits (by omega))
    · have hpiece : ofChar c = .char c := by simp [ofChar, hcontrol]
      have hrender : (Piece.char c).render = [c] := by simp [render, hletter]
      obtain ⟨hquote, hslash⟩ := plain_of_escapeLetter? hletter
      rw [hpiece, hrender]
      exact .plain hquote hslash (by omega)

private theorem Piece.spelled_ofChars (text : List Char) :
    Piece.Spelled (text.map ofChar) ((text.map ofChar).flatMap render) := by
  induction text with
  | nil => exact .nil
  | cons c text ih => exact .cons (spelling_ofChar c) ih

namespace Token

/-- The tokens that show their own end: all but numbers and broken tokens.  Strings are those of texts. -/
inductive SelfEnding : Token → Prop
  | openObject : SelfEnding .openObject
  | closeObject : SelfEnding .closeObject
  | openArray : SelfEnding .openArray
  | closeArray : SelfEnding .closeArray
  | comma : SelfEnding .comma
  | colon : SelfEnding .colon
  | null : SelfEnding .null
  | boolean (b : Bool) : SelfEnding (.boolean b)
  | ofText (s : String) : SelfEnding (.ofText s)

attribute [simp] SelfEnding.boolean SelfEnding.ofText

private theorem SelfEnding.spelling {t : Token} (h : t.SelfEnding) : t.Spelling t.render := by
  cases h with
  | ofText s => exact .string (Piece.spelled_ofChars s.toList)
  | boolean | null => exact .fixed (.inr rfl)
  | _ => exact .fixed (.inl rfl)

/-- Printed tokens may stand before any text. -/
theorem Spelled.print_append {ts us : List Token} {cs : List Char} (hts : ∀ t ∈ ts, t.SelfEnding) (h : Spelled us cs) :
    Spelled (ts ++ us) (ts.flatMap render ++ cs) := by
  induction ts with
  | nil => exact h
  | cons t ts ih =>
    obtain ⟨ht, hrest⟩ := List.forall_mem_cons.1 hts
    rw [List.flatMap_cons, List.append_assoc]
    exact .token ht.spelling (fun x hx => by rw [hx] at ht; cases ht) (ih hrest)

theorem spelled_print {ts : List Token} (h : ∀ t ∈ ts, t.SelfEnding) : Spelled ts (print ts).toList := by
  have hspelled := Spelled.print_append h .nil
  rwa [List.append_nil, List.append_nil, ← String.toList_ofList (l := ts.flatMap render)] at hspelled

/-! ### Arrays and objects -/

theorem intercalate_comma (ts : List Token) (tss : List (List Token)) :
    List.intercalate [.comma] (ts :: tss) = ts ++ tss.flatMap (.comma :: ·) := by
  induction tss generalizing ts with
  | nil => simp [List.intercalate]
  | cons ts' tss ih =>
    rw [List.intercalate_cons_cons, ih, List.flatMap_cons]
    simp

private theorem selfEnding_intercalate {tss : List (List Token)} (h : ∀ ts ∈ tss, ∀ t ∈ ts, t.SelfEnding) :
    ∀ t ∈ List.intercalate [.comma] tss, t.SelfEnding := by
  cases tss with
  | nil => exact fun t ht => absurd ht List.not_mem_nil
  | cons ts tss =>
    obtain ⟨hts, htss⟩ := List.forall_mem_cons.1 h
    rw [intercalate_comma]
    intro t ht
    rcases List.mem_append.1 ht with ht | ht
    · exact hts t ht
    · obtain ⟨ts', hts', ht'⟩ := List.mem_flatMap.1 ht
      exact List.forall_mem_cons.2 ⟨.comma, htss ts' hts'⟩ t ht'

theorem selfEnding_array {tss : List (List Token)} (h : ∀ ts ∈ tss, ∀ t ∈ ts, t.SelfEnding) :
    ∀ t ∈ array tss, t.SelfEnding := by
  refine List.forall_mem_append.2 ⟨List.forall_mem_cons.2 ⟨.openArray, selfEnding_intercalate h⟩, ?_⟩
  exact List.forall_mem_singleton.2 .closeArray

theorem selfEnding_object {ms : List (String × List Token)} (h : ∀ m ∈ ms, ∀ t ∈ m.2, t.SelfEnding) :
    ∀ t ∈ object ms, t.SelfEnding := by
  refine List.forall_mem_append.2 ⟨List.forall_mem_cons.2 ⟨.openObject, selfEnding_intercalate ?_⟩, ?_⟩
  · refine List.forall_mem_map.2 fun m hm => ?_
    exact List.forall_mem_cons.2 ⟨.ofText m.1, List.forall_mem_cons.2 ⟨.colon, h m hm⟩⟩
  · exact List.forall_mem_singleton.2 .closeObject

end Token

/-! ### The text of a token -/

private theorem decode_ofChars (text : List Char) : Piece.decode none (text.map Piece.ofChar) = .ok text := by
  induction text with
  | nil => rfl
  | cons c text ih =>
    rw [List.map_cons]
    by_cases h : c.toNat < 0x20 ∧ (escapeLetter? c).isNone
    · have htrailing : isTrailing c.toNat = false := by simp [isTrailing]; omega
      have hleading : isLeading c.toNat = false := by simp [isLeading]; omega
      rw [Piece.ofChar, if_pos h, Piece.decode.eq_def]
      simp [htrailing, hleading, ih, Except.map]
    · rw [Piece.ofChar, if_neg h, Piece.decode, ih]
      rfl

@[simp] theorem Token.text?_ofText (s : String) : (ofText s).text? = some (.ok s) := by
  rw [ofText, text?, decode_ofChars]
  simp [Except.map]

end SchemaDecl.Json
