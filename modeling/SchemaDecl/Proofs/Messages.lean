import Mathlib.Data.Bool.AllAny
import Mathlib.Data.List.Basic
import SchemaDecl.Proofs.MemberTypes

/-!
# Messages of directives

A message stands between single quotes.  `readQuoted` reads such a text as the language does, and `readMessage` finds it
in the text of a directive and reads it there.

* Escaping is one replacement after another, and can be made character by character (`Directive.toList_escape`).
* Reading undoes escaping, whatever follows (`readQuoted_escape_iff`).
* A quote behind a space ends every text that is read up to there (`readQuoted_space_quote`).
* A message is read as it was meant exactly if its key has no line break and the rest of it, which is not escaped, has
  no line break, quote or backslash (`readMessage_iff`).  The rest is fixed, but for the name of an enum.
-/

namespace SchemaDecl

/-! ### Escaped texts -/

namespace Directive

/-- A character of an escaped text. -/
def escapeChar (c : Char) : List Char := if c = '\\' ∨ c = '\'' then ['\\', c] else [c]

/-- The quotes that are replaced are those of the text itself, so both replacements can be made character by
character. -/
theorem toList_escape (s : String) : (escape s).toList = s.toList.flatMap escapeChar := by
  rw [escape, String.toList_ofList, replaceChar, replaceChar, List.flatMap_assoc]
  refine List.flatMap_congr fun c _ => ?_
  by_cases hslash : c = '\\'
  · subst hslash
    rfl
  · by_cases hquote : c = '\''
    · subst hquote
      rfl
    · simp [escapeChar, hslash, hquote]

end Directive

/-! ### Texts between single quotes -/

/-- Reads a text between single quotes, from behind the opening one: its value, and what stands behind the closing one.
A backslash takes the next character; the others must be `allowed`. -/
def readQuoted (allowed : Char → Bool) : List Char → Option (List Char × List Char)
  | [] => none
  | c :: cs =>
    if c = '\'' then some ([], cs)
    else if c = '\\' then
      match cs with
      | [] => none
      | d :: ds => (readQuoted allowed ds).map fun p => (d :: p.1, p.2)
    else if allowed c then (readQuoted allowed cs).map fun p => (c :: p.1, p.2)
    else none

section Reading

variable {allowed : Char → Bool}

private theorem readQuoted_quote (rest : List Char) : readQuoted allowed ('\'' :: rest) = some ([], rest) := by
  unfold readQuoted
  rw [if_pos rfl]

private theorem readQuoted_backslash (c : Char) (rest : List Char) :
    readQuoted allowed ('\\' :: c :: rest) = (readQuoted allowed rest).map fun p => (c :: p.1, p.2) := by
  rw [readQuoted, if_neg (by decide), if_pos rfl]

private theorem readQuoted_plain {c : Char} (hquote : c ≠ '\'') (hslash : c ≠ '\\') (rest : List Char) :
    readQuoted allowed (c :: rest) =
      if allowed c then (readQuoted allowed rest).map fun p => (c :: p.1, p.2) else none := by
  rw [readQuoted.eq_def]
  simp only
  rw [if_neg hquote, if_neg hslash]

/-- What is read and what is left over are shorter than the text, by the closing quote at least. -/
private theorem length_of_readQuoted {l v r : List Char} (h : readQuoted allowed l = some (v, r)) :
    v.length + r.length < l.length := by
  fun_induction readQuoted allowed l generalizing v with
  | case1 => cases h
  | case2 cs =>
    cases h
    simp
  | case3 => cases h
  | case4 d ds hquote ih =>
    obtain ⟨p, hp, hvr⟩ := Option.map_eq_some_iff.1 h
    cases hvr
    have hlt := ih hp
    simp only [List.length_cons]
    omega
  | case5 c cs hquote hslash hallowed ih =>
    obtain ⟨p, hp, hvr⟩ := Option.map_eq_some_iff.1 h
    cases hvr
    have hlt := ih hp
    simp only [List.length_cons]
    omega
  | case6 => cases h

/-- An escaped character is read as itself, if it is allowed; the characters that are escaped are. -/
private theorem readQuoted_escapeChar (hmarks : allowed '\\' = true ∧ allowed '\'' = true) (c : Char)
    (rest : List Char) :
    readQuoted allowed (Directive.escapeChar c ++ rest) =
      if allowed c then (readQuoted allowed rest).map fun p => (c :: p.1, p.2) else none := by
  unfold Directive.escapeChar
  split
  · rename_i hmarked
    have hallowed : allowed c = true := by
      rcases hmarked with rfl | rfl
      · exact hmarks.1
      · exact hmarks.2
    rw [if_pos hallowed, List.cons_append, List.singleton_append, readQuoted_backslash]
  · rename_i hplain
    rw [not_or] at hplain
    rw [List.singleton_append, readQuoted_plain hplain.2 hplain.1]

/-- An escaped text is read exactly if all its characters are allowed, and then as the text itself, in front of what is
read after it. -/
theorem readQuoted_escape_iff (hmarks : allowed '\\' = true ∧ allowed '\'' = true) {key rest v r : List Char} :
    readQuoted allowed (key.flatMap Directive.escapeChar ++ rest) = some (v, r) ↔
      (∀ c ∈ key, allowed c = true) ∧ ∃ w, readQuoted allowed rest = some (w, r) ∧ v = key ++ w := by
  induction key generalizing v with
  | nil => simp
  | cons c key ih =>
    rw [List.flatMap_cons, List.append_assoc, readQuoted_escapeChar hmarks, List.forall_mem_cons]
    by_cases hallowed : allowed c = true
    · rw [if_pos hallowed, Option.map_eq_some_iff]
      constructor
      · rintro ⟨p, hp, hvr⟩
        cases hvr
        obtain ⟨hkey, w, hw, hv⟩ := ih.1 hp
        exact ⟨⟨hallowed, hkey⟩, w, hw, by rw [hv, List.cons_append]⟩
      · rintro ⟨⟨-, hkey⟩, w, hw, rfl⟩
        exact ⟨(key ++ w, r), ih.2 ⟨hkey, w, hw, rfl⟩, rfl⟩
    · rw [if_neg hallowed]
      refine ⟨fun h => ?_, fun h => absurd h.1.1 hallowed⟩
      cases h

/-- A text that is not escaped is read as it stands exactly if it has no quote and no backslash, and only characters
that are allowed. -/
theorem readQuoted_unescaped_iff {text rest : List Char} :
    readQuoted allowed (text ++ '\'' :: rest) = some (text, rest) ↔
      ∀ c ∈ text, c ≠ '\'' ∧ c ≠ '\\' ∧ allowed c = true := by
  induction text with
  | nil => simp [readQuoted_quote]
  | cons c text ih =>
    rw [List.cons_append, List.forall_mem_cons]
    by_cases hquote : c = '\''
    · subst hquote
      simp [readQuoted_quote]
    · by_cases hslash : c = '\\'
      · -- a backslash stands for itself only if another one follows, and then one character is missing
        subst hslash
        refine ⟨fun h => ?_, fun h => absurd rfl h.1.2.1⟩
        exfalso
        obtain ⟨d, ds, hnext⟩ := List.exists_cons_of_ne_nil
          (List.append_ne_nil_of_right_ne_nil text (List.cons_ne_nil '\'' rest))
        rw [hnext, readQuoted_backslash] at h
        obtain ⟨p, hp, hvr⟩ := Option.map_eq_some_iff.1 h
        have hlength := length_of_readQuoted hp
        have htext := congrArg List.length (congrArg Prod.fst hvr)
        have hrest := congrArg List.length (congrArg Prod.snd hvr)
        have hwhole := congrArg List.length hnext
        simp only [List.length_append, List.length_cons] at htext hrest hwhole
        omega
      · rw [readQuoted_plain hquote hslash]
        by_cases hallowed : allowed c = true
        · rw [if_pos hallowed, Option.map_eq_some_iff, ← ih]
          constructor
          · rintro ⟨p, hp, hvr⟩
            cases hvr
            exact ⟨⟨hquote, hslash, hallowed⟩, hp⟩
          · rintro ⟨-, hp⟩
            exact ⟨_, hp, rfl⟩
        · rw [if_neg hallowed]
          refine ⟨fun h => ?_, fun h => absurd h.1.2.2 hallowed⟩
          cases h

/-- A quote behind a space is not escaped, so no text is read beyond it. -/
theorem readQuoted_space_quote {before rest v r : List Char}
    (h : readQuoted allowed (before ++ ' ' :: '\'' :: rest) = some (v, r)) : rest.length ≤ r.length := by
  induction hn : before.length using Nat.strongRecOn generalizing before v with
  | _ n ih =>
    cases before with
    | nil =>
      rw [List.nil_append, readQuoted_plain (by decide) (by decide)] at h
      split at h
      · rw [readQuoted_quote] at h
        cases h
        exact Nat.le_refl _
      · cases h
    | cons c before =>
      rw [List.cons_append] at h
      by_cases hquote : c = '\''
      · subst hquote
        rw [readQuoted_quote] at h
        cases h
        simp only [List.length_append, List.length_cons]
        omega
      · by_cases hslash : c = '\\'
        · subst hslash
          cases before with
          | nil =>
            -- the backslash takes the space, and the quote is still an end
            rw [List.nil_append, readQuoted_backslash, readQuoted_quote] at h
            cases h
            exact Nat.le_refl _
          | cons d before =>
            rw [List.cons_append, readQuoted_backslash] at h
            obtain ⟨p, hp, hvr⟩ := Option.map_eq_some_iff.1 h
            cases hvr
            simp only [List.length_cons] at hn
            exact ih before.length (by omega) hp rfl
        · rw [readQuoted_plain hquote hslash] at h
          split at h
          · obtain ⟨p, hp, hvr⟩ := Option.map_eq_some_iff.1 h
            cases hvr
            simp only [List.length_cons] at hn
            exact ih before.length (by omega) hp rfl
          · cases h

end Reading

/-! ### The message in the text of a directive -/

/-- What begins a message. -/
def messageMark : List Char := "message: '".toList

/-- The characters that may stand between quotes on one line. -/
def isInLine (c : Char) : Bool := c ≠ '\n' && c ≠ '\r'

/-- Reads the first message in a text: its value, and what stands behind its closing quote. -/
def readMessage (text : String) : Option (List Char × List Char) :=
  (text.toList.dropInfix? messageMark).bind fun p => readQuoted isInLine p.2

theorem messageMark_eq : messageMark = "message:".toList ++ [' ', '\''] := by decide

private theorem messageMark_eq_concat : messageMark = "message: ".toList ++ ['\''] := by decide

/-- Where no quote stands before a message, it is the first one. -/
private theorem dropInfix?_messageMark {opening : List Char} (h : '\'' ∉ opening) (rest : List Char) :
    (opening ++ (messageMark ++ rest)).dropInfix? messageMark = some (opening, rest) := by
  rw [List.dropInfix?_eq_some_iff]
  refine ⟨⟨messageMark, by rw [List.append_assoc], beq_self_eq_true _⟩, ?_⟩
  intro p mark s hsplit hmark
  obtain rfl := eq_of_beq hmark
  by_contra hshort
  -- the quote of an earlier mark would stand in the opening or among the letters of the mark
  have hquote : (p ++ messageMark ++ s)[p.length + 9]? = some '\'' := by
    rw [List.append_assoc, List.getElem?_append_right (by omega), Nat.add_sub_cancel_left,
      List.getElem?_append_left (by decide)]
    rfl
  have hletters : opening ++ (messageMark ++ rest) = (opening ++ "message: ".toList) ++ '\'' :: rest := by
    rw [messageMark_eq_concat, List.append_assoc, List.append_assoc, List.singleton_append]
  rw [← hsplit, hletters, List.getElem?_append_left (by simp; omega)] at hquote
  have hmem := List.mem_of_getElem? hquote
  rw [List.mem_append] at hmem
  rcases hmem with hmem | hmem
  · exact h hmem
  · revert hmem
    decide

/-- The text from which a message is read begins behind the mark, or it is read no further than up to there. -/
private theorem eq_or_length_le_of_dropInfix? {opening rest p s v r : List Char}
    (hdrop : (opening ++ (messageMark ++ rest)).dropInfix? messageMark = some (p, s))
    (hread : readQuoted isInLine s = some (v, r)) : s = rest ∨ rest.length ≤ r.length := by
  obtain ⟨⟨mark, hsplit, hmark⟩, hleast⟩ := List.dropInfix?_eq_some_iff.1 hdrop
  obtain rfl := eq_of_beq hmark
  have hfirst : p.length ≤ opening.length :=
    hleast opening messageMark rest (by rw [List.append_assoc]) (beq_self_eq_true _)
  have hletters : opening ++ (messageMark ++ rest) = (opening ++ "message:".toList) ++ ' ' :: '\'' :: rest := by
    rw [messageMark_eq, List.append_assoc, List.append_assoc, List.cons_append, List.singleton_append]
  rw [hletters] at hsplit
  rcases List.append_eq_append_iff.1 hsplit with ⟨more, hmore, htail⟩ | ⟨before, -, hs⟩
  · -- the mark that was found ends before the space, between it and the quote, or behind both
    cases more with
    | nil =>
      rw [List.nil_append] at htail
      rw [← htail, ← List.nil_append (' ' :: '\'' :: rest)] at hread
      exact .inr (readQuoted_space_quote hread)
    | cons a more =>
      cases more with
      | nil =>
        rw [List.singleton_append, List.cons_eq_cons] at htail
        rw [← htail.2, readQuoted_quote] at hread
        cases hread
        exact .inr (Nat.le_refl _)
      | cons b more =>
        rw [List.cons_append, List.cons_append, List.cons_eq_cons, List.cons_eq_cons] at htail
        have hlength := congrArg List.length hmore
        simp only [List.length_append, List.length_cons, messageMark_eq, List.length_nil] at hlength
        have hnil : more = [] := List.length_eq_zero_iff.1 (by omega)
        rw [hnil, List.nil_append] at htail
        exact .inl htail.2.2.symm
  · rw [hs] at hread
    exact .inr (readQuoted_space_quote hread)

/-- A message is found and read as it was meant exactly if its key stands on one line, and the rest of it, which is not
escaped, has no quote and no backslash either. -/
theorem readMessage_iff {text : String} {opening key tail closing : List Char}
    (htext : text.toList =
      opening ++ (messageMark ++ (key.flatMap Directive.escapeChar ++ (tail ++ '\'' :: closing))))
    (hopening : '\'' ∈ opening → '\'' ∈ tail) :
    readMessage text = some (key ++ tail, closing) ↔
      (∀ c ∈ key, isInLine c = true) ∧ ∀ c ∈ tail, c ≠ '\'' ∧ c ≠ '\\' ∧ isInLine c = true := by
  have hbehind : readQuoted isInLine (key.flatMap Directive.escapeChar ++ (tail ++ '\'' :: closing)) =
      some (key ++ tail, closing) ↔
        (∀ c ∈ key, isInLine c = true) ∧ ∀ c ∈ tail, c ≠ '\'' ∧ c ≠ '\\' ∧ isInLine c = true := by
    rw [readQuoted_escape_iff (by decide), ← readQuoted_unescaped_iff]
    refine and_congr_right fun _ => ⟨?_, fun h => ⟨tail, h, rfl⟩⟩
    rintro ⟨w, hw, hsame⟩
    obtain rfl := List.append_cancel_left hsame
    exact hw
  rw [← hbehind, readMessage, htext]
  constructor
  · intro h
    obtain ⟨p, hdrop, hread⟩ := Option.bind_eq_some_iff.1 h
    rcases eq_or_length_le_of_dropInfix? hdrop hread with hrest | hlong
    · rw [← hrest]
      exact hread
    · simp only [List.length_append, List.length_cons] at hlong
      omega
  · intro h
    have hquote : '\'' ∉ opening := fun hmem => ((hbehind.1 h).2 _ (hopening hmem)).1 rfl
    rw [dropInfix?_messageMark hquote, Option.bind_some]
    exact h

/-! ### Directives -/

namespace Directive

/-- The message of a directive, as it is meant to be shown. -/
def message? : Directive → Option String
  | .isNotEmpty key => some (key ++ " cannot be empty")
  | .isNumber key _ => some (key ++ " must be a number (decimal)")
  | .isBoolean key _ => some (key ++ " must be a boolean")
  | .isString key _ => some (key ++ " must be a string")
  | .isEnum name key _ => some (key ++ " must be enum " ++ name)
  | _ => none

/-- What follows the message of a directive. -/
def closing (each : Bool) : String := (if each then ", each: true" else "") ++ " \x7d)"

/-- The names in a directive leave its message in one piece: its key has no line break, and the name of its enum has no
line break, quote or backslash. -/
def Readable : Directive → Prop
  | .isNotEmpty key | .isNumber key _ | .isBoolean key _ | .isString key _ => ∀ c ∈ key.toList, isInLine c = true
  | .isEnum name key _ => (∀ c ∈ key.toList, isInLine c = true) ∧
    ∀ c ∈ name.toList, c ≠ '\'' ∧ c ≠ '\\' ∧ isInLine c = true
  | _ => True

/-- The text of a directive with a message, cut at what begins the message, its key, its closing quote. -/
theorem toList_call (start key message : String) (each : Bool) :
    (start ++ options key message each ++ ")").toList =
      (start.toList ++ "\x7b ".toList) ++ (messageMark ++ (key.toList.flatMap escapeChar ++
        (message.toList ++ '\'' :: (closing each).toList))) := by
  have hmark : "\x7b message: '".toList = "\x7b ".toList ++ messageMark := by decide
  have hquote : "'".toList = ['\''] := by decide
  have hbrace : " \x7d)".toList = " \x7d".toList ++ ")".toList := by decide
  unfold options closing
  simp only [String.toList_append, toList_escape, hmark, hquote, hbrace, List.append_assoc, List.cons_append,
    List.nil_append]

private theorem readMessage_call_iff {start key message : String} {each : Bool}
    (hstart : '\'' ∈ start.toList → '\'' ∈ message.toList) :
    readMessage (start ++ options key message each ++ ")") = some ((key ++ message).toList, (closing each).toList) ↔
      (∀ c ∈ key.toList, isInLine c = true) ∧ ∀ c ∈ message.toList, c ≠ '\'' ∧ c ≠ '\\' ∧ isInLine c = true := by
  rw [String.toList_append]
  refine readMessage_iff (toList_call start key message each) fun hmem => ?_
  rcases List.mem_append.1 hmem with hmem | hmem
  · exact hstart hmem
  · exact absurd hmem (by decide)

/-- A fixed message is read as it was meant exactly if the key has no line break. -/
private theorem readMessage_fixed_iff {start key message : String} {each : Bool} (hstart : '\'' ∉ start.toList)
    (hmessage : message.toList.all fun c => c ≠ '\'' ∧ c ≠ '\\' ∧ isInLine c = true) :
    readMessage (start ++ options key message each ++ ")") = some ((key ++ message).toList, (closing each).toList) ↔
      ∀ c ∈ key.toList, isInLine c = true := by
  rw [readMessage_call_iff fun hmem => absurd hmem hstart]
  exact and_iff_left (List.all_iff_forall_prop.1 hmessage)

/-- A message with a name in it, which stands before it too, is read as it was meant exactly if the key has no line
break and the name no line break, quote or backslash. -/
private theorem readMessage_named_iff {name key : String} {each : Bool} :
    readMessage ("@IsEnum(" ++ name ++ ", " ++ options key (" must be enum " ++ name) each ++ ")") =
        some ((key ++ (" must be enum " ++ name)).toList, (closing each).toList) ↔
      (∀ c ∈ key.toList, isInLine c = true) ∧ ∀ c ∈ name.toList, c ≠ '\'' ∧ c ≠ '\\' ∧ isInLine c = true := by
  have hstart : '\'' ∈ ("@IsEnum(" ++ name ++ ", ").toList → '\'' ∈ (" must be enum " ++ name).toList := by
    rw [String.toList_append, String.toList_append, String.toList_append, List.mem_append, List.mem_append,
      List.mem_append]
    rintro ((hmem | hmem) | hmem)
    · exact absurd hmem (by decide)
    · exact .inr hmem
    · exact absurd hmem (by decide)
  have hfixed : ∀ c ∈ " must be enum ".toList, c ≠ '\'' ∧ c ≠ '\\' ∧ isInLine c = true :=
    List.all_iff_forall_prop.1 (by decide)
  rw [readMessage_call_iff hstart, String.toList_append, List.forall_mem_append]
  exact and_congr_right fun _ => and_iff_right hfixed

/-- The message of a directive is a complete text between single quotes with the value that is meant, and behind it
stands what should, exactly if the names in the directive leave it in one piece. -/
theorem readMessage_text_iff {d : Directive} {m : String} (h : d.message? = some m) :
    readMessage d.text = some (m.toList, (closing (d.each?.getD false)).toList) ↔ d.Readable := by
  cases d with
  | isNotEmpty key =>
    cases h
    exact readMessage_fixed_iff (by decide) (by decide)
  | isNumber key each =>
    cases h
    exact readMessage_fixed_iff (by decide) (by decide)
  | isBoolean key each =>
    cases h
    exact readMessage_fixed_iff (by decide) (by decide)
  | isString key each =>
    cases h
    exact readMessage_fixed_iff (by decide) (by decide)
  | isEnum name key each =>
    cases h
    rw [String.append_assoc]
    exact readMessage_named_iff
  | _ => cases h

/-- A key with a quote and a backslash, and the name of an enum behind it. -/
theorem readMessage_text_escaped :
    let d : Directive := .isEnum "Role" "it's\\" true
    readMessage d.text = some ("it's\\ must be enum Role".toList, ", each: true \x7d)".toList) := by
  intro d
  exact (readMessage_text_iff (d := d) rfl).2
    ⟨List.all_iff_forall_prop.1 (by decide), List.all_iff_forall_prop.1 (by decide)⟩

/-- A quote in the name of an enum ends the message too early, and a line break in a key leaves it without an end. -/
theorem readMessage_text_broken :
    (let d : Directive := .isEnum "it's" "role" false
     d.message? = some "role must be enum it's" ∧
       readMessage d.text = some ("role must be enum it".toList, "s' \x7d)".toList) ∧
       readMessage d.text ≠ some ("role must be enum it's".toList, " \x7d)".toList)) ∧
    readMessage (Directive.isString "a\nb" false).text = none := by
  decide +kernel

end Directive

end SchemaDecl
