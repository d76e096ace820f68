import SchemaDecl.Proofs.Messages

/-!
# Telling a directive from its text

No two directives have the same text, whatever their keys and names are.  The beginning of the text tells its kind
(`Directive.mark`).  The end tells whether every element is meant (`Directive.closing_inj`), and escaping keeps keys
apart (`Directive.escape_inj`).  The name of an enum stands in the text twice and is not escaped, so it may hold
whatever the text has between: what fixes its end is that a quote behind a space opens the message and does not come
again before the second name (`Directive.name_eq_of_length_le`).
-/

namespace SchemaDecl

/-- Lists that are cut at the last place where two things stand side by side are cut alike, if one of them is cut there
and the other not earlier. -/
private theorem eq_of_append_pair {α : Type} {a b : α} (hab : a ≠ b) {l l' r r' : List α} (hlast : ¬ [a, b] <:+: r)
    (hlength : l.length ≤ l'.length) (h : l ++ a :: b :: r = l' ++ a :: b :: r') : l = l' := by
  rcases List.append_eq_append_iff.1 h with ⟨between, hl, hr⟩ | ⟨between, hl, -⟩
  · cases between with
    | nil => rw [hl, List.append_nil]
    | cons c between =>
      cases between with
      | nil =>
        rw [List.singleton_append, List.cons_eq_cons, List.cons_eq_cons] at hr
        exact absurd hr.2.1.symm hab
      | cons d between =>
        rw [List.cons_append, List.cons_append, List.cons_eq_cons, List.cons_eq_cons] at hr
        refine absurd ⟨between, r', ?_⟩ hlast
        rw [hr.2.2, List.append_assoc, List.cons_append, List.singleton_append]
  · have hsame := congrArg List.length hl
    rw [List.length_append] at hsame
    have hnil : between = [] := List.length_eq_zero_iff.1 (by omega)
    rw [hl, hnil, List.append_nil]

namespace Directive

/-! ### Escaped keys -/

private theorem readQuoted_escaped {tail : List Char} (htail : ∀ c ∈ tail, c ≠ '\'' ∧ c ≠ '\\')
    (key rest : List Char) :
    readQuoted (fun _ => true) (key.flatMap escapeChar ++ (tail ++ '\'' :: rest)) = some (key ++ tail, rest) := by
  refine (readQuoted_escape_iff ⟨rfl, rfl⟩).2 ⟨fun _ _ => rfl, tail, ?_, rfl⟩
  exact readQuoted_unescaped_iff.2 fun c hc => ⟨(htail c hc).1, (htail c hc).2, rfl⟩

theorem escape_inj {key key' : List Char} (h : key.flatMap escapeChar = key'.flatMap escapeChar) : key = key' := by
  have hkey := readQuoted_escaped (List.forall_mem_nil _) key []
  rw [h, readQuoted_escaped (List.forall_mem_nil _) key' [], List.append_nil, List.append_nil] at hkey
  exact (congrArg Prod.fst (Option.some.inj hkey)).symm

/-- No quote stands behind a space in an escaped key, nor in a plain text after it. -/
private theorem no_space_quote_escape {tail : List Char} (htail : ∀ c ∈ tail, c ≠ '\'' ∧ c ≠ '\\') (key : List Char) :
    ¬ [' ', '\''] <:+: key.flatMap escapeChar ++ tail := by
  rintro ⟨before, behind, h⟩
  have hread := readQuoted_escaped htail key []
  have hsplit : key.flatMap escapeChar ++ (tail ++ ['\'']) = before ++ ' ' :: '\'' :: (behind ++ ['\'']) := by
    rw [← List.append_assoc, ← h]
    simp
  rw [hsplit] at hread
  have hlength := readQuoted_space_quote hread
  simp at hlength

/-! ### The end of a text -/

private theorem closing_ne (l l' : List Char) :
    l ++ '\'' :: (closing false).toList ≠ l' ++ '\'' :: (closing true).toList := by
  intro h
  have hone : '\'' :: (closing false).toList = '\'' :: " \x7d)".toList := by decide
  have heach : '\'' :: (closing true).toList = "', each: tru".toList ++ 'e' :: " \x7d)".toList := by decide
  rw [hone, heach, ← List.append_assoc] at h
  have hlast := (List.append_inj' h rfl).2
  rw [List.cons_eq_cons] at hlast
  exact absurd hlast.1 (by decide)

/-- What stands behind the last quote tells whether every element is meant. -/
theorem closing_inj {l l' : List Char} {each each' : Bool}
    (h : l ++ '\'' :: (closing each).toList = l' ++ '\'' :: (closing each').toList) : l = l' ∧ each = each' := by
  cases each with
  | false =>
    cases each' with
    | false => exact ⟨List.append_cancel_right h, rfl⟩
    | true => exact absurd h (closing_ne l l')
  | true =>
    cases each' with
    | false => exact absurd h.symm (closing_ne l' l)
    | true => exact ⟨List.append_cancel_right h, rfl⟩

theorem call_inj {start key key' message : String} {each each' : Bool}
    (h : start ++ options key message each ++ ")" = start ++ options key' message each' ++ ")") :
    key = key' ∧ each = each' := by
  have hlist := congrArg String.toList h
  rw [toList_call, toList_call] at hlist
  have hbody := List.append_cancel_left (List.append_cancel_left hlist)
  rw [← List.append_assoc, ← List.append_assoc] at hbody
  obtain ⟨hkey, heach⟩ := closing_inj hbody
  exact ⟨String.toList_inj.1 (escape_inj (List.append_cancel_right hkey)), heach⟩

private theorem call_word_inj {start word word' : String}
    (h : start ++ word ++ ")" = start ++ word' ++ ")") : word = word' :=
  (String.append_right_inj start).1 ((String.append_left_inj ")").1 h)

theorem helperName_inj {c c' : Coercion} (h : c.helperName = c'.helperName) : c = c' := by
  obtain ⟨scalar, each⟩ := c
  obtain ⟨scalar', each'⟩ := c'
  revert h
  cases scalar <;> cases each <;> cases scalar' <;> cases each' <;> decide

/-! ### The name of an enum -/

/-- The names of two enums are the same if so are the texts from the first place of the name to the second one: both end
with the name, and the opening quote of the message fixes the end of the first. -/
theorem name_eq_of_length_le {name name' key key' opening message : List Char}
    (hmessage : ∀ c ∈ message, c ≠ '\'' ∧ c ≠ '\\') (hlength : name.length ≤ name'.length)
    (h : name ++ opening ++ ' ' :: '\'' :: (key.flatMap escapeChar ++ message) ++ name =
      name' ++ opening ++ ' ' :: '\'' :: (key'.flatMap escapeChar ++ message) ++ name') : name = name' := by
  have hsuffix : name <:+ name' :=
    List.suffix_of_suffix_length_le (h ▸ List.suffix_append _ name) (List.suffix_append _ name') hlength
  obtain ⟨more, rfl⟩ := hsuffix
  rw [← List.append_assoc _ more name] at h
  have hfront := List.append_cancel_right h
  rw [List.append_assoc (more ++ name ++ opening), List.cons_append, List.cons_append] at hfront
  have hopening : (name ++ opening).length ≤ (more ++ name ++ opening).length := by
    simp only [List.length_append]
    omega
  exact List.append_cancel_right
    (eq_of_append_pair (by decide) (no_space_quote_escape hmessage key) hopening hfront)

private theorem toList_isEnum (name key : String) (each : Bool) :
    (isEnum name key each).text.toList = "@IsEnum(".toList ++ (name.toList ++ ", \x7b message:".toList ++
      ' ' :: '\'' :: (key.toList.flatMap escapeChar ++ " must be enum ".toList) ++ name.toList ++
        '\'' :: (closing each).toList) := by
  have hopening : ", \x7b message:".toList = ", ".toList ++ ("\x7b ".toList ++ "message:".toList) := by decide
  unfold text
  rw [toList_call]
  simp only [String.toList_append, hopening, messageMark_eq, List.append_assoc, List.cons_append, List.nil_append]

theorem isEnum_inj {name name' key key' : String} {each each' : Bool}
    (h : (isEnum name key each).text = (isEnum name' key' each').text) : name = name' ∧ key = key' ∧ each = each' := by
  have hlist := congrArg String.toList h
  rw [toList_isEnum, toList_isEnum] at hlist
  obtain ⟨hnames, heach⟩ := closing_inj (List.append_cancel_left hlist)
  have hplain : ∀ c ∈ " must be enum ".toList, c ≠ '\'' ∧ c ≠ '\\' :=
    List.all_iff_forall_prop.1 (by decide)
  have hname : name.toList = name'.toList := by
    rcases Nat.le_total name.toList.length name'.toList.length with hlength | hlength
    · exact name_eq_of_length_le hplain hlength hnames
    · exact (name_eq_of_length_le hplain hlength hnames.symm).symm
  rw [hname] at hnames
  have hbody := List.append_cancel_left (List.append_cancel_right hnames)
  rw [List.cons_eq_cons, List.cons_eq_cons] at hbody
  exact ⟨String.toList_inj.1 hname, String.toList_inj.1 (escape_inj (List.append_cancel_right hbody.2.2)), heach⟩

/-! ### Kinds -/

/-- The beginning of the text of a directive, up to where the kinds differ. -/
def mark : Directive → List Char
  | .isNotEmpty _ => ['@', 'I', 's', 'N', 'o', 't']
  | .isOptional => ['@', 'I', 's', 'O', 'p', 't']
  | .transform _ => ['@', 'T', 'r', 'a', 'n', 's']
  | .isNumber _ _ => ['@', 'I', 's', 'N', 'u', 'm']
  | .isBoolean _ _ => ['@', 'I', 's', 'B', 'o', 'o']
  | .isString _ _ => ['@', 'I', 's', 'S', 't', 'r']
  | .isEnum _ _ _ => ['@', 'I', 's', 'E', 'n', 'u']
  | .isArray => ['@', 'I', 's', 'A', 'r', 'r']
  | .validateNested _ => ['@', 'V', 'a', 'l', 'i', 'd']
  | .isObject => ['@', 'I', 's', 'O', 'b', 'j']
  | .type _ => ['@', 'T', 'y', 'p', 'e', '(']

private theorem take_text (d : Directive) : d.text.toList.take 6 = d.mark := by
  unfold text
  cases d <;> simp [mark]

/-- The text of a directive tells its kind, its key, its names and whether every element is meant. -/
theorem text_inj {d₁ d₂ : Directive} : d₁.text = d₂.text ↔ d₁ = d₂ := by
  refine ⟨fun h => ?_, congrArg text⟩
  have hmark : d₁.mark = d₂.mark := by rw [← take_text, ← take_text, h]
  cases d₁ <;> cases d₂ <;> simp [mark] at hmark
  case isNotEmpty.isNotEmpty key key' => rw [(call_inj h).1]
  case isOptional.isOptional => rfl
  case transform.transform c c' => rw [helperName_inj (call_word_inj h)]
  case isNumber.isNumber key each key' each' =>
    obtain ⟨rfl, rfl⟩ := call_inj h
    rfl
  case isBoolean.isBoolean key each key' each' =>
    obtain ⟨rfl, rfl⟩ := call_inj h
    rfl
  case isString.isString key each key' each' =>
    obtain ⟨rfl, rfl⟩ := call_inj h
    rfl
  case isEnum.isEnum name key each name' key' each' =>
    obtain ⟨rfl, rfl, rfl⟩ := isEnum_inj h
    rfl
  case isArray.isArray => rfl
  case validateNested.validateNested each each' =>
    revert h
    cases each <;> cases each' <;> decide
  case isObject.isObject => rfl
  case type.type name name' => rw [call_word_inj h]

end Directive

end SchemaDecl
