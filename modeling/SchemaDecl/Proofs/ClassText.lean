import SchemaDecl.Proofs.Modes

/-!
# Reading a class back

The file of a class tells its entity, but for the difference between an entity and a table as the type of a field.  The
text is cut into lines at the line breaks, since no line has one inside (`contentOfLines_inj`); the imports end at the
first blank line; the lines of a field end with the first one that is no directive (`Field.block_inj`); and in a member
the key and the name of the type end where the first character stands that no identifier has (`Field.classMember_inj`).
The last directive of a field tells what kind of type it has (`Field.last_directive`).
-/

namespace SchemaDecl

/-- Lists that are cut at the first element without a property, wherever it stands, are cut alike. -/
private theorem append_cons_inj_of_forall {α : Type} {p : α → Prop} {l l' rest rest' : List α} {a a' : α}
    (hl : ∀ b ∈ l, p b) (hl' : ∀ b ∈ l', p b) (ha : ¬ p a) (ha' : ¬ p a') (h : l ++ a :: rest = l' ++ a' :: rest') :
    l = l' ∧ a = a' ∧ rest = rest' := by
  induction l generalizing l' with
  | nil =>
    cases l' with
    | nil =>
      rw [List.nil_append, List.nil_append, List.cons.injEq] at h
      exact ⟨rfl, h⟩
    | cons b l' =>
      rw [List.nil_append, List.cons_append, List.cons.injEq] at h
      have hb : p b := hl' b List.mem_cons_self
      exact absurd (h.1 ▸ hb) ha
  | cons b l ih =>
    have hb : p b := hl b List.mem_cons_self
    cases l' with
    | nil =>
      rw [List.nil_append, List.cons_append, List.cons.injEq] at h
      exact absurd (h.1 ▸ hb) ha'
    | cons b' l' =>
      rw [List.cons_append, List.cons_append, List.cons.injEq] at h
      have hrest := ih (fun c hc => hl c (List.mem_cons_of_mem b hc))
        (fun c hc => hl' c (List.mem_cons_of_mem b' hc)) h.2
      rw [h.1, hrest.1]
      exact ⟨rfl, hrest.2⟩

/-! ### Lines -/

/-- A text without a line break. -/
def OneLine (s : String) : Prop := '\n' ∉ s.toList

instance (s : String) : Decidable (OneLine s) := inferInstanceAs (Decidable (¬ _))

@[simp] theorem oneLine_append {s t : String} : OneLine (s ++ t) ↔ OneLine s ∧ OneLine t := by
  simp [OneLine, not_or]

private theorem OneLine.of_subset {s : String} (h : OneLine s) {cs : List Char} (hcs : cs ⊆ s.toList) :
    OneLine (String.ofList cs) := by
  intro hmem
  rw [String.toList_ofList] at hmem
  exact h (hcs hmem)

private theorem contentOfLines_eq (ls : List Line) :
    contentOfLines ls = String.ofList ((ls.map Line.text).flatMap fun s => s.toList ++ ['\n']) := by
  rw [contentOfLines, List.flatMap_map]

/-- Texts without line breaks, each ended by one, are told by what they make together. -/
private theorem ended_lines_inj {ss ss' : List String} (hss : ∀ s ∈ ss, OneLine s) (hss' : ∀ s ∈ ss', OneLine s)
    (h : (ss.flatMap fun s => s.toList ++ ['\n']) = ss'.flatMap fun s => s.toList ++ ['\n']) : ss = ss' := by
  induction ss generalizing ss' with
  | nil =>
    cases ss' with
    | nil => rfl
    | cons s' ss' => simp at h
  | cons s ss ih =>
    cases ss' with
    | nil => simp at h
    | cons s' ss' =>
      rw [List.flatMap_cons, List.flatMap_cons, List.append_assoc, List.append_assoc, List.singleton_append,
        List.singleton_append] at h
      have hchars : ∀ {t : String}, OneLine t → ∀ c ∈ t.toList, c ≠ '\n' := by
        rintro t ht c hc rfl
        exact ht hc
      obtain ⟨htext, -, hrest⟩ := append_cons_inj_of_forall (hchars (hss s List.mem_cons_self))
        (hchars (hss' s' List.mem_cons_self)) (by simp) (by simp) h
      have hlines := ih (fun t ht => hss t (List.mem_cons_of_mem s ht))
        (fun t ht => hss' t (List.mem_cons_of_mem s' ht)) hrest
      rw [hlines, String.toList_inj.1 htext]

/-- A file tells its lines, if none of them has a line break inside. -/
theorem contentOfLines_inj {ls ls' : List Line} (hls : ∀ l ∈ ls, OneLine l.text) (hls' : ∀ l ∈ ls', OneLine l.text)
    (h : contentOfLines ls = contentOfLines ls') : ls.map Line.text = ls'.map Line.text := by
  rw [contentOfLines_eq, contentOfLines_eq, String.ofList_inj] at h
  exact ended_lines_inj (List.forall_mem_map.2 hls) (List.forall_mem_map.2 hls') h

/-! ### Identifiers -/

def isIdentifierChar (c : Char) : Bool := c.isAlphanum || c = '_' || c = '$'

/-- Whether a text is an identifier: letters, digits, `_` and `$`, at least one, and no digit in front. -/
def isIdentifier (s : String) : Bool :=
  match s.toList with
  | [] => false
  | c :: cs => !c.isDigit && (c :: cs).all isIdentifierChar

private theorem isIdentifierChar_of_mem {s : String} (h : isIdentifier s = true) :
    ∀ c ∈ s.toList, isIdentifierChar c = true := by
  unfold isIdentifier at h
  split at h
  · cases h
  · rename_i c cs hs
    rw [hs]
    exact List.all_eq_true.1 (Bool.and_eq_true_iff.1 h).2

private theorem oneLine_of_isIdentifier {s : String} (h : isIdentifier s = true) : OneLine s := by
  intro hmem
  have hbreak := isIdentifierChar_of_mem h '\n' hmem
  revert hbreak
  decide

/-- The names that a declaration takes from an entity are identifiers: its own, the keys of its fields and the names
that their types refer to.  Those of native types always are. -/
def Entity.hasIdentifiers (e : Entity) : Bool :=
  isIdentifier e.name && e.fields.all fun f => isIdentifier f.key && isIdentifier f.kind.name

private theorem Entity.hasIdentifiers_iff {e : Entity} : e.hasIdentifiers = true ↔
    isIdentifier e.name = true ∧ ∀ f ∈ e.fields, isIdentifier f.key = true ∧ isIdentifier f.kind.name = true := by
  simp [hasIdentifiers]

/-! ### Lines of a class -/

namespace Directive

/-- The texts that a directive takes from its field. -/
def words : Directive → List String
  | .isNotEmpty key | .isNumber key _ | .isBoolean key _ | .isString key _ => [key]
  | .isEnum name key _ => [name, key]
  | .type name => [name]
  | .isOptional | .transform _ | .isArray | .validateNested _ | .isObject => []

private theorem mem_replaceChar {c d : Char} {replacement text : List Char} (h : d ∈ replaceChar c replacement text) :
    d ∈ replacement ∨ d ∈ text := by
  rw [replaceChar, List.mem_flatMap] at h
  obtain ⟨e, he, hd⟩ := h
  split at hd
  · exact .inl hd
  · rw [List.mem_singleton] at hd
    exact .inr (hd ▸ he)

private theorem oneLine_escape {s : String} (h : OneLine s) : OneLine (escape s) := by
  intro hmem
  rw [escape, String.toList_ofList] at hmem
  -- what is put in is backslashes and quotes, and so no line break
  rcases mem_replaceChar hmem with hquote | hmem
  · revert hquote
    decide
  rcases mem_replaceChar hmem with hslash | hmem
  · revert hslash
    decide
  · exact h hmem

private theorem oneLine_options {key message : String} (hkey : OneLine key) (hmessage : OneLine message) (each : Bool) :
    OneLine (options key message each) := by
  have heach : OneLine (if each then ", each: true" else "") := by cases each <;> decide
  unfold options
  simp only [oneLine_append]
  exact ⟨⟨⟨⟨⟨by decide, oneLine_escape hkey⟩, hmessage⟩, by decide⟩, heach⟩, by decide⟩

private theorem oneLine_call {start arguments : String} (hstart : OneLine start) (h : OneLine arguments) :
    OneLine (start ++ arguments ++ ")") :=
  oneLine_append.2 ⟨oneLine_append.2 ⟨hstart, h⟩, by decide⟩

theorem oneLine_text {d : Directive} (h : ∀ s ∈ d.words, OneLine s) : OneLine d.text := by
  unfold text
  cases d with
  | isNotEmpty key => exact oneLine_call (by decide) (oneLine_options (h key List.mem_cons_self) (by decide) false)
  | isOptional => decide
  | transform coercion =>
    obtain ⟨scalar, each⟩ := coercion
    cases scalar <;> cases each <;> decide
  | isNumber key each => exact oneLine_call (by decide) (oneLine_options (h key List.mem_cons_self) (by decide) each)
  | isBoolean key each => exact oneLine_call (by decide) (oneLine_options (h key List.mem_cons_self) (by decide) each)
  | isString key each => exact oneLine_call (by decide) (oneLine_options (h key List.mem_cons_self) (by decide) each)
  | isEnum name key each =>
    have hname : OneLine name := h name List.mem_cons_self
    have hkey : OneLine key := h key (List.mem_cons_of_mem name List.mem_cons_self)
    have hmessage : OneLine (" must be enum " ++ name) := oneLine_append.2 ⟨by decide, hname⟩
    refine oneLine_call ?_ (oneLine_options hkey hmessage each)
    exact oneLine_append.2 ⟨oneLine_append.2 ⟨by decide, hname⟩, by decide⟩
  | isArray => decide
  | validateNested each => cases each <;> decide
  | isObject => decide
  | type name => exact oneLine_call (by decide) (h name List.mem_cons_self)

end Directive

namespace Field

/-- A field gives its directives its key and the name of its type, and nothing else. -/
private theorem words_of_directives {f : Field} {d : Directive} (hd : d ∈ f.directives) :
    ∀ s ∈ d.words, s = f.key ∨ s = f.kind.name := by
  cases directs_of_mem hd with
  | isEnum hkind =>
    rw [hkind]
    simp [Directive.words, FieldKind.name]
  | type hkind =>
    rw [hkind]
    simp [Directive.words, FieldKind.name]
  | _ => simp [Directive.words]

private theorem oneLine_typeText {f : Field} (h : OneLine f.kind.name) : OneLine f.typeText := by
  unfold typeText
  refine oneLine_append.2 ⟨h, ?_⟩
  cases f.array <;> decide

private theorem oneLine_fieldLines {f : Field} (hkey : OneLine f.key) (hname : OneLine f.kind.name) :
    ∀ l ∈ Mode.classes.fieldLines f, OneLine l.text := by
  intro l hl
  rcases List.mem_append.1 hl with hl | hl
  · obtain ⟨d, hd, rfl⟩ := List.mem_map.1 hl
    have hwords : ∀ s ∈ d.words, OneLine s := by
      intro s hs
      rcases words_of_directives hd s hs with rfl | rfl
      · exact hkey
      · exact hname
    exact oneLine_append.2 ⟨by decide, Directive.oneLine_text hwords⟩
  · have hmark : OneLine (if f.required then "!: " else "?: ") := by cases f.required <;> decide
    rw [List.mem_singleton.1 hl, text_member_classes]
    unfold classMember
    simp only [oneLine_append]
    exact ⟨⟨⟨by decide, hkey⟩, hmark⟩, oneLine_typeText hname⟩

end Field

private theorem Import.oneLine_specifier {path : String} (h : OneLine path) : OneLine (specifier path) := by
  unfold specifier
  split
  · exact oneLine_append.2 ⟨by decide, h⟩
  · split
    · exact h
    · exact oneLine_append.2 ⟨by decide, h⟩

private theorem oneLine_trimBoth {s : String} (h : OneLine s) (c : Char) : OneLine (trimBoth c s) := by
  refine h.of_subset fun d hd => ?_
  have hback := (List.dropWhile_sublist _).subset (List.mem_reverse.1 hd)
  exact (List.dropWhile_sublist _).subset (List.mem_reverse.1 hback)

private theorem Mode.oneLine_preambleLines {config : Config} (h : OneLine config.outputDir) :
    ∀ l ∈ Mode.classes.preambleLines config, OneLine l.text := by
  have hpath : OneLine config.helperPath := by
    unfold Config.helperPath Config.logicalPath
    simp only [oneLine_append]
    exact ⟨⟨⟨by decide, oneLine_trimBoth h '/'⟩, by decide⟩, by decide⟩
  have hpreamble : ∀ s ∈ Mode.classes.preamble config, OneLine s := by
    intro s hs
    simp only [Mode.preamble, List.mem_cons, List.not_mem_nil, or_false] at hs
    rcases hs with rfl | rfl | rfl
    · decide
    · exact oneLine_append.2 ⟨by decide +kernel, by decide⟩
    · simp only [oneLine_append]
      exact ⟨⟨⟨⟨by decide, by decide⟩, by decide⟩, Import.oneLine_specifier hpath⟩, by decide⟩
  intro l hl
  unfold Mode.preambleLines at hl
  split at hl
  · cases hl
  · rcases List.mem_append.1 hl with hl | hl
    · obtain ⟨s, hs, rfl⟩ := List.mem_map.1 hl
      exact hpreamble s hs
    · rw [List.mem_singleton.1 hl]
      decide

/-- No line of a class has a line break inside, if the names it is made of have none. -/
private theorem Mode.oneLine_lines {config : Config} (hdir : OneLine config.outputDir) {e : Entity}
    (he : e.hasIdentifiers = true) {imports : List Import}
    (himports : ∀ i ∈ imports, OneLine i.name ∧ OneLine i.path) :
    ∀ l ∈ Mode.classes.lines config e imports, OneLine l.text := by
  obtain ⟨hname, hfields⟩ := Entity.hasIdentifiers_iff.1 he
  intro l hl
  simp only [Mode.lines, List.mem_append, List.mem_singleton] at hl
  rcases hl with ((((hl | rfl) | hl) | rfl) | hl) | rfl
  · obtain ⟨i, hi, rfl⟩ := List.mem_map.1 hl
    obtain ⟨hi, hpath⟩ := himports i hi
    unfold Line.text Import.line
    simp only [oneLine_append]
    exact ⟨⟨⟨⟨by decide, hi⟩, by decide⟩, Import.oneLine_specifier hpath⟩, by decide⟩
  · decide
  · exact oneLine_preambleLines hdir l hl
  · unfold Line.text
    simp only [oneLine_append]
    exact ⟨⟨⟨⟨by decide, by decide⟩, by decide⟩, oneLine_of_isIdentifier hname⟩, by decide⟩
  · obtain ⟨f, hf, hl⟩ := List.mem_flatMap.1 hl
    obtain ⟨hkey, hkind⟩ := hfields f hf
    exact Field.oneLine_fieldLines (oneLine_of_isIdentifier hkey) (oneLine_of_isIdentifier hkind) l hl
  · decide

/-! ### Fields -/

/-- The same member of a class: two fields that differ at most in that one refers to an entity and the other to a table
of the same name. -/
structure Field.Alike (f g : Field) : Prop where
  key : f.key = g.key
  required : f.required = g.required
  array : f.array = g.array
  kind : f.kind = g.kind

/-- The beginning of the last directive on a field of a kind. -/
def FieldKind.mark : FieldKind → List Char
  | .native .number => ['@', 'I', 's', 'N']
  | .native .boolean => ['@', 'I', 's', 'B']
  | .native .string => ['@', 'I', 's', 'S']
  | .enum _ => ['@', 'I', 's', 'E']
  | .nested _ => ['@', 'T', 'y', 'p']

private theorem FieldKind.eq_of_mark {k k' : FieldKind} (hmark : k.mark = k'.mark) (hname : k.name = k'.name) :
    k = k' := by
  cases k with
  | native t =>
    cases k' with
    | native t' =>
      revert hmark
      cases t <;> cases t' <;> decide
    | enum n => cases t <;> cases hmark
    | nested n => cases t <;> cases hmark
  | enum n =>
    cases k' with
    | native t => cases t <;> cases hmark
    | enum n' => exact congrArg FieldKind.enum hname
    | nested n' => cases hmark
  | nested n =>
    cases k' with
    | native t => cases t <;> cases hmark
    | enum n' => cases hmark
    | nested n' => exact congrArg FieldKind.nested hname

namespace Field

theorem last_directive (f : Field) :
    f.directives.getLast?.map (fun d => d.text.toList.take 4) = some f.kind.mark := by
  unfold directives Directive.text
  cases f.kind with
  | native t => cases t <;> simp [nativeDirectives, Coercion.forNative?, FieldKind.mark]
  | enum n => simp [FieldKind.mark]
  | nested n =>
    unfold nestedDirectives
    cases f.array <;> simp [FieldKind.mark]

private theorem isIdentifierChar_marks : isIdentifierChar '!' = false ∧ isIdentifierChar '?' = false ∧
    isIdentifierChar '[' = false ∧ isIdentifierChar '@' = false := by decide

/-- The name of a type and the brackets of an array are told apart. -/
private theorem typeText_inj {f g : Field} (hf : isIdentifier f.kind.name = true) (hg : isIdentifier g.kind.name = true)
    (h : f.typeText = g.typeText) : f.array = g.array ∧ f.kind.name = g.kind.name := by
  have hbracket : ∀ {s t : String}, isIdentifier s = true → s ≠ t ++ "[]" := by
    rintro s t hs rfl
    have hchar := isIdentifierChar_of_mem hs '[' (by simp)
    rw [isIdentifierChar_marks.2.2.1] at hchar
    cases hchar
  unfold typeText at h
  cases hfa : f.array <;> cases hga : g.array <;> simp only [hfa, hga, Bool.false_eq_true, if_false, if_true,
    String.append_empty] at h
  · exact ⟨rfl, h⟩
  · exact absurd h (hbracket hf)
  · exact absurd h.symm (hbracket hg)
  · exact ⟨rfl, (String.append_left_inj _).1 h⟩

/-- A member tells its key, whether it is required, and its type text. -/
theorem classMember_inj {f g : Field} (hf : isIdentifier f.key = true) (hg : isIdentifier g.key = true)
    (h : f.classMember = g.classMember) : f.key = g.key ∧ f.required = g.required ∧ f.typeText = g.typeText := by
  obtain ⟨hbang, hquestion, -⟩ := isIdentifierChar_marks
  -- the character after the key is no part of an identifier and says whether the member is required
  have hcut : ∀ k : Field, k.classMember.toList =
      [' ', ' '] ++ (k.key.toList ++ (if k.required then '!' else '?') :: ([':', ' '] ++ k.typeText.toList)) := by
    intro k
    unfold classMember
    cases k.required <;> simp
  have hmark : ∀ b : Bool, ¬ isIdentifierChar (if b then '!' else '?') = true := by
    intro b
    cases b <;> simp [hbang, hquestion]
  have hlist := congrArg String.toList h
  rw [hcut, hcut, List.append_cancel_left_eq] at hlist
  obtain ⟨hkey, hrequired, htype⟩ := append_cons_inj_of_forall (isIdentifierChar_of_mem hf) (isIdentifierChar_of_mem hg)
    (hmark f.required) (hmark g.required) hlist
  refine ⟨String.toList_inj.1 hkey, ?_, String.toList_inj.1 (List.append_cancel_left htype)⟩
  revert hrequired
  cases f.required <;> cases g.required <;> simp

/-- The lines of a field in a class. -/
def block (f : Field) : List String := f.directives.map (fun d => "  " ++ d.text) ++ [f.classMember]

/-- Whether a line begins as the directives in a class do. -/
def isDirectiveLine (s : String) : Bool := s.toList.take 3 = [' ', ' ', '@']

private theorem isDirectiveLine_text (d : Directive) : isDirectiveLine ("  " ++ d.text) = true := by
  unfold isDirectiveLine Directive.text
  cases d <;> simp

private theorem isDirectiveLine_classMember {f : Field} (h : isIdentifier f.key = true) :
    isDirectiveLine f.classMember = false := by
  have hchars := isIdentifierChar_of_mem h
  unfold isDirectiveLine classMember
  cases hkey : f.key.toList with
  | nil => cases f.required <;> simp [hkey]
  | cons c cs =>
    have hc : c ≠ '@' := by
      rintro rfl
      have hat := hchars '@' (by rw [hkey]; exact List.mem_cons_self)
      rw [isIdentifierChar_marks.2.2.2] at hat
      cases hat
    simp [hkey, hc]

/-- The lines of a field, whatever follows, tell the field and what follows. -/
theorem block_inj {f g : Field} (hf : isIdentifier f.key = true ∧ isIdentifier f.kind.name = true)
    (hg : isIdentifier g.key = true ∧ isIdentifier g.kind.name = true) {rest rest' : List String}
    (h : f.block ++ rest = g.block ++ rest') : f.Alike g ∧ rest = rest' := by
  have hdirectives : ∀ k : Field, ∀ s ∈ k.directives.map (fun d => "  " ++ d.text), isDirectiveLine s = true := by
    intro k s hs
    obtain ⟨d, -, rfl⟩ := List.mem_map.1 hs
    exact isDirectiveLine_text d
  rw [block, block, List.append_assoc, List.append_assoc, List.singleton_append, List.singleton_append] at h
  obtain ⟨htexts, hmember, hrest⟩ := append_cons_inj_of_forall (hdirectives f) (hdirectives g)
    (by simp [isDirectiveLine_classMember hf.1]) (by simp [isDirectiveLine_classMember hg.1]) h
  obtain ⟨hkey, hrequired, htype⟩ := classMember_inj hf.1 hg.1 hmember
  obtain ⟨harray, hname⟩ := typeText_inj hf.2 hg.2 htype
  have hmark : f.kind.mark = g.kind.mark := by
    have hlast := congrArg (fun ss => ss.getLast?.map fun s => (s.toList.drop 2).take 4) htexts
    simpa [List.getLast?_map, Function.comp_def, last_directive] using hlast
  exact ⟨⟨hkey, hrequired, harray, FieldKind.eq_of_mark hmark hname⟩, hrest⟩

/-- No line of a field is the closing brace. -/
private theorem head_block (f : Field) (rest : List String) (l : List String) : f.block ++ rest ≠ "\x7d" :: l := by
  intro h
  have hlines : f.block ++ rest = ("  " ++ (if f.required then Directive.isNotEmpty f.key else .isOptional).text) ::
      ((f.block ++ rest).tail) := rfl
  rw [hlines, List.cons.injEq] at h
  have hhead := congrArg String.toList h.1
  simp at hhead

theorem blocks_inj {fs gs : List Field} (hfs : ∀ f ∈ fs, isIdentifier f.key = true ∧ isIdentifier f.kind.name = true)
    (hgs : ∀ g ∈ gs, isIdentifier g.key = true ∧ isIdentifier g.kind.name = true)
    (h : fs.flatMap block ++ ["\x7d"] = gs.flatMap block ++ ["\x7d"]) : List.Forall₂ Alike fs gs := by
  induction fs generalizing gs with
  | nil =>
    cases gs with
    | nil => exact .nil
    | cons g gs =>
      rw [List.flatMap_cons, List.append_assoc] at h
      exact absurd h.symm (head_block g _ [])
  | cons f fs ih =>
    cases gs with
    | nil =>
      rw [List.flatMap_cons, List.append_assoc] at h
      exact absurd h (head_block f _ [])
    | cons g gs =>
      rw [List.flatMap_cons, List.flatMap_cons, List.append_assoc, List.append_assoc] at h
      obtain ⟨halike, hrest⟩ := block_inj (hfs f List.mem_cons_self) (hgs g List.mem_cons_self) h
      exact .cons halike (ih (fun k hk => hfs k (List.mem_cons_of_mem f hk))
        (fun k hk => hgs k (List.mem_cons_of_mem g hk)) hrest)

end Field

/-! ### Entities -/

private theorem Mode.text_lines_classes (config : Config) (e : Entity) (imports : List Import) :
    (Mode.classes.lines config e imports).map Line.text =
      imports.map Import.line ++ "" :: (Mode.classes.preamble config ++ "" :: ("export class " ++ e.name ++ " \x7b") ::
        (e.fields.flatMap Field.block ++ ["\x7d"])) := by
  have himports : (imports.map Line.imported).map Line.text = imports.map Import.line := by
    rw [List.map_map]
    rfl
  have hfields : (e.fields.flatMap Mode.classes.fieldLines).map Line.text = e.fields.flatMap Field.block :=
    text_fieldLines_classes e.fields
  simp only [Mode.lines, List.map_append, himports, hfields, List.append_assoc]
  rfl

/-- A class loses nothing of its entity but whether a name is that of an entity or of a table.  Two entities of
identifiers, rendered under the same settings with whatever imports, give different files unless they have the same name
and fields that are alike, one by one. -/
theorem class_content_inj {config : Config} (hdir : OneLine config.outputDir) {e₁ e₂ : Entity}
    (he₁ : e₁.hasIdentifiers = true) (he₂ : e₂.hasIdentifiers = true) {imports₁ imports₂ : List Import}
    (himports₁ : ∀ i ∈ imports₁, OneLine i.name ∧ OneLine i.path)
    (himports₂ : ∀ i ∈ imports₂, OneLine i.name ∧ OneLine i.path)
    (h : (e₁.render (config.inMode .classes) imports₁).file.content =
      (e₂.render (config.inMode .classes) imports₂).file.content) :
    e₁.name = e₂.name ∧ List.Forall₂ Field.Alike e₁.fields e₂.fields := by
  have hlines := contentOfLines_inj (Mode.oneLine_lines hdir he₁ himports₁) (Mode.oneLine_lines hdir he₂ himports₂) h
  rw [Mode.text_lines_classes, Mode.text_lines_classes] at hlines
  -- an import is no blank line, so the first blank line is the one after the imports
  have hfilled : ∀ imports : List Import, ∀ s ∈ imports.map Import.line, s ≠ "" := by
    intro imports s hs
    obtain ⟨i, -, rfl⟩ := List.mem_map.1 hs
    intro hempty
    have hlist := congrArg String.toList hempty
    unfold Import.line at hlist
    simp at hlist
  obtain ⟨-, -, hclass⟩ := append_cons_inj_of_forall (hfilled imports₁) (hfilled imports₂) (by simp) (by simp) hlines
  have hbody := List.append_cancel_left hclass
  rw [List.cons.injEq, List.cons.injEq] at hbody
  obtain ⟨-, hheader, hfields⟩ := hbody
  have hname : e₁.name = e₂.name := by
    have hleft := (String.append_left_inj _).1 hheader
    exact (String.append_right_inj _).1 hleft
  exact ⟨hname, Field.blocks_inj (Entity.hasIdentifiers_iff.1 he₁).2 (Entity.hasIdentifiers_iff.1 he₂).2 hfields⟩

/-- An entity in the place of a table, with an enum that has the name of a native type.  The imports are two that are
written alike. -/
theorem class_content_inj_table :
    let e₁ : Entity := ⟨"A", [⟨"b", true, false, .schema "B"⟩, ⟨"n", false, true, .enum "number"⟩]⟩
    let e₂ : Entity := ⟨"A", [⟨"b", true, false, .table "B"⟩, ⟨"n", false, true, .enum "number"⟩]⟩
    (e₁.render (({} : Config).inMode .classes) [⟨"B", "./m/B"⟩]).file.content =
        (e₂.render (({} : Config).inMode .classes) [⟨"B", "../m/B"⟩]).file.content ∧
      e₁.name = e₂.name ∧ List.Forall₂ Field.Alike e₁.fields e₂.fields := by
  intro e₁ e₂
  have hsame : (e₁.render (({} : Config).inMode .classes) [⟨"B", "./m/B"⟩]).file.content =
      (e₂.render (({} : Config).inMode .classes) [⟨"B", "../m/B"⟩]).file.content := by
    have himport : Import.line ⟨"B", "./m/B"⟩ = Import.line ⟨"B", "../m/B"⟩ := by decide
    have hblocks : e₁.fields.flatMap Field.block = e₂.fields.flatMap Field.block := rfl
    show contentOfLines (Mode.classes.lines _ e₁ _) = contentOfLines (Mode.classes.lines _ e₂ _)
    rw [contentOfLines_eq, contentOfLines_eq, Mode.text_lines_classes, Mode.text_lines_classes, hblocks,
      List.map_singleton, List.map_singleton, himport]
  exact ⟨hsame, class_content_inj (by decide) (by decide) (by decide) (by decide) (by decide) hsame⟩

end SchemaDecl
