import SchemaDecl.Proofs.Representation
import SchemaDecl.Schema.Printer

/-!
# Documents and settings as text

Decoding the text of a document gives the document, and the same holds for settings (`decode_encode`).  What is printed
has all members in the order of declaration, which is one of the ways to write a record (`recordWritten_object`); a map
is written entry by entry, and inserting the entries of a map in their order builds the map again
(`PathMap.ofList_entries`).  Every other way to write a document or settings, spelled in whatever way, decodes to the
same (`decode_written`).
-/

namespace SchemaDecl

open Json Decoder

/-! ### Records with all their members -/

private theorem names_of_forall₂ {members : List Member} {ms : List (String × List Token)}
    (h : List.Forall₂ (fun m p => p.1 = m.name ∧ m.Writes p.2) members ms) :
    ms.map Prod.fst = members.map Member.name ∧ ∀ p ∈ ms, ∃ m ∈ members, p.1 = m.name ∧ m.Writes p.2 := by
  induction h with
  | nil => exact ⟨rfl, nofun⟩
  | @cons m p members ms hp _ ih =>
    obtain ⟨hnames, hmem⟩ := ih
    refine ⟨by rw [List.map_cons, List.map_cons, hnames, hp.1],
      List.forall_mem_cons.2 ⟨⟨m, List.mem_cons_self, hp⟩, ?_⟩⟩
    intro q hq
    obtain ⟨m', hm', hq'⟩ := hmem q hq
    exact ⟨m', List.mem_cons_of_mem m hm', hq'⟩

/-- The object of all members in their order is one of the ways to write a record. -/
theorem recordWritten_object {members : List Member} (hnodup : (members.map Member.name).Nodup)
    {ms : List (String × List Token)} (h : List.Forall₂ (fun m p => p.1 = m.name ∧ m.Writes p.2) members ms)
    (Other : List Token → Prop) : RecordWritten members Other (Token.object ms) := by
  obtain ⟨hnames, hmem⟩ := names_of_forall₂ h
  have hentries : (ms.map fun p => Entry.ofText p.1 p.2).map Entry.name = members.map Member.name := by
    rw [← hnames, List.map_map]
    rfl
  have hobject : Token.object ms = .openObject :: memberTokens (ms.map fun p => Entry.ofText p.1 p.2) := by
    rw [Token.object, memberTokens, List.map_map]
    rfl
  rw [hobject]
  refine .object ⟨List.forall_mem_map.2 fun p hp => ?_, ?_, ?_⟩
  · obtain ⟨m, hm, hname, hwrites⟩ := hmem p hp
    constructor
    · -- no two members share a name, so the entry writes the member it was made for
      intro m' hm' hname'
      have heq : m' = m := List.inj_on_of_nodup_map hnodup hm' hm (hname'.trans hname)
      rw [heq]
      exact hwrites
    · intro hne
      exact absurd hname.symm (hne m hm)
  · intro m _
    rw [hentries]
    exact List.nodup_iff_count_le_one.1 hnodup m.name
  · intro m hm
    rw [hentries]
    exact .inl (List.mem_map_of_mem hm)

private theorem textWritten_ofText (s : String) : TextWritten s [.ofText s] := ⟨_, rfl, Token.text?_ofText s⟩

private theorem arrayWritten_map {α : Type} {Writes : α → List Token → Prop} {tokens : α → List Token}
    (h : ∀ a, Writes a (tokens a)) (as : List α) : ArrayWritten Writes as (Token.array (as.map tokens)) := by
  refine ⟨_, rfl, ?_⟩
  rw [List.forall₂_map_left_iff, List.forall₂_same]
  exact fun a _ => h a

private theorem FieldType.written_tokens (t : FieldType) : t.Written t.tokens :=
  recordWritten_object (by simp [(tag_member_ne t.tag).symm]) (.cons ⟨rfl, textWritten_ofText _⟩
    (.cons ⟨rfl, textWritten_ofText _⟩ .nil)) _

private theorem Field.written_tokens (f : Field) : f.Written f.tokens :=
  recordWritten_object (by simp) (.cons ⟨rfl, textWritten_ofText _⟩ (.cons ⟨rfl, rfl⟩ (.cons ⟨rfl, rfl⟩
    (.cons ⟨rfl, f.type.written_tokens⟩ .nil)))) _

private theorem Entity.written_tokens (e : Entity) : e.Written e.tokens :=
  recordWritten_object (by simp) (.cons ⟨rfl, textWritten_ofText _⟩
    (.cons ⟨rfl, arrayWritten_map Field.written_tokens _⟩ .nil)) _

namespace PathMap

private theorem insertEntry_of_last {name path : String} {l : List (String × String)} (h : ∀ e ∈ l, e.1 < name) :
    insertEntry name path l = l ++ [(name, path)] := by
  induction l with
  | nil => rfl
  | cons e l ih =>
    obtain ⟨hlt, hrest⟩ := List.forall_mem_cons.1 h
    have hne : name ≠ e.1 := by
      intro heq
      rw [heq] at hlt
      exact String.lt_irrefl _ hlt
    have hnlt : ¬ name < e.1 := fun h => String.lt_irrefl _ (String.lt_trans h hlt)
    rw [insertEntry, if_neg hnlt, if_neg hne, ih hrest, List.cons_append]

/-- Entries that come after those of a map are appended to them. -/
private theorem entries_foldl_insert {entries : List (String × String)} {m : PathMap}
    (h : (m.entries ++ entries).Pairwise fun a b => a.1 < b.1) :
    (entries.foldl (fun m (name, path) => m.insert name path) m).entries = m.entries ++ entries := by
  induction entries generalizing m with
  | nil => rw [List.foldl_nil, List.append_nil]
  | cons e entries ih =>
    have hlast : (m.insert e.1 e.2).entries = m.entries ++ [e] :=
      insertEntry_of_last fun e' he' => (List.pairwise_append.1 h).2.2 e' he' e List.mem_cons_self
    rw [List.append_cons, ← hlast] at h
    rw [List.foldl_cons, ih h, hlast, List.append_assoc, List.singleton_append]

/-- A map is the map of its entries. -/
theorem ofList_entries (m : PathMap) : ofList m.entries = m :=
  PathMap.ext (entries_foldl_insert (m := empty) m.sorted)

private theorem written_tokens (m : PathMap) : m.Written m.tokens := by
  refine ⟨m.entries.map fun e => .ofText e.1 [.ofText e.2], m.entries.map Prod.snd, ?_, ?_, ?_⟩
  · rw [tokens, Token.object, memberTokens, List.map_map, List.map_map]
    rfl
  · rw [List.forall₂_map_left_iff, List.forall₂_map_right_iff, List.forall₂_same]
    exact fun e _ => textWritten_ofText e.2
  · intro name
    have hzip : ((m.entries.map fun e => Entry.ofText e.1 [.ofText e.2]).map Entry.name).zip (m.entries.map Prod.snd) =
        m.entries := by
      rw [List.map_map, List.zip_map']
      exact List.map_id m.entries
    have hget := get?_foldl_insert m.entries empty name
    rw [show m.entries.foldl _ empty = m from m.ofList_entries, get?_empty, Option.or_none] at hget
    rw [hzip, hget]

end PathMap

theorem Document.written_tokens (d : Document) : d.Written d.tokens :=
  recordWritten_object (by simp) (.cons ⟨rfl, arrayWritten_map Entity.written_tokens _⟩
    (.cons ⟨rfl, d.tables.written_tokens⟩ .nil)) _

theorem Config.written_tokens (c : Config) : c.Written c.tokens :=
  recordWritten_object (by simp) (.cons ⟨rfl, textWritten_ofText _⟩ (.cons ⟨rfl, textWritten_ofText _⟩
    (.cons ⟨rfl, textWritten_ofText _⟩ (.cons ⟨rfl, rfl⟩ (.cons ⟨rfl, rfl⟩ .nil))))) _

theorem Document.reads_tokens (d : Document) : decoder.Reads d.tokens d := (elementReads d.written_tokens).1

theorem Config.reads_tokens (c : Config) : decoder.Reads c.tokens c := (elementReads c.written_tokens).1

/-! ### Texts -/

private theorem FieldType.selfEnding_tokens (t : FieldType) : ∀ u ∈ t.tokens, u.SelfEnding := by
  refine Token.selfEnding_object ?_
  simp

private theorem Field.selfEnding_tokens (f : Field) : ∀ t ∈ f.tokens, t.SelfEnding := by
  refine Token.selfEnding_object ?_
  simpa using f.type.selfEnding_tokens

private theorem Entity.selfEnding_tokens (e : Entity) : ∀ t ∈ e.tokens, t.SelfEnding := by
  have hfields : ∀ t ∈ Token.array (e.fields.map Field.tokens), t.SelfEnding :=
    Token.selfEnding_array (List.forall_mem_map.2 fun f _ => f.selfEnding_tokens)
  refine Token.selfEnding_object ?_
  simpa using hfields

private theorem PathMap.selfEnding_tokens (m : PathMap) : ∀ t ∈ m.tokens, t.SelfEnding := by
  refine Token.selfEnding_object (List.forall_mem_map.2 fun e _ => ?_)
  simp

theorem Document.selfEnding_tokens (d : Document) : ∀ t ∈ d.tokens, t.SelfEnding := by
  have hentities : ∀ t ∈ Token.array (d.entities.map Entity.tokens), t.SelfEnding :=
    Token.selfEnding_array (List.forall_mem_map.2 fun e _ => e.selfEnding_tokens)
  refine Token.selfEnding_object ?_
  simpa using ⟨hentities, d.tables.selfEnding_tokens⟩

theorem Config.selfEnding_tokens (c : Config) : ∀ t ∈ c.tokens, t.SelfEnding := by
  refine Token.selfEnding_object ?_
  simp

/-- Documents and settings are what is decoded from their text. -/
theorem decode_encode :
    (∀ d : Document, Document.parse d.toJson = .ok d) ∧ ∀ c : Config, Config.parse c.toJson = .ok c :=
  ⟨fun d => d.reads_tokens.run d.selfEnding_tokens, fun c => c.reads_tokens.run c.selfEnding_tokens⟩

/-! ### All texts -/

/-- A text of a document: it spells tokens that the document may be written with. -/
def Document.IsWrittenAs (d : Document) (text : String) : Prop := ∃ ts, d.Written ts ∧ Token.Spelled ts text.toList

/-- A text of settings: it spells tokens that they may be written with. -/
def Config.IsWrittenAs (c : Config) (text : String) : Prop := ∃ ts, c.Written ts ∧ Token.Spelled ts text.toList

/-- Documents and settings are what is decoded from each of their texts, of which the printed one is one. -/
theorem decode_written :
    (∀ d : Document, d.IsWrittenAs d.toJson ∧ ∀ text, d.IsWrittenAs text → Document.parse text = .ok d) ∧
      ∀ c : Config, c.IsWrittenAs c.toJson ∧ ∀ text, c.IsWrittenAs text → Config.parse text = .ok c := by
  refine ⟨fun d => ⟨?_, ?_⟩, fun c => ⟨?_, ?_⟩⟩
  · exact ⟨d.tokens, d.written_tokens, Token.spelled_print d.selfEnding_tokens⟩
  · rintro text ⟨ts, hwritten, hspelled⟩
    exact (Document.elementReads hwritten).1.run_spelled hspelled
  · exact ⟨c.tokens, c.written_tokens, Token.spelled_print c.selfEnding_tokens⟩
  · rintro text ⟨ts, hwritten, hspelled⟩
    exact (Config.elementReads hwritten).1.run_spelled hspelled

/-- Arrays for the records, but for a type with its tag at the end behind a number; a table is written twice. -/
theorem decode_written_arrays :
    Document.parse (" [[[\"U\",[[\"t\",false,true,\x7b\"y\":7,\"table_name\":\"T\",\"type\":\"table\"\x7d]]]]," ++
        "\x7b\"T\":\"a\",\"T\":\"b\"\x7d]") =
      .ok ⟨[⟨"U", [⟨"t", false, true, .table "T"⟩]⟩], .ofList [("T", "b")]⟩ := by
  have hseven : KeptValue (FieldType.maxLevels - FieldType.levels) [.number ⟨false, ['7'], [], none⟩] :=
    .scalar (.number (n := .integer 7) (by decide))
  have htype : (FieldType.table "T").Written (.openObject :: memberTokens
      [.ofText "y" [.number ⟨false, ['7'], [], none⟩], .ofText "table_name" [.ofText "T"],
        .ofText "type" [.ofText "table"]]) := by
    refine .object ⟨?_, ?_, ?_⟩
    · simpa [Entry.Fits, FieldType.recordMembers, Entry.ofText, FieldType.tag, FieldTag.member, FieldTag.name,
        FieldType.memberText] using ⟨hseven, textWritten_ofText "T", textWritten_ofText "table"⟩
    · simp [FieldType.recordMembers, Entry.ofText, FieldType.tag, FieldTag.member]
    · simp [FieldType.recordMembers, Entry.ofText, FieldType.tag, FieldTag.member]
  have htables : (PathMap.ofList [("T", "b")]).Written
      (.openObject :: memberTokens [.ofText "T" [.ofText "a"], .ofText "T" [.ofText "b"]]) := by
    refine ⟨_, ["a", "b"], rfl, .cons (textWritten_ofText "a") (.cons (textWritten_ofText "b") .nil), fun name => ?_⟩
    rw [PathMap.ofList, PathMap.get?_foldl_insert]
    by_cases hname : name = "T"
    · subst hname
      rfl
    · simp [Entry.ofText, List.lookup_cons, beq_eq_false_iff_ne.2 hname]
  have hfield : (⟨"t", false, true, .table "T"⟩ : Field).Written _ :=
    .array (.cons (textWritten_ofText "t") (.cons rfl (.cons rfl (.cons htype (.omitted (List.forall_mem_nil _))))))
  have hentity : (⟨"U", [⟨"t", false, true, .table "T"⟩]⟩ : Entity).Written _ :=
    .array (.cons (textWritten_ofText "U") (.cons ⟨_, rfl, .cons hfield .nil⟩ (.omitted (List.forall_mem_nil _))))
  refine (decode_written.1 _).2 _
    ⟨_, .array (.cons ⟨_, rfl, .cons hentity .nil⟩ (.cons htables (.omitted (List.forall_mem_nil _)))), ?_⟩
  have hback : ∀ t ∈ [Token.comma, .ofText "table_name", .colon, .ofText "T", .comma, .ofText "type", .colon,
      .ofText "table", .closeObject, .closeArray, .closeArray, .closeArray, .closeArray, .comma, .openObject,
      .ofText "T", .colon, .ofText "a", .comma, .ofText "T", .colon, .ofText "b", .closeObject, .closeArray],
      t.SelfEnding := by
    simp [Token.SelfEnding.comma, Token.SelfEnding.colon, Token.SelfEnding.openObject, Token.SelfEnding.closeObject,
      Token.SelfEnding.closeArray]
  have hfront : ∀ t ∈ [Token.openArray, .openArray, .openArray, .ofText "U", .comma, .openArray, .openArray,
      .ofText "t", .comma, .boolean false, .comma, .boolean true, .comma, .openObject, .ofText "y", .colon],
      t.SelfEnding := by
    simp [Token.SelfEnding.comma, Token.SelfEnding.colon, Token.SelfEnding.openObject, Token.SelfEnding.openArray]
  have hnumber : (Token.number ⟨false, ['7'], [], none⟩).Spelling ['7'] :=
    .number (.mk (.digits rfl (by decide) (by simp)) .none .none)
  have hrest := Token.Spelled.token hnumber (fun _ _ c hc => by cases hc; rfl) (.print_append hback .nil)
  have hspelled := (hrest.print_append hfront).space (c := ' ') rfl
  exact hspelled

end SchemaDecl
