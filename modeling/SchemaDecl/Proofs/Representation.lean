import SchemaDecl.Config
import SchemaDecl.Proofs.Closure
import SchemaDecl.Proofs.Written
import SchemaDecl.Schema.Reader

/-!
# The ways to write documents and settings

The members of each record, with what may be left out and what may stand beside them (`Written`), and that the decoders
read every way to write one (`elementReads`), from types to documents.  What has been gathered of a record depends only
on the names seen so far; of the other members of a type, which are kept, only those under the name of its tag count
(`FieldType.ofMembers_filter`).  The entries of tables may come in any order and repeat a name, since look-ups tell maps
apart (`PathMap.ext_get?`).
-/

namespace SchemaDecl

open Json Decoder

/-! ### Types -/

private theorem FieldTag.lookup_name (tag : FieldTag) : choices.lookup tag.name = some tag := by
  cases tag <;> rfl

namespace FieldType

def recordMembers (t : FieldType) : List Member :=
  [⟨"type", TextWritten t.tag.name, False⟩, ⟨t.tag.member, TextWritten t.memberText, False⟩]

/-- The ways to write a type.  The values of all members are kept until the tag is known. -/
def Written (t : FieldType) : List Token → Prop := RecordWritten t.recordMembers (KeptValue (maxLevels - levels))

private theorem ofMembers_memberText (t : FieldType) :
    ofMembers t.tag none [(t.tag.member, .string t.memberText)] = .ok t := by
  cases t with
  | native type => cases type <;> rfl
  | enum name => rfl
  | schema name => rfl
  | table name => rfl

/-- The members under other names do not count. -/
theorem ofMembers_filter (tag : FieldTag) (found : Option FieldType) (ms : List (String × Value)) :
    ofMembers tag found ms = ofMembers tag found (ms.filter (·.1 = tag.member)) := by
  induction ms generalizing found with
  | nil => rfl
  | cons m ms ih =>
    obtain ⟨k, v⟩ := m
    by_cases hk : k = tag.member
    · have hk' : ¬ k ≠ tag.member := not_not_intro hk
      rw [List.filter_cons_of_pos (by simpa using hk), ofMembers, ofMembers, if_neg hk', if_neg hk']
      cases found with
      | some t => rfl
      | none =>
        cases ofTag tag v with
        | error fault => rfl
        | ok t => exact ih (some t)
    · rw [List.filter_cons_of_neg (by simpa using hk), ofMembers, if_pos hk, ih]

/-- What has been read of a type after the members with the names `seen`. -/
structure Gathered (t : FieldType) (seen : List String) (p : Parts) : Prop where
  tag : p.tag = present seen "type" t.tag
  members : p.members.filter (·.1 = t.tag.member) =
    (present seen t.tag.member (t.tag.member, Value.string t.memberText)).toList

theorem tag_member_ne (tag : FieldTag) : tag.member ≠ "type" := by cases tag <;> decide

private theorem reads_member {t : FieldType} {seen : List String} {p : Parts} {e : Entry} (hp : t.Gathered seen p)
    (hfits : e.Fits t.recordMembers (KeptValue (maxLevels - levels)))
    (hfresh : ∀ m ∈ t.recordMembers, m.name = e.name → e.name ∉ seen) :
    ∃ p', (member p e.name).Reads (.colon :: e.value) p' ∧ t.Gathered (seen ++ [e.name]) p' := by
  have hne := tag_member_ne t.tag
  obtain ⟨htag, hmembers⟩ := hp
  obtain ⟨key, name, value, hkey⟩ := e
  simp only [Entry.Fits, recordMembers, List.forall_mem_cons] at hfits hfresh
  obtain ⟨⟨htype, hmember, -⟩, hother⟩ := hfits
  obtain ⟨hfreshType, hfreshMember, -⟩ := hfresh
  by_cases hname : name = "type"
  · subst hname
    obtain ⟨tok, rfl, htok⟩ := htype rfl
    have hreads := reads_put (hfreshType rfl) (reads_choice t.tag.lookup_name htok)
      (fun tag => ({ p with tag := tag } : Parts)) rfl
    rw [← htag] at hreads
    refine ⟨_, hreads, ⟨(present_append_self seen "type" t.tag).symm, ?_⟩⟩
    rw [present_append_of_ne seen hne]
    exact hmembers
  have hmemberReads : ∀ v, memberValue.Reads value v →
      (member p name).Reads (.colon :: value) { p with members := p.members ++ [(name, v)] } := by
    intro v hv
    rw [member, if_neg hname]
    exact reads_colon.bind (hv.andThen (.pure _))
  have htag' : p.tag = present (seen ++ [name]) "type" t.tag := by
    rw [present_append_of_ne seen (Ne.symm hname)]
    exact htag
  -- a member beside the tag is the one the tag asks for, or it is kept and filtered out
  by_cases hbeside : t.tag.member = name
  · subst hbeside
    obtain ⟨tok, rfl, htok⟩ := hmember rfl
    refine ⟨_, hmemberReads _ (reads_value_text _ htok), ⟨htag', ?_⟩⟩
    rw [List.filter_append, hmembers, present, if_neg (hfreshMember rfl), present_append_self]
    simp
  · obtain ⟨v, hv⟩ := exists_reads_value (hother ⟨Ne.symm hname, hbeside, List.forall_mem_nil _⟩)
    refine ⟨_, hmemberReads v hv, ⟨htag', ?_⟩⟩
    rw [List.filter_append, hmembers, present_append_of_ne seen hbeside]
    simp [Ne.symm hbeside]

private theorem reads_fromMembers {t : FieldType} {es : List Entry}
    (h : InAnyOrder t.recordMembers (KeptValue (maxLevels - levels)) es) : fromMembers.Reads (memberTokens es) t := by
  have hstart : t.Gathered [] {} := ⟨rfl, rfl⟩
  obtain ⟨p, hreads, htag, hmembers⟩ := exists_membersRead h hstart reads_member
  have hcomplete := h.complete
  simp only [recordMembers, List.forall_mem_cons, or_false] at hcomplete
  obtain ⟨htype, hmember, -⟩ := hcomplete
  rw [present, if_pos htype] at htag
  rw [present, if_pos hmember] at hmembers
  refine hreads.reads.andThen ?_
  rw [htag]
  intro rest
  show (ofMembers t.tag none p.members >>= fun t => .ok (t, rest)) = _
  rw [ofMembers_filter, hmembers, Option.toList_some, ofMembers_memberText]
  rfl

private theorem fromElements_inOrder {t : FieldType} {tss : List (List Token)} (h : InOrder t.recordMembers tss)
    (rest : List Token) :
    fromElements (elementTokens true tss ++ .closeArray :: rest) =
      .ok ((t.tag, [.string t.memberText]), .closeArray :: rest) := by
  have htag : ∀ ts, TextWritten t.tag.name ts → (choice FieldTag.choices).ElementReads ts t.tag := by
    rintro ts ⟨tok, rfl, htok⟩
    refine ⟨reads_choice t.tag.lookup_name htok, tok, [], rfl, ?_⟩
    rintro rfl
    cases htok
  obtain ⟨o, tss', hoption, htss', ho⟩ := exists_optional h htag true rest
  obtain rfl := ho.eq_some
  have hvalue : List.Forall₂ memberValue.ElementReads tss' [.string t.memberText] := by
    cases htss' with
    | omitted h => exact absurd (h _ List.mem_cons_self) id
    | cons head tail =>
      obtain ⟨tok, rfl, htok⟩ := head
      refine .cons ⟨reads_value_text _ htok, tok, [], rfl, ?_⟩ ?_
      · rintro rfl
        cases htok
      · cases tail
        exact .nil
  rw [fromElements, bind_of_ok hoption]
  show (allElements memberValue false >>= fun vs => pure (t.tag, vs)) _ = _
  exact (bind_of_ok (allElements_rest hvalue rest)).trans rfl

theorem elementReads {t : FieldType} {ts : List Token} (h : t.Written ts) : decoder.ElementReads ts t := by
  refine ⟨?_, h.head⟩
  cases h with
  | object h => exact reads_fromMembers h
  | @array tss h =>
    intro rest
    show (fromElements >>= fun p => closeArray >>= fun _ => (ofElements p.1 p.2 : Decoder FieldType))
      (List.intercalate [.comma] tss ++ [.closeArray] ++ rest) = _
    rw [List.append_assoc, List.singleton_append]
    refine (bind_of_ok (fromElements_inOrder h rest)).trans ?_
    cases t with
    | native type => cases type <;> rfl
    | enum name => rfl
    | schema name => rfl
    | table name => rfl

end FieldType

/-! ### Fields -/

namespace Field

def recordMembers (f : Field) : List Member :=
  [⟨"key", TextWritten f.key, False⟩, ⟨"required", (· = [.boolean f.required]), f.required = false⟩,
    ⟨"array", (· = [.boolean f.array]), f.array = false⟩, ⟨"type", f.type.Written, False⟩]

def Written (f : Field) : List Token → Prop := RecordWritten f.recordMembers IgnoredValue

/-- What has been read of a field after the members with the names `seen`. -/
def gathered (f : Field) (seen : List String) : Parts :=
  ⟨present seen "key" f.key, present seen "required" f.required, present seen "array" f.array,
    present seen "type" f.type⟩

private theorem reads_member {f : Field} {seen : List String} {e : Entry} (hfits : e.Fits f.recordMembers IgnoredValue)
    (hfresh : ∀ m ∈ f.recordMembers, m.name = e.name → e.name ∉ seen) :
    (member (f.gathered seen) e.name).Reads (.colon :: e.value) (f.gathered (seen ++ [e.name])) := by
  obtain ⟨key, name, value, hkey⟩ := e
  simp only [Entry.Fits, recordMembers, List.forall_mem_cons] at hfits hfresh
  obtain ⟨⟨hkey, hrequired, harray, htype, -⟩, hother⟩ := hfits
  obtain ⟨freshKey, freshRequired, freshArray, freshType, -⟩ := hfresh
  by_cases h₁ : name = "key"
  · subst h₁
    refine reads_put (freshKey rfl) (elementReads_text (hkey rfl)).1
      (fun key => { f.gathered seen with key := key }) ?_
    simp [gathered]
  by_cases h₂ : name = "required"
  · subst h₂
    refine reads_put (freshRequired rfl) (elementReads_boolean (hrequired rfl)).1
      (fun required => { f.gathered seen with required := required }) ?_
    simp [gathered]
  by_cases h₃ : name = "array"
  · subst h₃
    refine reads_put (freshArray rfl) (elementReads_boolean (harray rfl)).1
      (fun array => { f.gathered seen with array := array }) ?_
    simp [gathered]
  by_cases h₄ : name = "type"
  · subst h₄
    refine reads_put (freshType rfl) (FieldType.elementReads (htype rfl)).1
      (fun type => { f.gathered seen with type := type }) ?_
    simp [gathered]
  rw [member, if_neg h₁, if_neg h₂, if_neg h₃, if_neg h₄]
  refine reads_other (hother ⟨Ne.symm h₁, Ne.symm h₂, Ne.symm h₃, Ne.symm h₄, List.forall_mem_nil _⟩) ?_
  simp [gathered, Ne.symm h₁, Ne.symm h₂, Ne.symm h₃, Ne.symm h₄]

theorem elementReads {f : Field} {ts : List Token} (h : f.Written ts) : decoder.ElementReads ts f := by
  refine elementReads_record ?_ ?_ h
  · intro es hes
    have hcomplete := hes.complete
    simp only [recordMembers, List.forall_mem_cons] at hcomplete
    obtain ⟨hkey, hrequired, harray, htype, -⟩ := hcomplete
    refine (membersRead_gathered hes f.gathered reads_member).reads.andThen ?_
    rw [gathered, (given_present hkey f.key).eq_some, (given_present htype f.type).eq_some,
      (given_present hrequired f.required).getD, (given_present harray f.array).getD]
    exact .pure f
  · intro tss htss rest
    obtain ⟨_, _, h₁, htss, hkey⟩ := exists_optional htss (fun _ => elementReads_text) true rest
    obtain ⟨_, _, h₂, htss, hrequired⟩ := exists_optional htss (fun _ => elementReads_boolean) false rest
    obtain ⟨_, _, h₃, htss, harray⟩ := exists_optional htss (fun _ => elementReads_boolean) false rest
    obtain ⟨_, _, h₄, htss, htype⟩ := exists_optional htss (fun _ => FieldType.elementReads) false rest
    obtain rfl := hkey.eq_some
    obtain rfl := htype.eq_some
    cases htss
    rw [fromElements, bind_of_ok h₁, bind_of_ok (requireElement_some _ _ _ _), bind_of_ok h₂, bind_of_ok h₃,
      bind_of_ok h₄, bind_of_ok (requireElement_some _ _ _ _), hrequired.getD, harray.getD]
    rfl

end Field

/-! ### Entities -/

namespace Entity

def recordMembers (e : Entity) : List Member :=
  [⟨"name", TextWritten e.name, False⟩, ⟨"items", ArrayWritten Field.Written e.fields, e.fields = []⟩]

def Written (e : Entity) : List Token → Prop := RecordWritten e.recordMembers IgnoredValue

def gathered (e : Entity) (seen : List String) : Parts := ⟨present seen "name" e.name, present seen "items" e.fields⟩

private theorem elementReads_fields {fields : List Field} {ts : List Token} (h : ArrayWritten Field.Written fields ts) :
    (array Field.decoder).ElementReads ts fields :=
  elementReads_array (fun _ _ => Field.elementReads) h

private theorem reads_member {entity : Entity} {seen : List String} {e : Entry}
    (hfits : e.Fits entity.recordMembers IgnoredValue)
    (hfresh : ∀ m ∈ entity.recordMembers, m.name = e.name → e.name ∉ seen) :
    (member (entity.gathered seen) e.name).Reads (.colon :: e.value) (entity.gathered (seen ++ [e.name])) := by
  obtain ⟨key, k, value, hkey⟩ := e
  simp only [Entry.Fits, recordMembers, List.forall_mem_cons] at hfits hfresh
  obtain ⟨⟨hname, hfields, -⟩, hother⟩ := hfits
  obtain ⟨freshName, freshFields, -⟩ := hfresh
  by_cases h₁ : k = "name"
  · subst h₁
    refine reads_put (freshName rfl) (elementReads_text (hname rfl)).1
      (fun name => { entity.gathered seen with name := name }) ?_
    simp [gathered]
  by_cases h₂ : k = "items"
  · subst h₂
    refine reads_put (freshFields rfl) (elementReads_fields (hfields rfl)).1
      (fun fields => { entity.gathered seen with fields := fields }) ?_
    simp [gathered]
  rw [member, if_neg h₁, if_neg h₂]
  refine reads_other (hother ⟨Ne.symm h₁, Ne.symm h₂, List.forall_mem_nil _⟩) ?_
  simp [gathered, Ne.symm h₁, Ne.symm h₂]

theorem elementReads {e : Entity} {ts : List Token} (h : e.Written ts) : decoder.ElementReads ts e := by
  refine elementReads_record ?_ ?_ h
  · intro es hes
    have hcomplete := hes.complete
    simp only [recordMembers, List.forall_mem_cons] at hcomplete
    obtain ⟨hname, hfields, -⟩ := hcomplete
    refine (membersRead_gathered hes e.gathered reads_member).reads.andThen ?_
    rw [gathered, (given_present hname e.name).eq_some, (given_present hfields e.fields).getD]
    exact .pure e
  · intro tss htss rest
    obtain ⟨_, _, h₁, htss, hname⟩ := exists_optional htss (fun _ => elementReads_text) true rest
    obtain ⟨_, _, h₂, htss, hfields⟩ := exists_optional htss (fun _ => elementReads_fields) false rest
    obtain rfl := hname.eq_some
    cases htss
    rw [fromElements, bind_of_ok h₁, bind_of_ok (requireElement_some _ _ _ _), bind_of_ok h₂, hfields.getD]
    rfl

end Entity

/-! ### Tables -/

namespace PathMap

/-- The ways to write tables: entries in any order, of which the last one of a name counts. -/
def Written (m : PathMap) (ts : List Token) : Prop :=
  ∃ (es : List Entry) (paths : List String), ts = .openObject :: memberTokens es ∧
    List.Forall₂ (fun e path => TextWritten path e.value) es paths ∧
    ∀ name, ((es.map Entry.name).zip paths).reverse.lookup name = m.get? name

private theorem membersRead_insert {es : List Entry} {paths : List String}
    (h : List.Forall₂ (fun e path => TextWritten path e.value) es paths) (m : PathMap) :
    MembersRead member es m (((es.map Entry.name).zip paths).foldl (fun m (name, path) => m.insert name path) m) := by
  induction h generalizing m with
  | nil => exact .nil m
  | @cons e path es paths hpath _ ih =>
    have hreads : (member m e.name).Reads (.colon :: e.value) (m.insert e.name path) :=
      reads_colon.bind ((elementReads_text hpath).1.andThen (.pure _))
    exact .cons hreads (ih _)

theorem elementReads {m : PathMap} {ts : List Token} (h : m.Written ts) : decoder.ElementReads ts m := by
  obtain ⟨es, paths, rfl, hpaths, hlookup⟩ := h
  refine ⟨?_, .openObject, _, rfl, nofun⟩
  have hm : ((es.map Entry.name).zip paths).foldl (fun m (name, path) => m.insert name path) empty = m := by
    refine ext_get? fun name => ?_
    rw [get?_foldl_insert, get?_empty, Option.or_none, hlookup]
  have hreads := (membersRead_insert hpaths empty).reads
  rw [hm] at hreads
  exact hreads

end PathMap

/-! ### Documents -/

namespace Document

def recordMembers (d : Document) : List Member :=
  [⟨"schemas", ArrayWritten Entity.Written d.entities, d.entities = []⟩,
    ⟨"tables", d.tables.Written, d.tables = .empty⟩]

/-- The ways to write a document. -/
def Written (d : Document) : List Token → Prop := RecordWritten d.recordMembers IgnoredValue

def gathered (d : Document) (seen : List String) : Parts :=
  ⟨present seen "schemas" d.entities, present seen "tables" d.tables⟩

private theorem elementReads_entities {entities : List Entity} {ts : List Token}
    (h : ArrayWritten Entity.Written entities ts) :
    (array Entity.decoder).ElementReads ts entities :=
  elementReads_array (fun _ _ => Entity.elementReads) h

private theorem reads_member {d : Document} {seen : List String} {e : Entry}
    (hfits : e.Fits d.recordMembers IgnoredValue) (hfresh : ∀ m ∈ d.recordMembers, m.name = e.name → e.name ∉ seen) :
    (member (d.gathered seen) e.name).Reads (.colon :: e.value) (d.gathered (seen ++ [e.name])) := by
  obtain ⟨key, name, value, hkey⟩ := e
  simp only [Entry.Fits, recordMembers, List.forall_mem_cons] at hfits hfresh
  obtain ⟨⟨hentities, htables, -⟩, hother⟩ := hfits
  obtain ⟨freshEntities, freshTables, -⟩ := hfresh
  by_cases h₁ : name = "schemas"
  · subst h₁
    refine reads_put (freshEntities rfl) (elementReads_entities (hentities rfl)).1
      (fun entities => { d.gathered seen with entities := entities }) ?_
    simp [gathered]
  by_cases h₂ : name = "tables"
  · subst h₂
    refine reads_put (freshTables rfl) (PathMap.elementReads (htables rfl)).1
      (fun tables => { d.gathered seen with tables := tables }) ?_
    simp [gathered]
  rw [member, if_neg h₁, if_neg h₂]
  refine reads_other (hother ⟨Ne.symm h₁, Ne.symm h₂, List.forall_mem_nil _⟩) ?_
  simp [gathered, Ne.symm h₁, Ne.symm h₂]

theorem elementReads {d : Document} {ts : List Token} (h : d.Written ts) : decoder.ElementReads ts d := by
  refine elementReads_record ?_ ?_ h
  · intro es hes
    have hcomplete := hes.complete
    simp only [recordMembers, List.forall_mem_cons] at hcomplete
    obtain ⟨hentities, htables, -⟩ := hcomplete
    refine (membersRead_gathered hes d.gathered reads_member).reads.andThen ?_
    rw [gathered, (given_present hentities d.entities).getD, (given_present htables d.tables).getD]
    exact .pure d
  · intro tss htss rest
    obtain ⟨_, _, h₁, htss, hentities⟩ := exists_optional htss (fun _ => elementReads_entities) true rest
    obtain ⟨_, _, h₂, htss, htables⟩ := exists_optional htss (fun _ => PathMap.elementReads) false rest
    cases htss
    rw [fromElements, bind_of_ok h₁, bind_of_ok h₂, hentities.getD, htables.getD]
    rfl

end Document

/-! ### Settings -/

theorem Mode.elementReads {mode : Mode} {ts : List Token} (h : TextWritten mode.keyword ts) :
    decoder.ElementReads ts mode := by
  obtain ⟨t, rfl, ht⟩ := h
  have hlookup : choices.lookup mode.keyword = some mode := by cases mode <;> rfl
  refine ⟨fun rest => ?_, t, [], rfl, ?_⟩
  · -- a text is not an opening brace, so the last case of the decoder applies
    have hdecoder : decoder (t :: rest) = choice choices (t :: rest) := by
      cases t with
      | string ps => rfl
      | brokenString ps ended => rfl
      | _ => cases ht
    exact hdecoder.trans (reads_choice hlookup ht rest)
  · rintro rfl
    cases ht

namespace Config

def recordMembers (c : Config) : List Member :=
  let default : Config := {}
  [⟨"mode", TextWritten c.mode.keyword, c.mode = default.mode⟩,
    ⟨"output_dir", TextWritten c.outputDir, c.outputDir = default.outputDir⟩,
    ⟨"extension", TextWritten c.extension, c.extension = default.extension⟩,
    ⟨"allow_duplicate_names", (· = [.boolean c.allowDuplicateNames]),
      c.allowDuplicateNames = default.allowDuplicateNames⟩,
    ⟨"import_enums", (· = [.boolean c.importEnums]), c.importEnums = default.importEnums⟩]

/-- The ways to write settings. -/
def Written (c : Config) : List Token → Prop := RecordWritten c.recordMembers IgnoredValue

def gathered (c : Config) (seen : List String) : Parts :=
  ⟨present seen "mode" c.mode, present seen "output_dir" c.outputDir, present seen "extension" c.extension,
    present seen "allow_duplicate_names" c.allowDuplicateNames, present seen "import_enums" c.importEnums⟩

private theorem reads_member {c : Config} {seen : List String} {e : Entry} (hfits : e.Fits c.recordMembers IgnoredValue)
    (hfresh : ∀ m ∈ c.recordMembers, m.name = e.name → e.name ∉ seen) :
    (member (c.gathered seen) e.name).Reads (.colon :: e.value) (c.gathered (seen ++ [e.name])) := by
  obtain ⟨key, name, value, hkey⟩ := e
  simp only [Entry.Fits, recordMembers, List.forall_mem_cons] at hfits hfresh
  obtain ⟨⟨hmode, hdir, hextension, hduplicates, henums, -⟩, hother⟩ := hfits
  obtain ⟨freshMode, freshDir, freshExtension, freshDuplicates, freshEnums, -⟩ := hfresh
  by_cases h₁ : name = "mode"
  · subst h₁
    refine reads_put (freshMode rfl) (Mode.elementReads (hmode rfl)).1
      (fun mode => { c.gathered seen with mode := mode }) ?_
    simp [gathered]
  by_cases h₂ : name = "output_dir"
  · subst h₂
    refine reads_put (freshDir rfl) (elementReads_text (hdir rfl)).1
      (fun outputDir => { c.gathered seen with outputDir := outputDir }) ?_
    simp [gathered]
  by_cases h₃ : name = "extension"
  · subst h₃
    refine reads_put (freshExtension rfl) (elementReads_text (hextension rfl)).1
      (fun extension => { c.gathered seen with extension := extension }) ?_
    simp [gathered]
  by_cases h₄ : name = "allow_duplicate_names"
  · subst h₄
    refine reads_put (freshDuplicates rfl) (elementReads_boolean (hduplicates rfl)).1
      (fun allowDuplicateNames => { c.gathered seen with allowDuplicateNames := allowDuplicateNames }) ?_
    simp [gathered]
  by_cases h₅ : name = "import_enums"
  · subst h₅
    refine reads_put (freshEnums rfl) (elementReads_boolean (henums rfl)).1
      (fun importEnums => { c.gathered seen with importEnums := importEnums }) ?_
    simp [gathered]
  rw [member, if_neg h₁, if_neg h₂, if_neg h₃, if_neg h₄, if_neg h₅]
  refine reads_other (hother ⟨Ne.symm h₁, Ne.symm h₂, Ne.symm h₃, Ne.symm h₄, Ne.symm h₅, List.forall_mem_nil _⟩) ?_
  simp [gathered, Ne.symm h₁, Ne.symm h₂, Ne.symm h₃, Ne.symm h₄, Ne.symm h₅]

/-- Settings from what is given of their members, the defaults standing for the rest. -/
private theorem toConfig_of_given {c : Config} {p : Parts} {default : Config} (hdefault : default = {})
    (hmode : Given (c.mode = default.mode) c.mode p.mode)
    (hdir : Given (c.outputDir = default.outputDir) c.outputDir p.outputDir)
    (hextension : Given (c.extension = default.extension) c.extension p.extension)
    (hduplicates :
      Given (c.allowDuplicateNames = default.allowDuplicateNames) c.allowDuplicateNames p.allowDuplicateNames)
    (henums : Given (c.importEnums = default.importEnums) c.importEnums p.importEnums) : p.toConfig = c := by
  subst hdefault
  rw [Parts.toConfig, hmode.getD, hdir.getD, hextension.getD, hduplicates.getD, henums.getD]

theorem elementReads {c : Config} {ts : List Token} (h : c.Written ts) : decoder.ElementReads ts c := by
  refine elementReads_record ?_ ?_ h
  · intro es hes
    have hcomplete := hes.complete
    simp only [recordMembers, List.forall_mem_cons] at hcomplete
    obtain ⟨hmode, hdir, hextension, hduplicates, henums, -⟩ := hcomplete
    have hc : (c.gathered (es.map Entry.name)).toConfig = c :=
      toConfig_of_given rfl (given_present hmode _) (given_present hdir _) (given_present hextension _)
        (given_present hduplicates _) (given_present henums _)
    have hreads := (membersRead_gathered hes c.gathered reads_member).reads.map Parts.toConfig
    rwa [hc] at hreads
  · intro tss htss rest
    obtain ⟨_, _, h₁, htss, hmode⟩ := exists_optional htss (fun _ => Mode.elementReads) true rest
    obtain ⟨_, _, h₂, htss, hdir⟩ := exists_optional htss (fun _ => elementReads_text) false rest
    obtain ⟨_, _, h₃, htss, hextension⟩ := exists_optional htss (fun _ => elementReads_text) false rest
    obtain ⟨_, _, h₄, htss, hduplicates⟩ := exists_optional htss (fun _ => elementReads_boolean) false rest
    obtain ⟨_, _, h₅, htss, henums⟩ := exists_optional htss (fun _ => elementReads_boolean) false rest
    cases htss
    have hc := toConfig_of_given (p := ⟨_, _, _, _, _⟩) rfl hmode hdir hextension hduplicates henums
    rw [fromElements, bind_of_ok h₁, bind_of_ok h₂, bind_of_ok h₃, bind_of_ok h₄, bind_of_ok h₅, hc]
    rfl

end Config

end SchemaDecl
