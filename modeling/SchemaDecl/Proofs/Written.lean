import SchemaDecl.Proofs.Reading

/-!
# Written values and records

Which tokens write a value (`IsValue`) or a record (`RecordWritten`).  A value that is ignored may be any; one that is
kept needs numbers in range, strings with a text and few levels.  A record is an object of its members in any order,
each at most once and with others among them, or the array of its members in their order; a member that has its default
may be left out.  Decoders read what is written: a fold gets to the end of every value (`Fold.ends_of_isValue`), the
entries of an object are read one by one under an invariant about the names seen (`exists_membersRead`), and the
elements of an array member by member (`exists_optional`).
-/

namespace SchemaDecl.Json

/-! ### Values -/

/-- The tokens of a value of at most so many levels. -/
inductive IsValue (Scalar Key : Token → Prop) : Nat → List Token → Prop
  | scalar {n : Nat} {t : Token} (h : Scalar t) : IsValue Scalar Key n [t]
  | array {n : Nat} {tss : List (List Token)} (h : ∀ ts ∈ tss, IsValue Scalar Key n ts) :
    IsValue Scalar Key (n + 1) (Token.array tss)
  | object {n : Nat} {ms : List (Token × List Token)} (keys : ∀ m ∈ ms, Key m.1)
    (values : ∀ m ∈ ms, IsValue Scalar Key n m.2) : IsValue Scalar Key (n + 1)
      (.openObject :: List.intercalate [.comma] (ms.map fun m => m.1 :: .colon :: m.2) ++ [.closeObject])

namespace Fold

variable {κ α : Type} {fold : Fold κ α} {Scalar Key : Token → Prop}

/-- A fold makes something of each of these tokens. -/
structure Takes (fold : Fold κ α) (Scalar Key : Token → Prop) : Prop where
  scalar : ∀ t, Scalar t → t.isMark = false ∧ ∃ a, fold.scalar t = .ok a
  key : ∀ t, Key t → t.isMark = false ∧ ∃ k, fold.key t = .ok k

/-- How a fold goes on after a step. -/
def resume (fold : Fold κ α) : Progress κ α → List Token → Except Fault (α × List Token)
  | .done a, ts => .ok (a, ts)
  | .more place stack, ts => fold.run place stack ts

private theorem run_of_step {place : Place} {stack : List (Frame κ α)} {t : Token} {p : Progress κ α}
    (h : fold.step place stack t = .ok p) (ts : List Token) : fold.run place stack (t :: ts) = fold.resume p ts := by
  rw [run, h]
  cases p <;> rfl

/-- Tokens end the value that the frames above the stack belong to. -/
def Ends (fold : Fold κ α) (place : Place) (frames stack : List (Frame κ α)) (ts : List Token) : Prop :=
  ∃ a, ∀ rest, fold.run place frames (ts ++ rest) = fold.resume (finish a stack) rest

variable {stack : List (Frame κ α)}

private theorem Ends.of_step {place place' : Place} {frames frames' : List (Frame κ α)} {t : Token} {ts : List Token}
    (hstep : fold.step place frames t = .ok (.more place' frames')) (h : fold.Ends place' frames' stack ts) :
    fold.Ends place frames stack (t :: ts) := by
  obtain ⟨a, ha⟩ := h
  exact ⟨a, fun rest => (run_of_step hstep _).trans (ha rest)⟩

/-- After a value in an open array or object the rest of it follows. -/
private theorem Ends.append {frames : List (Frame κ α)} {ts us : List Token} (h : fold.Ends .value frames frames ts)
    (hrest : ∀ a, ∃ b, ∀ rest, fold.resume (finish a frames) (us ++ rest) = fold.resume (finish b stack) rest) :
    fold.Ends .value frames stack (ts ++ us) := by
  obtain ⟨a, ha⟩ := h
  obtain ⟨b, hb⟩ := hrest a
  refine ⟨b, fun rest => ?_⟩
  rw [List.append_assoc, ha, hb]

private theorem ends_elements {tss : List (List Token)}
    (h : ∀ ts ∈ tss, ∀ done, fold.Ends .value (.array done :: stack) (.array done :: stack) ts) (done : List α) :
    fold.Ends .next (.array done :: stack) stack (tss.flatMap (.comma :: ·) ++ [.closeArray]) := by
  induction tss generalizing done with
  | nil => exact ⟨fold.array done.reverse, fun rest => run_of_step rfl rest⟩
  | cons ts tss ih =>
    obtain ⟨hts, htss⟩ := List.forall_mem_cons.1 h
    rw [List.flatMap_cons, List.append_assoc]
    exact Ends.of_step rfl ((hts done).append fun a => ih htss (a :: done))

private theorem ends_member (takes : fold.Takes Scalar Key) {place : Place} {done : List (κ × α)} {k : Token}
    {ts us : List Token} (hplace : place = .first ∨ place = .key) (hk : Key k)
    (hts : ∀ frame, fold.Ends .value (frame :: stack) (frame :: stack) ts)
    (hus : ∀ done, fold.Ends .next (.object done :: stack) stack us) :
    fold.Ends place (.object done :: stack) stack (k :: .colon :: (ts ++ us)) := by
  obtain ⟨hmark, key, hkey⟩ := takes.key k hk
  have hclose : k ≠ .closeObject := by rintro rfl; cases hmark
  have hstep : fold.step place (.object done :: stack) k = .ok (.more .colon (.member done key :: stack)) := by
    rcases hplace with rfl | rfl
    · rw [step, if_neg hclose, stepKey, hkey]; rfl
    · rw [step, stepKey, hkey]; rfl
  refine Ends.of_step hstep (Ends.of_step rfl ((hts _).append fun a => ?_))
  exact hus ((key, a) :: done)

private theorem ends_members (takes : fold.Takes Scalar Key) {ms : List (Token × List Token)}
    (hkeys : ∀ m ∈ ms, Key m.1) (hvalues : ∀ m ∈ ms, ∀ frame, fold.Ends .value (frame :: stack) (frame :: stack) m.2)
    (done : List (κ × α)) :
    fold.Ends .next (.object done :: stack) stack
      ((ms.map fun m => m.1 :: .colon :: m.2).flatMap (.comma :: ·) ++ [.closeObject]) := by
  induction ms generalizing done with
  | nil => exact ⟨fold.object done.reverse, fun rest => run_of_step rfl rest⟩
  | cons m ms ih =>
    obtain ⟨hk, hks⟩ := List.forall_mem_cons.1 hkeys
    obtain ⟨hv, hvs⟩ := List.forall_mem_cons.1 hvalues
    rw [List.map_cons, List.flatMap_cons, List.append_assoc]
    exact Ends.of_step rfl (ends_member takes (.inr rfl) hk hv (ih hks hvs))

private theorem head_isValue (takes : fold.Takes Scalar Key) {n : Nat} {ts : List Token} (h : IsValue Scalar Key n ts) :
    ∃ t ts', ts = t :: ts' ∧ t ≠ .closeArray := by
  cases h with
  | scalar h =>
    refine ⟨_, _, rfl, ?_⟩
    rintro rfl
    cases (takes.scalar _ h).1
  | array _ => exact ⟨.openArray, _, rfl, nofun⟩
  | object _ _ => exact ⟨.openObject, _, rfl, nofun⟩

/-- The first element of an array is read as any other, for it does not begin with the end of the array. -/
private theorem run_first {done : List α} {t : Token} (h : t ≠ .closeArray) (ts : List Token) :
    fold.run .first (.array done :: stack) (t :: ts) = fold.run .value (.array done :: stack) (t :: ts) := by
  have hstep : fold.step .first (.array done :: stack) t = fold.step .value (.array done :: stack) t := if_neg h
  rw [run, run, hstep]

private theorem push_eq {frame : Frame κ α} {n : Nat}
    (h : ∀ limit, fold.limit = some limit → stack.length + (n + 1) ≤ limit) :
    fold.push frame stack = .ok (.more .first (frame :: stack)) := by
  have hlimit : fold.limit.all (stack.length < ·) = true := by
    cases hl : fold.limit with
    | none => rfl
    | some limit =>
      have := h limit hl
      simp only [Option.all_some, decide_eq_true_eq]
      omega
  rw [push, if_pos hlimit]

/-- A fold gets to the end of every value of tokens that it takes, if the limit leaves room for its levels. -/
theorem ends_of_isValue (takes : fold.Takes Scalar Key) {n : Nat} {ts : List Token} (h : IsValue Scalar Key n ts)
    (hroom : ∀ limit, fold.limit = some limit → stack.length + n ≤ limit) : fold.Ends .value stack stack ts := by
  induction h generalizing stack with
  | scalar h =>
    obtain ⟨hmark, a, ha⟩ := takes.scalar _ h
    refine ⟨a, fun rest => run_of_step ?_ rest⟩
    rw [step, stepValue_of_not_mark fold stack hmark, ha]
    rfl
  | @array n tss helements ih =>
    show fold.Ends .value stack stack (.openArray :: (List.intercalate [.comma] tss ++ [.closeArray]))
    refine Ends.of_step (push_eq hroom) ?_
    have hinner : ∀ ts ∈ tss, ∀ done, fold.Ends .value (.array done :: stack) (.array done :: stack) ts := by
      intro ts hts done
      refine ih ts hts fun limit hlimit => ?_
      have := hroom limit hlimit
      rw [List.length_cons]
      omega
    cases tss with
    | nil => exact ⟨fold.array [], fun rest => run_of_step rfl rest⟩
    | cons ts tss =>
      obtain ⟨hts, htss⟩ := List.forall_mem_cons.1 hinner
      obtain ⟨t, ts', rfl, ht⟩ := head_isValue takes (helements ts List.mem_cons_self)
      obtain ⟨a, ha⟩ := (hts []).append fun a => ends_elements htss [a]
      rw [Token.intercalate_comma, List.append_assoc]
      exact ⟨a, fun rest => (run_first ht _).trans (ha rest)⟩
  | @object n ms hkeys hvalues ih =>
    rw [List.cons_append]
    refine Ends.of_step (push_eq hroom) ?_
    have hinner : ∀ m ∈ ms, ∀ frame, fold.Ends .value (frame :: stack) (frame :: stack) m.2 := by
      intro m hm frame
      refine ih m hm fun limit hlimit => ?_
      have := hroom limit hlimit
      rw [List.length_cons]
      omega
    cases ms with
    | nil => exact ⟨fold.object [], fun rest => run_of_step rfl rest⟩
    | cons m ms =>
      obtain ⟨hk, hks⟩ := List.forall_mem_cons.1 hkeys
      obtain ⟨hv, hvs⟩ := List.forall_mem_cons.1 hinner
      rw [List.map_cons, Token.intercalate_comma, List.append_assoc]
      exact ends_member takes (.inl rfl) hk hv (ends_members takes hks hvs)

/-- The whole of a value is read, and no more. -/
theorem exists_reads_of_isValue (takes : fold.Takes Scalar Key) {n : Nat} {ts : List Token}
    (h : IsValue Scalar Key n ts) (hroom : ∀ limit, fold.limit = some limit → n ≤ limit) :
    ∃ a, fold.decoder.Reads ts a := by
  have hends : fold.Ends .value [] [] ts :=
    ends_of_isValue takes h fun limit hlimit => by simpa using hroom limit hlimit
  exact hends

end Fold

/-- A token that is a value on its own. -/
def Token.isScalar : Token → Bool
  | .null | .boolean _ | .number _ | .string _ => true
  | _ => false

def Token.isString : Token → Bool
  | .string _ => true
  | _ => false

/-- A scalar that can be kept: a number is within the range of doubles, and a string has a text. -/
inductive Token.KeptScalar : Token → Prop
  | null : KeptScalar .null
  | boolean (b : Bool) : KeptScalar (.boolean b)
  | number {x : NumberLiteral} {n : Number} (h : x.value? = some n) : KeptScalar (.number x)
  | string {t : Token} {s : String} (h : t.text? = some (.ok s)) : KeptScalar t

/-- A value that is ignored may be any. -/
def IgnoredValue (ts : List Token) : Prop := ∃ n, IsValue (·.isScalar = true) (·.isString = true) n ts

/-- A value that is kept, with at most `limit` levels. -/
def KeptValue (limit : Nat) (ts : List Token) : Prop :=
  IsValue Token.KeptScalar (fun t => ∃ s, t.text? = some (.ok s)) limit ts

private theorem isMark_of_text? {t : Token} {s : Except Fault String} (h : t.text? = some s) : t.isMark = false := by
  cases t with
  | string | brokenString => rfl
  | _ => cases h

theorem Decoder.reads_ignored {ts : List Token} (h : IgnoredValue ts) : ignored.Reads ts () := by
  obtain ⟨n, hvalue⟩ := h
  have takes : ignoredFold.Takes (·.isScalar = true) (·.isString = true) := by
    constructor
    · intro t ht
      cases t with
      | null | boolean | number | string => exact ⟨rfl, (), rfl⟩
      | _ => cases ht
    · intro t ht
      cases t with
      | string => exact ⟨rfl, (), rfl⟩
      | _ => cases ht
  exact (Fold.exists_reads_of_isValue takes hvalue nofun).elim fun _ => id

namespace Value

private theorem scalar_of_text? (limit : Nat) {t : Token} {s : String} (h : t.text? = some (.ok s)) :
    (fold limit).scalar t = .ok (.string s) := by
  cases t with
  | string ps => simp only [fold, h]; rfl
  | brokenString ps ended => simp only [fold, h]; rfl
  | _ => cases h

private theorem takes_fold (limit : Nat) :
    (fold limit).Takes Token.KeptScalar fun t => ∃ s, t.text? = some (.ok s) := by
  constructor
  · intro t ht
    cases ht with
    | null => exact ⟨rfl, .null, rfl⟩
    | boolean b => exact ⟨rfl, .boolean b, rfl⟩
    | @number x n h => exact ⟨rfl, .number n, by simp only [fold, h]⟩
    | string h => exact ⟨isMark_of_text? h, _, scalar_of_text? limit h⟩
  · rintro t ⟨s, h⟩
    exact ⟨isMark_of_text? h, s, by simp only [fold, h, Option.getD_some]⟩

end Value

theorem Decoder.exists_reads_value {limit : Nat} {ts : List Token} (h : KeptValue limit ts) :
    ∃ v, (value limit).Reads ts v :=
  Fold.exists_reads_of_isValue (Value.takes_fold limit) h fun _ hlimit => by cases hlimit; exact Nat.le_refl _

theorem Decoder.reads_value_text (limit : Nat) {t : Token} {s : String} (h : t.text? = some (.ok s)) :
    (value limit).Reads [t] (.string s) := by
  have hstep : (Value.fold limit).step .value [] t = .ok (.done (.string s)) := by
    rw [Fold.step, Fold.stepValue_of_not_mark _ _ (isMark_of_text? h), Value.scalar_of_text? limit h]
    rfl
  exact Fold.run_of_step hstep

/-! ### Records -/

/-- A member of a record: the tokens of its value, and whether the value is the default, so that it may be left out. -/
structure Member where
  name : String
  Writes : List Token → Prop
  IsDefault : Prop

/-- An entry writes a member of the record, or something else under another name. -/
def Entry.Fits (members : List Member) (Other : List Token → Prop) (e : Entry) : Prop :=
  (∀ m ∈ members, m.name = e.name → m.Writes e.value) ∧ ((∀ m ∈ members, m.name ≠ e.name) → Other e.value)

/-- Elements for the members in their order; the last ones may be left out where they have their defaults. -/
inductive InOrder : List Member → List (List Token) → Prop
  | omitted {members : List Member} (h : ∀ m ∈ members, m.IsDefault) : InOrder members []
  | cons {m : Member} {members : List Member} {ts : List Token} {tss : List (List Token)} (head : m.Writes ts)
    (tail : InOrder members tss) : InOrder (m :: members) (ts :: tss)

/-- Entries for the members in any order, each at most once, and for others. -/
structure InAnyOrder (members : List Member) (Other : List Token → Prop) (es : List Entry) : Prop where
  fits : ∀ e ∈ es, e.Fits members Other
  once : ∀ m ∈ members, (es.map Entry.name).count m.name ≤ 1
  complete : ∀ m ∈ members, m.name ∈ es.map Entry.name ∨ m.IsDefault

/-- The ways to write a record. -/
inductive RecordWritten (members : List Member) (Other : List Token → Prop) : List Token → Prop
  | object {es : List Entry} (h : InAnyOrder members Other es) :
    RecordWritten members Other (.openObject :: memberTokens es)
  | array {tss : List (List Token)} (h : InOrder members tss) : RecordWritten members Other (Token.array tss)

/-- The token of a text, whatever escapes it is written with. -/
def TextWritten (s : String) (ts : List Token) : Prop := ∃ t, ts = [t] ∧ t.text? = some (.ok s)

/-- An array of things that are written each in its own way. -/
def ArrayWritten {α : Type} (Writes : α → List Token → Prop) (as : List α) (ts : List Token) : Prop :=
  ∃ tss, ts = Token.array tss ∧ List.Forall₂ (fun ts a => Writes a ts) tss as

theorem RecordWritten.head {members : List Member} {Other : List Token → Prop} {ts : List Token}
    (h : RecordWritten members Other ts) : ∃ t ts', ts = t :: ts' ∧ t ≠ .closeArray := by
  cases h with
  | object _ => exact ⟨.openObject, _, rfl, nofun⟩
  | array _ => exact ⟨.openArray, _, rfl, nofun⟩

namespace Decoder

variable {α σ : Type}

theorem elementReads_text {s : String} {ts : List Token} (h : TextWritten s ts) : text.ElementReads ts s := by
  obtain ⟨t, rfl, ht⟩ := h
  refine ⟨reads_textAs "a string" ht, t, [], rfl, ?_⟩
  rintro rfl
  cases ht

theorem elementReads_boolean {b : Bool} {ts : List Token} (h : ts = [.boolean b]) : boolean.ElementReads ts b := by
  subst h
  exact ⟨reads_boolean b, _, _, rfl, nofun⟩

theorem elementReads_array {Writes : α → List Token → Prop} {item : Decoder α}
    (hitem : ∀ a ts, Writes a ts → item.ElementReads ts a) {as : List α} {ts : List Token}
    (h : ArrayWritten Writes as ts) : (array item).ElementReads ts as := by
  obtain ⟨tss, rfl, hwritten⟩ := h
  refine ⟨Reads.array (hwritten.imp fun ts a => hitem a ts), .openArray, _, rfl, nofun⟩

/-! ### Members in any order -/

/-- What has been read of a member after the members with the names `seen`. -/
def present (seen : List String) (name : String) (a : α) : Option α := if name ∈ seen then some a else none

@[simp] theorem present_append_self (seen : List String) (name : String) (a : α) :
    present (seen ++ [name]) name a = some a := by
  simp [present]

@[simp] theorem present_append_of_ne (seen : List String) {name k : String} (h : name ≠ k) (a : α) :
    present (seen ++ [k]) name a = present seen name a := by
  simp [present, h]

/-- The value of a member that has not been read goes to its place. -/
theorem reads_put {item : Decoder α} {seen : List String} {name : String} {a : α} {ts : List Token}
    (hfresh : name ∉ seen) (h : item.Reads ts a) (put : Option α → σ) {s : σ} (hs : s = put (some a)) :
    (once name (present seen name a) item >>= fun x => pure (put x)).Reads (.colon :: ts) s := by
  rw [present, if_neg hfresh, hs]
  exact (reads_once name h).andThen (.pure _)

/-- A member under another name changes nothing. -/
theorem reads_other {ts : List Token} (h : IgnoredValue ts) {s s' : σ} (hs : s' = s) :
    (ignoredMember >>= fun _ => pure s).Reads (.colon :: ts) s' := by
  rw [hs]
  exact (reads_colon.bind (reads_ignored h)).andThen (.pure _)

/-- Reading entry by entry: what one entry keeps up, all of them do. -/
theorem exists_membersRead {member : σ → String → Decoder σ} {members : List Member} {Other : List Token → Prop}
    {Gathered : List String → σ → Prop} {es : List Entry} (h : InAnyOrder members Other es) {s : σ} (hs : Gathered [] s)
    (step : ∀ {seen s} {e : Entry}, Gathered seen s → e.Fits members Other →
      (∀ m ∈ members, m.name = e.name → e.name ∉ seen) →
      ∃ s', (member s e.name).Reads (.colon :: e.value) s' ∧ Gathered (seen ++ [e.name]) s') :
    ∃ s', MembersRead member es s s' ∧ Gathered (es.map Entry.name) s' := by
  obtain ⟨fits, once, -⟩ := h
  -- the names seen grow with each entry, and all of them together have each member at most once
  suffices hall : ∀ seen s, Gathered seen s → (∀ m ∈ members, (seen ++ es.map Entry.name).count m.name ≤ 1) →
      ∃ s', MembersRead member es s s' ∧ Gathered (seen ++ es.map Entry.name) s' from hall [] s hs once
  clear hs once
  intro seen s hs once
  induction es generalizing seen s with
  | nil => exact ⟨s, .nil s, by simpa using hs⟩
  | cons e es ih =>
    obtain ⟨he, hes⟩ := List.forall_mem_cons.1 fits
    have hfresh : ∀ m ∈ members, m.name = e.name → e.name ∉ seen := by
      intro m hm hname hseen
      have hcount := once m hm
      have hpos := List.count_pos_iff.2 hseen
      rw [hname, List.map_cons, List.count_append, List.count_cons_self] at hcount
      omega
    obtain ⟨s', hreads, hs'⟩ := step hs he hfresh
    rw [List.map_cons, List.append_cons] at once ⊢
    obtain ⟨s'', hmembers, hs''⟩ := ih hes _ _ hs' once
    exact ⟨s'', .cons hreads hmembers, hs''⟩

theorem membersRead_gathered {member : σ → String → Decoder σ} {members : List Member} {Other : List Token → Prop}
    {es : List Entry} (h : InAnyOrder members Other es) (gathered : List String → σ)
    (step : ∀ {seen} {e : Entry}, e.Fits members Other → (∀ m ∈ members, m.name = e.name → e.name ∉ seen) →
      (member (gathered seen) e.name).Reads (.colon :: e.value) (gathered (seen ++ [e.name]))) :
    MembersRead member es (gathered []) (gathered (es.map Entry.name)) := by
  have hstep : ∀ {seen s} {e : Entry}, s = gathered seen → e.Fits members Other →
      (∀ m ∈ members, m.name = e.name → e.name ∉ seen) →
      ∃ s', (member s e.name).Reads (.colon :: e.value) s' ∧ s' = gathered (seen ++ [e.name]) := by
    rintro seen s e rfl hfits hfresh
    exact ⟨_, step hfits hfresh, rfl⟩
  obtain ⟨s, hreads, rfl⟩ := @exists_membersRead _ member _ _ (fun seen s => s = gathered seen) _ h _ rfl hstep
  exact hreads

/-! ### Elements in order -/

/-- What is read of a member: its value, or nothing where it has the default. -/
def Given (isDefault : Prop) (a : α) (o : Option α) : Prop := o = some a ∨ o = none ∧ isDefault

theorem given_present {names : List String} {name : String} {isDefault : Prop} (h : name ∈ names ∨ isDefault) (a : α) :
    Given isDefault a (present names name a) := by
  by_cases hname : name ∈ names
  · exact .inl (by rw [present, if_pos hname])
  · exact .inr ⟨by rw [present, if_neg hname], h.resolve_left hname⟩

theorem Given.eq_some {a : α} {o : Option α} (h : Given False a o) : o = some a := h.resolve_right And.right

theorem Given.getD {a b : α} {o : Option α} (h : Given (a = b) a o) : o.getD b = a := by
  rcases h with rfl | ⟨rfl, rfl⟩ <;> rfl

theorem requireElement_some (index : Nat) (expected : String) (a : α) (ts : List Token) :
    requireElement index expected (some a) ts = .ok (a, ts) := rfl

/-- The tokens of the elements that are left in an array; `first` says that none has been read. -/
def elementTokens (first : Bool) (tss : List (List Token)) : List Token :=
  if first then List.intercalate [.comma] tss else tss.flatMap (.comma :: ·)

theorem exists_optional {m : Member} {members : List Member} {tss : List (List Token)} (h : InOrder (m :: members) tss)
    {item : Decoder α} {a : α} (hitem : ∀ ts, m.Writes ts → item.ElementReads ts a) (first : Bool) (rest : List Token) :
    ∃ o tss', optional first item (elementTokens first tss ++ .closeArray :: rest) =
        .ok (o, elementTokens false tss' ++ .closeArray :: rest) ∧ InOrder members tss' ∧ Given m.IsDefault a o := by
  cases h with
  | omitted h =>
    -- the array ends here, and all later members are left out as well
    obtain ⟨hm, hmembers⟩ := List.forall_mem_cons.1 h
    refine ⟨none, [], ?_, .omitted hmembers, .inr ⟨rfl, hm⟩⟩
    cases first <;> rfl
  | @cons _ _ ts tss head tail =>
    obtain ⟨hreads, t, ts', rfl, ht⟩ := hitem ts head
    refine ⟨some a, tss, ?_, tail, .inl rfl⟩
    have hnext : element? first (elementTokens first ((t :: ts') :: tss) ++ .closeArray :: rest) =
        .ok (true, t :: ts' ++ (elementTokens false tss ++ .closeArray :: rest)) := by
      cases first with
      | true =>
        show element? true (List.intercalate [.comma] ((t :: ts') :: tss) ++ .closeArray :: rest) = _
        rw [Token.intercalate_comma, List.append_assoc]
        exact element?_first ht _
      | false =>
        show element? false (((t :: ts') :: tss).flatMap (.comma :: ·) ++ .closeArray :: rest) = _
        rw [List.flatMap_cons, List.append_assoc]
        exact element?_comma ht _
    rw [optional, bind_of_ok hnext]
    exact bind_of_ok (hreads _)

/-- A record is read that is written in one of its ways. -/
theorem elementReads_record {members : List Member} {Other : List Token → Prop} {expected : String}
    {fromMembers fromElements : Decoder α} {a : α}
    (hobject : ∀ es, InAnyOrder members Other es → fromMembers.Reads (memberTokens es) a)
    (harray : ∀ tss, InOrder members tss → ∀ rest,
      fromElements (elementTokens true tss ++ .closeArray :: rest) = .ok (a, .closeArray :: rest))
    {ts : List Token} (h : RecordWritten members Other ts) :
    (record expected fromMembers fromElements).ElementReads ts a := by
  refine ⟨?_, h.head⟩
  cases h with
  | object h => exact hobject _ h
  | @array tss h =>
    intro rest
    show (fromElements >>= fun a => closeArray >>= fun _ => pure a)
      (List.intercalate [.comma] tss ++ [.closeArray] ++ rest) = _
    rw [List.append_assoc, List.singleton_append]
    exact (bind_of_ok (harray tss h rest)).trans rfl

end Decoder

end SchemaDecl.Json
