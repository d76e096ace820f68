import SchemaDecl.Proofs.Streaming
import SchemaDecl.Schema.Reader

/-!
# Documents that end early

A text that is a document, cut off anywhere before its end, is not a document: it is cut short, and nothing is said
about its members.  Every decoder of a document follows a cut, and the cut leaves the document without its last
bracket.
-/

namespace SchemaDecl

open Json Decoder

variable {inside : Prop}

/-! ### Decoders of a document -/

namespace FieldType

private theorem follows_member (p : Parts) (k : String) : Follows inside True 0 (member p k) := by
  unfold member
  split
  · exact (Follows.once k p.tag (.choice FieldTag.choices)).map _
  · exact (Follows.colon.bind fun _ => ((Follows.value _).weaken id).map _).weaken id

theorem follows_decoder : Follows inside False 1 decoder := by
  refine .mark rfl ?_
  intro t ts a rest h
  cases t with
  | openObject =>
    refine ⟨rfl, fromMembers, ?_, fun us => rfl⟩
    exact (Follows.allMembers follows_member {}).bind fun p => (Follows.require "type" p.tag).bind fun tag => .lift _
  | openArray =>
    refine ⟨rfl, _, ?_, fun us => rfl⟩
    have helements : Follows inside False 0 fromElements :=
      (Follows.optional true (.choice FieldTag.choices)).bind fun o => (Follows.require "type" o).bind fun tag =>
        (Follows.allElements (.value _) false).map _
    exact helements.bind fun p => (Follows.closeArray.bind fun _ => .lift _).weaken id
  | _ => cases h

end FieldType

/-- The value of a member goes to its place. -/
private theorem follows_put {α σ : Type} {item : Decoder α} {k : Nat} (name : String) (earlier : Option α)
    (put : Option α → σ) (h : Follows inside False k item) :
    Follows inside True 0 (once name earlier item >>= fun x => pure (put x)) :=
  ((Follows.once name earlier h).weaken False.elim).map put

/-- A member that no one asks for changes nothing. -/
private theorem follows_ignored {σ : Type} (s : σ) : Follows inside True 0 (ignoredMember >>= fun _ => pure s) :=
  (Follows.ignoredMember.weaken id).map fun _ => s

namespace Field

private theorem follows_member (p : Parts) (k : String) : Follows inside True 0 (member p k) := by
  unfold member
  split
  · exact follows_put k p.key _ (.textAs _)
  split
  · exact follows_put k p.required _ .boolean
  split
  · exact follows_put k p.array _ .boolean
  split
  · exact follows_put k p.type _ FieldType.follows_decoder
  exact follows_ignored p

theorem follows_decoder : Follows inside False 1 decoder := by
  refine .record _ ?_ ?_
  · exact (Follows.allMembers follows_member {}).bind fun p => (Follows.require "key" p.key).bind fun key =>
      (Follows.require "type" p.type).map _
  · exact (Follows.optional true (.textAs _)).bind fun o => (Follows.requireElement 0 _ o).bind fun key =>
      (Follows.optional false .boolean).bind fun required => (Follows.optional false .boolean).bind fun array =>
        (Follows.optional false FieldType.follows_decoder).bind fun o => (Follows.requireElement 3 _ o).map _

end Field

namespace Entity

private theorem follows_member (p : Parts) (k : String) : Follows inside True 0 (member p k) := by
  unfold member
  split
  · exact follows_put k p.name _ (.textAs _)
  split
  · exact follows_put k p.fields _ (.array Field.follows_decoder)
  exact follows_ignored p

theorem follows_decoder : Follows inside False 1 decoder := by
  refine .record _ ?_ ?_
  · exact (Follows.allMembers follows_member {}).bind fun p => (Follows.require "name" p.name).map _
  · exact (Follows.optional true (.textAs _)).bind fun o => (Follows.requireElement 0 _ o).bind fun name =>
      (Follows.optional false (.array Field.follows_decoder)).map _

end Entity

theorem PathMap.follows_decoder : Follows inside False 1 decoder := by
  have hmember : ∀ m k, Follows inside False 0 (member m k) := fun m k =>
    (Follows.colon.bind fun _ => ((Follows.textAs _).weaken id).map _).weaken id
  refine .mark rfl ?_
  intro t ts m rest h
  cases t with
  | openObject => exact ⟨rfl, _, .allMembers hmember .empty, fun us => rfl⟩
  | _ => cases h

namespace Document

private theorem follows_member (p : Parts) (k : String) : Follows inside True 0 (member p k) := by
  unfold member
  split
  · exact follows_put k p.entities _ (.array Entity.follows_decoder)
  split
  · exact follows_put k p.tables _ PathMap.follows_decoder
  exact follows_ignored p

theorem follows_decoder : Follows inside False 1 decoder := by
  refine .record _ ?_ ?_
  · exact (Follows.allMembers follows_member {}).map _
  · exact (Follows.optional true (.array Entity.follows_decoder)).bind fun entities =>
      (Follows.optional false PathMap.follows_decoder).map _

/-! ### Whole texts -/

private theorem decoder_of_parse {text : String} {d : Document} (h : Document.parse text = .ok d) :
    decoder (Token.scan text) = .ok (d, []) := by
  rw [parse, Decoder.run] at h
  split at h
  · cases h
  · rename_i hd
    cases h
    exact hd
  · cases h

/-- A text is cut inside a number: the scanner is in a number at the cut, and the next character goes on with it. -/
def CutInNumber (front back : String) : Prop := Scan.InNumber .ground front.toList back.toList

/-- What is left of a document when its end is cut off is not a document.  It is cut short; where the cut is inside a
number it may be malformed, but it is never found fault with for what it says. -/
theorem parse_cut {front back : String} {d : Document} (h : Document.parse (front ++ back) = .ok d) (hback : back ≠ "")
    (hend : ∀ c, (front ++ back).toList.getLast? = some c → isSpace c = false) :
    ∃ fault, Document.parse front = .error fault ∧ (∀ cause, fault ≠ .mismatch cause) ∧
      (¬ CutInNumber front back → fault = .truncated) := by
  have hds : ∃ c ∈ back.toList, isSpace c = false := by
    have hne : back.toList ≠ [] := fun hnil => hback (by rw [← String.toList_inj, hnil]; rfl)
    refine ⟨_, List.getLast_mem hne, hend _ ?_⟩
    rw [String.toList_append, List.getLast?_append_of_ne_nil _ hne, List.getLast?_eq_some_getLast hne]
  have hcut : Cut (CutInNumber front back) (Token.scan (front ++ back)) (Token.scan front) := by
    rw [Token.scan, Token.scan, String.toList_append]
    exact Scan.cut_run (s := .ground) trivial front.toList hds
  cases follows_decoder (decoder_of_parse h) hcut with
  | same h' cut taken => cases cut
  | spent allowed h' taken => exact allowed.elim
  | @stopped fault h' fromCut =>
    refine ⟨fault, by rw [parse, Decoder.run, h'], ?_, ?_⟩
    · intro cause hcause
      rcases fromCut with hfault | ⟨-, hfault⟩
      · rw [hcause] at hfault; cases hfault
      · rw [hcause] at hfault; cases hfault
    · intro hnumber
      rcases fromCut with hfault | ⟨hin, -⟩
      · exact hfault
      · exact absurd hin hnumber

private theorem eq_ok_of_toOption {ε α : Type} {x : Except ε α} {a : α} (h : x.toOption = some a) : x = .ok a := by
  cases x with
  | error e => cases h
  | ok b => cases h; rfl

/-- A cut in an escape, behind an ignored number. -/
theorem parse_cut_escape :
    Document.parse ("\x7b\"n\":[10],\"tables\":\x7b\"User\":\"./us\\u00" ++ "e9rs\"\x7d\x7d") =
        .ok { tables := .ofList [("User", "./usérs")] } ∧
      Document.parse "\x7b\"n\":[10],\"tables\":\x7b\"User\":\"./us\\u00" = .error .truncated := by
  have hsome : (Document.parse ("\x7b\"n\":[10],\"tables\":\x7b\"User\":\"./us\\u00" ++ "e9rs\"\x7d\x7d")).toOption =
      some { tables := .ofList [("User", "./usérs")] } := by decide +kernel
  have hwhole := eq_ok_of_toOption hsome
  have hnumber : ¬ CutInNumber "\x7b\"n\":[10],\"tables\":\x7b\"User\":\"./us\\u00" "e9rs\"\x7d\x7d" := by
    rintro ⟨x, phase, hstate, -⟩
    cases hstate
  obtain ⟨fault, hfault, -, heof⟩ := parse_cut hwhole (by decide) fun c hc => by cases hc; rfl
  rw [heof hnumber] at hfault
  exact ⟨hwhole, hfault⟩

end Document

end SchemaDecl
