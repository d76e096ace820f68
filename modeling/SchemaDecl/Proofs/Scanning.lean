import SchemaDecl.Json.Print
import SchemaDecl.Json.Scan

/-!
# Steps of the scanner

What one character does to the scanner, said once as a relation (`Scan.Step`, for a character between tokens
`Scan.Opening`).  Every step is one of these (`Scan.step_spec`).
-/

namespace SchemaDecl.Json

namespace Token

/-- A token of a single character. -/
def isMark : Token → Bool
  | .openObject | .closeObject | .openArray | .closeArray | .comma | .colon => true
  | _ => false

def isWord : Token → Bool
  | .null | .boolean _ => true
  | _ => false

def isBroken : Token → Bool
  | .brokenWord _ | .brokenNumber _ | .brokenString _ _ | .stray => true
  | _ => false

end Token

namespace Scan

/-- What a character between tokens begins or is. -/
inductive Opening (c : Char) : Option Scan → List Token → Prop
  | space (h : isSpace c = true) : Opening c (some .ground) []
  | mark {t : Token} (h : t.isMark = true) (hc : t.render = [c]) : Opening c (some .ground) [t]
  | quote (h : c = '"') : Opening c (some (.string [])) []
  | word {t : Token} {rest : List Char} (h : t.isWord = true) (hc : t.render = c :: rest) :
    Opening c (some (.word rest t)) []
  | minus (h : c = '-') : Opening c (some (.number ⟨true, [], [], none⟩ .sign)) []
  | zero (h : c = '0') : Opening c (some (.number ⟨false, [c], [], none⟩ .zero)) []
  | digit (h : isDigit c = true) (h0 : c ≠ '0') : Opening c (some (.number ⟨false, [c], [], none⟩ .whole)) []
  | stray : Opening c none [.stray]

theorem opening_stepGround (c : Char) : Opening c (stepGround c).1 (stepGround c).2 := by
  by_cases hspace : isSpace c = true
  · rw [stepGround, if_pos hspace]; exact .space hspace
  by_cases h1 : c = '{'
  · subst h1; exact .mark (t := .openObject) rfl rfl
  by_cases h2 : c = '}'
  · subst h2; exact .mark (t := .closeObject) rfl rfl
  by_cases h3 : c = '['
  · subst h3; exact .mark (t := .openArray) rfl rfl
  by_cases h4 : c = ']'
  · subst h4; exact .mark (t := .closeArray) rfl rfl
  by_cases h5 : c = ','
  · subst h5; exact .mark (t := .comma) rfl rfl
  by_cases h6 : c = ':'
  · subst h6; exact .mark (t := .colon) rfl rfl
  by_cases h7 : c = '"'
  · subst h7; exact .quote rfl
  by_cases h8 : c = 'n'
  · subst h8; exact .word (t := .null) rfl rfl
  by_cases h9 : c = 't'
  · subst h9; exact .word (t := .boolean true) rfl rfl
  by_cases h10 : c = 'f'
  · subst h10; exact .word (t := .boolean false) rfl rfl
  by_cases h11 : c = '-'
  · subst h11; exact .minus rfl
  by_cases h12 : c = '0'
  · subst h12; exact .zero rfl
  rw [stepGround, if_neg hspace, if_neg h1, if_neg h2, if_neg h3, if_neg h4, if_neg h5, if_neg h6, if_neg h7, if_neg h8,
    if_neg h9, if_neg h10, if_neg h11, if_neg h12]
  split
  · rename_i hdigit
    exact .digit hdigit h12
  · exact .stray

/-- How many bytes characters take. -/
def byteCount (cs : List Char) : Nat := cs.foldl (fun n c => n + c.utf8Size) 0

/-- What a character does: the state after it, unless the scanner stops, and the tokens that are finished. -/
inductive Step (c : Char) : Scan → Option Scan → List Token → Prop
  | ground {next : Option Scan} {ts : List Token} (h : Opening c next ts) : Step c .ground next ts
  | wordOn {ds : List Char} {t : Token} (h : ds ≠ []) : Step c (.word (c :: ds) t) (some (.word ds t)) []
  | wordEnd (t : Token) : Step c (.word [c] t) (some .ground) [t]
  | wordOver {next : Option Scan} {ts : List Token} (t : Token) (h : Opening c next ts) :
    Step c (.word [] t) next (t :: ts)
  | wordBreak (ds : List Char) (t : Token) : Step c (.word ds t) none [.brokenWord false]
  | stringEnd (done : List Piece) (h : c = '"') : Step c (.string done) (some .ground) [.string done.reverse]
  | stringEscape (done : List Piece) (h : c = '\\') : Step c (.string done) (some (.escape done)) []
  | stringChar (done : List Piece) (hquote : c ≠ '"') (hslash : c ≠ '\\') (h : 0x20 ≤ c.toNat) :
    Step c (.string done) (some (.string (.char c :: done))) []
  | stringBreak (done : List Piece) : Step c (.string done) none [.brokenString done.reverse false]
  | escapeUnit (done : List Piece) (h : c = 'u') : Step c (.escape done) (some (.hex done [])) []
  | escapeShort (done : List Piece) {d : Char} (h : shortEscape? c = some d) :
    Step c (.escape done) (some (.string (.char d :: done))) []
  | escapeBreak (done : List Piece) : Step c (.escape done) none [.brokenString done.reverse false]
  | hexOn (done : List Piece) (seen : List Char) (h : byteCount (c :: seen) < 4) :
    Step c (.hex done seen) (some (.hex done (c :: seen))) []
  | hexEnd (done : List Piece) {seen : List Char} {code : Nat} (hbytes : 4 ≤ byteCount (c :: seen))
    (h : hexDigitsValue? (c :: seen).reverse = some code) :
    Step c (.hex done seen) (some (.string (.unit code :: done))) []
  | hexBreak (done : List Piece) (seen : List Char) : Step c (.hex done seen) none [.brokenString done.reverse false]
  | numberOn {x y : NumberLiteral} {phase phase' : NumberPhase} (h : x.extend? phase c = some (y, phase')) :
    Step c (.number x phase) (some (.number y phase')) []
  | numberEnd {x : NumberLiteral} {phase : NumberPhase} {next : Option Scan} {ts : List Token}
    (hover : x.extend? phase c = none) (hcomplete : phase.complete = true) (h : Opening c next ts) :
    Step c (.number x phase) next (.number x :: ts)
  | numberBreak {x : NumberLiteral} {phase : NumberPhase} (hover : x.extend? phase c = none) :
    Step c (.number x phase) none [.brokenNumber false]

theorem step_spec (s : Scan) (c : Char) : Step c s (s.step c).1 (s.step c).2 := by
  cases s with
  | ground => exact .ground (opening_stepGround c)
  | word rest t =>
    cases rest with
    | nil => exact .wordOver t (opening_stepGround c)
    | cons d ds =>
      rw [step]
      split
      · exact .wordBreak _ t
      · rename_i hd
        obtain rfl : c = d := Decidable.not_not.1 hd
        split
        · rename_i hds
          rw [List.isEmpty_iff.1 hds]
          exact .wordEnd t
        · rename_i hds
          exact .wordOn fun h => hds (List.isEmpty_iff.2 h)
  | string done =>
    rw [step]
    split
    · rename_i hquote
      exact .stringEnd done hquote
    · rename_i hquote
      split
      · rename_i hslash
        exact .stringEscape done hslash
      · rename_i hslash
        split
        · exact .stringBreak done
        · rename_i hcontrol
          exact .stringChar done hquote hslash (by omega)
  | escape done =>
    rw [step]
    split
    · rename_i hu
      exact .escapeUnit done hu
    · split
      · rename_i d hd
        exact .escapeShort done hd
      · exact .escapeBreak done
  | hex done seen =>
    rw [step, stepHex]
    split
    · rename_i hbytes
      exact .hexOn done seen hbytes
    · rename_i hbytes
      split
      · rename_i code hcode
        exact .hexEnd done (by unfold byteCount; omega) hcode
      · exact .hexBreak done seen
  | number x phase =>
    rw [step, stepNumber]
    split
    · rename_i y phase' hy
      exact .numberOn hy
    · rename_i hover
      split
      · rename_i hcomplete
        exact .numberEnd hover hcomplete.1 (opening_stepGround c)
      · exact .numberBreak hover

/-- A character that does not belong to a number ends it and is read again. -/
theorem run_number_end {x : NumberLiteral} {phase : NumberPhase} {c : Char} (hover : x.extend? phase c = none)
    (hcomplete : phase.complete = true ∧ ¬ (phase = .zero ∧ isDigit c = true)) (cs : List Char) :
    run (.number x phase) (c :: cs) = .number x :: run .ground (c :: cs) := by
  rw [run, run, step, step, stepNumber, hover]
  simp only [if_pos hcomplete]
  cases stepGround c with
  | mk next ts => cases next <;> rfl

end Scan

end SchemaDecl.Json
