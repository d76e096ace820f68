import SchemaDecl.Json.Token

/-!
# Cutting a text into tokens

An automaton reads one character at a time.  A character that ends a number is read again between tokens; a fault ends
the list with a broken token, and so does the end of the text inside one.
-/

namespace SchemaDecl.Json

/-- How far a number has been read. -/
inductive NumberPhase where
  | sign
  | zero
  | whole
  | point
  | fraction
  | mark
  | markSign
  | power
  deriving DecidableEq

/-- What is being read: nothing, the rest of a word, a string, an escape in it, its hexadecimal digits, a number.
Lists of what has been read of a string are reversed. -/
inductive Scan where
  | ground
  | word (rest : List Char) (token : Token)
  | string (done : List Piece)
  | escape (done : List Piece)
  | hex (done : List Piece) (seen : List Char)
  | number (x : NumberLiteral) (phase : NumberPhase)

/-- White space between tokens. -/
def isSpace (c : Char) : Bool := c = ' ' || c = '\t' || c = '\n' || c = '\r'

def hexValue? (c : Char) : Option Nat :=
  if isDigit c then some (digitValue c)
  else if 'a' ≤ c ∧ c ≤ 'f' then some (c.toNat - 'a'.toNat + 10)
  else if 'A' ≤ c ∧ c ≤ 'F' then some (c.toNat - 'A'.toNat + 10)
  else none

/-- The number that hexadecimal digits spell, if all of them are digits. -/
def hexDigitsValue? (ds : List Char) : Option Nat :=
  ds.foldlM (fun n d => (hexValue? d).map (16 * n + ·)) 0

namespace NumberPhase

/-- Whether a number may end here. -/
def complete : NumberPhase → Bool
  | .zero | .whole | .fraction | .power => true
  | .sign | .point | .mark | .markSign => false

end NumberPhase

namespace NumberLiteral

/-- The literal one character further, if the character belongs to it. -/
def extend? (x : NumberLiteral) (phase : NumberPhase) (c : Char) : Option (NumberLiteral × NumberPhase) :=
  match phase with
  | .sign =>
    if c = '0' then some ({ x with whole := [c] }, .zero)
    else if isDigit c then some ({ x with whole := [c] }, .whole)
    else none
  | .zero => afterWhole c
  | .whole => if isDigit c then some ({ x with whole := x.whole ++ [c] }, .whole) else afterWhole c
  | .point => if isDigit c then some ({ x with fraction := [c] }, .fraction) else none
  | .fraction =>
    if isDigit c then some ({ x with fraction := x.fraction ++ [c] }, .fraction)
    else if c = 'e' ∨ c = 'E' then some (x, .mark)
    else none
  | .mark =>
    if c = '+' then some ({ x with power := some (false, []) }, .markSign)
    else if c = '-' then some ({ x with power := some (true, []) }, .markSign)
    else if isDigit c then some ({ x with power := some (false, [c]) }, .power)
    else none
  | .markSign => if isDigit c then some (addPowerDigit c, .power) else none
  | .power => if isDigit c then some (addPowerDigit c, .power) else none
where
  afterWhole (c : Char) : Option (NumberLiteral × NumberPhase) :=
    if c = '.' then some (x, .point)
    else if c = 'e' ∨ c = 'E' then some (x, .mark)
    else none
  addPowerDigit (c : Char) : NumberLiteral :=
    { x with power := x.power.map fun (negative, ds) => (negative, ds ++ [c]) }

end NumberLiteral

namespace Scan

/-- A step between tokens.  The result is the next state, if reading goes on, and the finished tokens. -/
def stepGround (c : Char) : Option Scan × List Token :=
  if isSpace c then (some .ground, [])
  else if c = '{' then (some .ground, [.openObject])
  else if c = '}' then (some .ground, [.closeObject])
  else if c = '[' then (some .ground, [.openArray])
  else if c = ']' then (some .ground, [.closeArray])
  else if c = ',' then (some .ground, [.comma])
  else if c = ':' then (some .ground, [.colon])
  else if c = '"' then (some (.string []), [])
  else if c = 'n' then (some (.word "ull".toList .null), [])
  else if c = 't' then (some (.word "rue".toList (.boolean true)), [])
  else if c = 'f' then (some (.word "alse".toList (.boolean false)), [])
  else if c = '-' then (some (.number ⟨true, [], [], none⟩ .sign), [])
  else if c = '0' then (some (.number ⟨false, [c], [], none⟩ .zero), [])
  else if isDigit c then (some (.number ⟨false, [c], [], none⟩ .whole), [])
  else (none, [.stray])

/-- A step inside the digits of a hexadecimal escape.  The escape takes four bytes, whatever they are. -/
def stepHex (done : List Piece) (seen : List Char) : Option Scan × List Token :=
  if seen.foldl (fun n c => n + c.utf8Size) 0 < 4 then (some (.hex done seen), [])
  else
    match hexDigitsValue? seen.reverse with
    | some code => (some (.string (.unit code :: done)), [])
    | none => (none, [.brokenString done.reverse false])

/-- A step inside a number: the character extends it, or ends it and is read again between tokens. -/
def stepNumber (x : NumberLiteral) (phase : NumberPhase) (c : Char) : Option Scan × List Token :=
  match x.extend? phase c with
  | some (x, phase) => (some (.number x phase), [])
  | none =>
    if phase.complete ∧ ¬ (phase = .zero ∧ isDigit c) then
      let (next, tokens) := stepGround c
      (next, .number x :: tokens)
    else (none, [.brokenNumber false])

def step : Scan → Char → Option Scan × List Token
  | .ground, c => stepGround c
  | .word [] token, c =>
    let (next, tokens) := stepGround c
    (next, token :: tokens)
  | .word (d :: ds) token, c =>
    if c ≠ d then (none, [.brokenWord false])
    else if ds.isEmpty then (some .ground, [token])
    else (some (.word ds token), [])
  | .string done, c =>
    if c = '"' then (some .ground, [.string done.reverse])
    else if c = '\\' then (some (.escape done), [])
    else if c.toNat < 0x20 then (none, [.brokenString done.reverse false])
    else (some (.string (.char c :: done)), [])
  | .escape done, c =>
    if c = 'u' then (some (.hex done []), [])
    else
      match shortEscape? c with
      | some d => (some (.string (.char d :: done)), [])
      | none => (none, [.brokenString done.reverse false])
  | .hex done seen, c => stepHex done (c :: seen)
  | .number x phase, c => stepNumber x phase c

/-- The last token when the text ends. -/
def finish : Scan → List Token
  | .ground => []
  | .word _ _ => [.brokenWord true]
  | .string done | .escape done | .hex done _ => [.brokenString done.reverse true]
  | .number x phase => if phase.complete then [.number x] else [.brokenNumber true]

/-- The tokens of the rest of a text. -/
def run : Scan → List Char → List Token
  | s, [] => s.finish
  | s, c :: cs =>
    match s.step c with
    | (some s, tokens) => tokens ++ run s cs
    | (none, tokens) => tokens

end Scan

/-- The tokens of a text. -/
def Token.scan (text : String) : List Token := Scan.run .ground text.toList

end SchemaDecl.Json
