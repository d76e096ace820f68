import SchemaDecl.Json.Scan

/-!
# Decoding tokens

A decoder takes tokens off the front and gives a value, or the first fault it meets.  Here are the decoders for texts,
truth values, arrays and objects; a record may be written as an object, whose members come in any order, or as the array
of its members in their order.
-/

namespace SchemaDecl.Json

/-- Takes tokens off the front and gives a value, or stops at a fault. -/
abbrev Decoder (α : Type) := StateT (List Token) (Except Fault) α

/-- The fault of a token that is not the expected kind of value.  A scalar is read before it is refused. -/
def Token.unexpected (t : Token) (expected : String) : Fault :=
  match t with
  | .null => .mismatch (.kind .null expected)
  | .boolean b => .mismatch (.kind (.boolean b) expected)
  | .number x =>
    match x.value? with
    | some n => .mismatch (.kind (.number n) expected)
    | none => .malformed
  | .string _ | .brokenString _ _ =>
    match t.text? with
    | some (.ok s) => .mismatch (.kind (.string s) expected)
    | some (.error fault) => fault
    | none => .malformed
  | .openArray => .mismatch (.kind .sequence expected)
  | .openObject => .mismatch (.kind .map expected)
  | .brokenWord ended | .brokenNumber ended => .atEnd ended
  | .closeObject | .closeArray | .comma | .colon | .stray => .malformed

namespace Decoder

def fail {α : Type} (fault : Fault) : Decoder α := fun _ => .error fault

/-- A text, called `expected` in a message about another kind of value. -/
def textAs (expected : String) : Decoder String
  | [] => .error .truncated
  | t :: ts =>
    match t.text? with
    | some (.ok s) => .ok (s, ts)
    | some (.error fault) => .error fault
    | none => .error (t.unexpected expected)

def text : Decoder String := textAs "a string"

def boolean : Decoder Bool
  | [] => .error .truncated
  | .boolean b :: ts => .ok (b, ts)
  | t :: _ => .error (t.unexpected "a boolean")

/-- A value that carries nothing. -/
def null : Decoder Unit
  | [] => .error .truncated
  | .null :: ts => .ok ((), ts)
  | t :: _ => .error (t.unexpected "unit")

/-- The alternative with a name. -/
def choose {α : Type} (choices : List (String × α)) (name : String) : Decoder α :=
  match choices.lookup name with
  | some a => pure a
  | none => fail (.mismatch (.choice name (choices.map Prod.fst)))

/-- The name of one of several alternatives. -/
def choice {α : Type} (choices : List (String × α)) : Decoder α := do
  choose choices (← textAs "variant identifier")

def colon : Decoder Unit
  | [] => .error .truncated
  | .colon :: ts => .ok ((), ts)
  | _ :: _ => .error .malformed

/-! ### Arrays -/

/-- Whether another element follows; `first` says that none has been read.  The closing bracket is left. -/
def element? (first : Bool) : Decoder Bool
  | [] => .error .truncated
  | .closeArray :: ts => .ok (false, .closeArray :: ts)
  | t :: ts =>
    if first then .ok (true, t :: ts)
    else if t ≠ .comma then .error .malformed
    else
      match ts with
      | [] => .error .truncated
      | .closeArray :: _ => .error .malformed
      | ts => .ok (true, ts)

/-- The next element, if there is one. -/
def optional {α : Type} (first : Bool) (item : Decoder α) : Decoder (Option α) := do
  if ← element? first then return some (← item) else return none

def closeArray : Decoder Unit
  | [] => .error .truncated
  | .closeArray :: ts => .ok ((), ts)
  | _ :: _ => .error .malformed

/-- The elements up to the closing bracket; the first argument bounds their number. -/
def elements {α : Type} (item : Decoder α) : Nat → Bool → Decoder (List α)
  | 0, _ => fail .malformed
  | n + 1, first => do
    match ← optional first item with
    | none => return []
    | some a => return a :: (← elements item n false)

/-- All elements up to the closing bracket.  Each takes a token, so the tokens left bound their number. -/
def allElements {α : Type} (item : Decoder α) (first : Bool) : Decoder (List α) := fun ts =>
  elements item (ts.length + 1) first ts

def array {α : Type} (item : Decoder α) : Decoder (List α)
  | [] => .error .truncated
  | .openArray :: ts => (do let xs ← allElements item true; closeArray; return xs : Decoder (List α)) ts
  | t :: _ => .error (t.unexpected "a sequence")

/-! ### Objects -/

def key : Decoder String
  | [] => .error .truncated
  | t :: ts =>
    match t.text? with
    | some (.ok s) => .ok (s, ts)
    | some (.error fault) => .error fault
    | none => .error .malformed

/-- The next key, or nothing past the closing brace; `first` says that no member has been read. -/
def key? (first : Bool) : Decoder (Option String)
  | [] => .error .truncated
  | .closeObject :: ts => .ok (none, ts)
  | t :: ts =>
    if first then (some <$> key : Decoder (Option String)) (t :: ts)
    else if t = .comma then (some <$> key : Decoder (Option String)) ts
    else .error .malformed

/-- The members up to and with the closing brace, each changing what has been gathered; the first number bounds how
many there are. -/
def members {σ : Type} (member : σ → String → Decoder σ) : Nat → Bool → σ → Decoder σ
  | 0, _, _ => fail .malformed
  | n + 1, first, s => do
    match ← key? first with
    | none => return s
    | some k => members member n false (← member s k)

/-- All members up to and with the closing brace.  Each takes a token, so the tokens left bound their number. -/
def allMembers {σ : Type} (member : σ → String → Decoder σ) (s : σ) : Decoder σ := fun ts =>
  members member (ts.length + 1) true s ts

/-- The value of a member of a record, which must not have one already. -/
def once {α : Type} (name : String) (earlier : Option α) (item : Decoder α) : Decoder (Option α) :=
  match earlier with
  | some _ => fail (.mismatch (.repeated name))
  | none => do colon; return some (← item)

/-- A member that has to be there. -/
def require {α : Type} (name : String) : Option α → Decoder α
  | some a => pure a
  | none => fail (.mismatch (.missing name))

/-- An element that has to be there, in an array that stands for the record `expected`. -/
def requireElement {α : Type} (index : Nat) (expected : String) : Option α → Decoder α
  | some a => pure a
  | none => fail (.mismatch (.length index expected))

/-- A record called `expected`: what its braces or its brackets hold decides between the two readings. -/
def record {α : Type} (expected : String) (fromMembers fromElements : Decoder α) : Decoder α
  | [] => .error .truncated
  | .openObject :: ts => fromMembers ts
  | .openArray :: ts => (do let a ← fromElements; closeArray; return a : Decoder α) ts
  | t :: _ => .error (t.unexpected expected)

/-- A whole text: nothing may follow the value. -/
def run {α : Type} (decoder : Decoder α) (text : String) : Except Fault α :=
  match decoder (Token.scan text) with
  | .error fault => .error fault
  | .ok (a, []) => .ok a
  | .ok (_, _ :: _) => .error .malformed

end Decoder

end SchemaDecl.Json
