import SchemaDecl.Json.Decoder

/-!
# Values and ignored values

The tokens of one value are folded from left to right with a stack of the arrays and objects that are open.  The fold
with `Value` keeps everything: strings must pair their surrogates, numbers must be within the range of doubles, and only
so many levels may be open.  The fold that keeps nothing checks words, brackets, commas and colons and no more.
-/

namespace SchemaDecl.Json

inductive Value where
  | null
  | boolean (b : Bool)
  | number (n : Number)
  | string (s : String)
  | array (elements : List Value)
  | object (members : List (String × Value))

/-- What a fold makes of the tokens of a value. -/
structure Fold (κ α : Type) where
  /-- A token that is a value on its own. -/
  scalar : Token → Except Fault α
  /-- A token in the place of a key. -/
  key : Token → Except Fault κ
  array : List α → α
  object : List (κ × α) → α
  /-- How many arrays and objects may be open at once, if there is a limit. -/
  limit : Option Nat

namespace Fold

variable {κ α : Type}

/-- An open array, an open object between two members, or one whose member is being read.  What has been read is
reversed. -/
inductive Frame (κ α : Type) where
  | array (done : List α)
  | object (done : List (κ × α))
  | member (done : List (κ × α)) (key : κ)

/-- What may come next: a value; the first element or key, or the end of what has just been opened; a comma or the end
of the innermost array or object; a key; the colon after a key. -/
inductive Place where
  | value
  | first
  | next
  | key
  | colon

/-- The state after a token: the value is finished, or more tokens belong to it. -/
inductive Progress (κ α : Type) where
  | done (a : α)
  | more (place : Place) (stack : List (Frame κ α))

/-- A finished value goes into the innermost array or object, or is the result. -/
def finish (a : α) : List (Frame κ α) → Progress κ α
  | [] => .done a
  | .array done :: stack => .more .next (.array (a :: done) :: stack)
  | .member done k :: stack => .more .next (.object ((k, a) :: done) :: stack)
  | .object done :: stack => .more .next (.object done :: stack)

/-- Opens one more level, unless the limit is reached. -/
def push (fold : Fold κ α) (frame : Frame κ α) (stack : List (Frame κ α)) : Except Fault (Progress κ α) :=
  if fold.limit.all (stack.length < ·) then .ok (.more .first (frame :: stack)) else .error .malformed

/-- A token in the place of a value. -/
def stepValue (fold : Fold κ α) (stack : List (Frame κ α)) (t : Token) : Except Fault (Progress κ α) :=
  match t with
  | .openArray => fold.push (.array []) stack
  | .openObject => fold.push (.object []) stack
  | t => (fold.scalar t).map (finish · stack)

/-- A token in the place of a key. -/
def stepKey (fold : Fold κ α) (done : List (κ × α)) (stack : List (Frame κ α)) (t : Token) :
    Except Fault (Progress κ α) :=
  (fold.key t).map fun k => .more .colon (.member done k :: stack)

def step (fold : Fold κ α) : Place → List (Frame κ α) → Token → Except Fault (Progress κ α)
  | .value, stack, t => fold.stepValue stack t
  | .first, .array done :: stack, t =>
    if t = .closeArray then .ok (finish (fold.array done.reverse) stack) else fold.stepValue (.array done :: stack) t
  | .first, .object done :: stack, t =>
    if t = .closeObject then .ok (finish (fold.object done.reverse) stack) else fold.stepKey done stack t
  | .next, .array done :: stack, t =>
    if t = .comma then .ok (.more .value (.array done :: stack))
    else if t = .closeArray then .ok (finish (fold.array done.reverse) stack)
    else .error .malformed
  | .next, .object done :: stack, t =>
    if t = .comma then .ok (.more .key (.object done :: stack))
    else if t = .closeObject then .ok (finish (fold.object done.reverse) stack)
    else .error .malformed
  | .key, .object done :: stack, t => fold.stepKey done stack t
  | .colon, stack, t => if t = .colon then .ok (.more .value stack) else .error .malformed
  | _, _, _ => .error .malformed

/-- Folds tokens until the value is finished; the tokens after it are left. -/
def run (fold : Fold κ α) : Place → List (Frame κ α) → List Token → Except Fault (α × List Token)
  | _, _, [] => .error .truncated
  | place, stack, t :: ts =>
    match fold.step place stack t with
    | .error fault => .error fault
    | .ok (.done a) => .ok (a, ts)
    | .ok (.more place stack) => run fold place stack ts

/-- Folds the tokens of one value. -/
def decoder (fold : Fold κ α) : Decoder α := fold.run .value []

end Fold

/-- The fold that keeps a value, with at most `limit` levels. -/
def Value.fold (limit : Nat) : Fold String Value where
  scalar
    | .null => .ok .null
    | .boolean b => .ok (.boolean b)
    | .number x =>
      match x.value? with
      | some n => .ok (.number n)
      | none => .error .malformed
    | .brokenWord ended | .brokenNumber ended => .error (.atEnd ended)
    | t =>
      match t.text? with
      | some text => text.map .string
      | none => .error .malformed
  key t := t.text?.getD (.error .malformed)
  array := .array
  object := .object
  limit := some limit

/-- The fold that keeps nothing. -/
def ignoredFold : Fold Unit Unit where
  scalar
    | .null | .boolean _ | .number _ | .string _ => .ok ()
    | .brokenWord ended | .brokenString _ ended => .error (.atEnd ended)
    | _ => .error .malformed
  key
    | .string _ => .ok ()
    | .brokenString _ ended => .error (.atEnd ended)
    | _ => .error .malformed
  array _ := ()
  object _ := ()
  limit := none

namespace Decoder

/-- A value that is kept. -/
def value (limit : Nat) : Decoder Value := (Value.fold limit).decoder

/-- A value that is not kept. -/
def ignored : Decoder Unit := ignoredFold.decoder

/-- A member that no one asks for. -/
def ignoredMember : Decoder Unit := do colon; ignored

end Decoder

end SchemaDecl.Json
