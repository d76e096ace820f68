import SchemaDecl.Json.Fault

/-!
# JSON tokens

A token may be broken: what is wrong inside it stays in the token, and a decoder that meets it where its kind is wrong
never looks inside.  A string keeps its characters and its hexadecimal escapes apart, because only a string that is kept
has to pair its surrogates; `Token.text?` is its text then.
-/

namespace SchemaDecl.Json

/-- A part of a string: a character, or a UTF-16 code unit written with four hexadecimal digits. -/
inductive Piece where
  | char (c : Char)
  | unit (code : Nat)
  deriving DecidableEq

/-- A token.  A broken one records whether the text ended inside it. -/
inductive Token where
  | openObject
  | closeObject
  | openArray
  | closeArray
  | comma
  | colon
  | null
  | boolean (b : Bool)
  | number (x : NumberLiteral)
  | string (pieces : List Piece)
  | brokenWord (ended : Bool)
  | brokenNumber (ended : Bool)
  | brokenString (pieces : List Piece) (ended : Bool)
  | stray
  deriving DecidableEq

/-- The short escapes: the letter after the backslash, and the character. -/
def shortEscapes : List (Char × Char) :=
  [('"', '"'), ('\\', '\\'), ('b', '\x08'), ('f', '\x0c'), ('n', '\n'), ('r', '\r'), ('t', '\t')]

/-- The character that a short escape stands for.  A slash may be escaped and is never written so. -/
def shortEscape? (letter : Char) : Option Char :=
  if letter = '/' then some '/' else shortEscapes.lookup letter

/-- The letter of the short escape of a character. -/
def escapeLetter? (c : Char) : Option Char :=
  (shortEscapes.find? (·.2 = c)).map Prod.fst

/-! ### Kept strings -/

/-- The first of a pair of surrogates. -/
def isLeading (code : Nat) : Bool := 0xd800 ≤ code && code < 0xdc00

/-- The second of a pair of surrogates. -/
def isTrailing (code : Nat) : Bool := 0xdc00 ≤ code && code < 0xe000

/-- The character of a pair of surrogates. -/
def pairChar (leading trailing : Nat) : Char :=
  Char.ofNat (0x10000 + (leading - 0xd800) * 0x400 + (trailing - 0xdc00))

/-- The characters of a string whose surrogates pair; `close` is what the end of the pieces means. -/
def Piece.decode (close : Option Fault) : List Piece → Except Fault (List Char)
  | [] =>
    match close with
    | none => .ok []
    | some fault => .error fault
  | .char c :: ps => (decode close ps).map (c :: ·)
  | .unit u :: ps =>
    if isTrailing u then .error .malformed
    else if isLeading u then
      match ps with
      | [] => .error (close.getD .malformed)
      | .char _ :: _ => .error .malformed
      | .unit v :: ps =>
        if isTrailing v then (decode close ps).map (pairChar u v :: ·) else .error .malformed
    else (decode close ps).map (Char.ofNat u :: ·)

/-- The text of a string token that is kept; no other token has one. -/
def Token.text? : Token → Option (Except Fault String)
  | .string ps => some ((Piece.decode none ps).map String.ofList)
  | .brokenString ps ended => some ((Piece.decode (some (.atEnd ended)) ps).map String.ofList)
  | _ => none

end SchemaDecl.Json
