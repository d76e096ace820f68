import SchemaDecl.Json.Token

/-!
# Writing tokens

The compact form of JSON: no space between tokens, short escapes where there is one, and everything but control
characters, quotes and backslashes as it is.
-/

namespace SchemaDecl.Json

/-- The four hexadecimal digits of a code unit. -/
def hexDigits (code : Nat) : List Char :=
  [code / 0x1000, code / 0x100, code / 0x10, code].map fun n => Nat.digitChar (n % 0x10)

/-- A character as a part of a string: a control character without a short escape needs its code unit. -/
def Piece.ofChar (c : Char) : Piece :=
  if c.toNat < 0x20 ∧ (escapeLetter? c).isNone then .unit c.toNat else .char c

def Piece.render : Piece → List Char
  | .char c =>
    match escapeLetter? c with
    | some letter => ['\\', letter]
    | none => [c]
  | .unit code => '\\' :: 'u' :: hexDigits code

def NumberLiteral.render (x : NumberLiteral) : List Char :=
  (if x.negative then ['-'] else []) ++ x.whole ++ (if x.fraction.isEmpty then [] else '.' :: x.fraction) ++
    match x.power with
    | none => []
    | some (negative, ds) => 'e' :: (if negative then ['-'] else []) ++ ds

/-- A token as text; broken tokens have none. -/
def Token.render : Token → List Char
  | .openObject => ['{']
  | .closeObject => ['}']
  | .openArray => ['[']
  | .closeArray => [']']
  | .comma => [',']
  | .colon => [':']
  | .null => "null".toList
  | .boolean b => (if b then "true" else "false").toList
  | .number x => x.render
  | .string ps => '"' :: ps.flatMap Piece.render ++ ['"']
  | .brokenWord _ | .brokenNumber _ | .brokenString _ _ | .stray => []

/-- Tokens as text, without space between them. -/
def Token.print (tokens : List Token) : String := String.ofList (tokens.flatMap Token.render)

/-- The token of a text. -/
def Token.ofText (s : String) : Token := .string (s.toList.map .ofChar)

def Token.array (elements : List (List Token)) : List Token :=
  .openArray :: List.intercalate [.comma] elements ++ [.closeArray]

def Token.object (members : List (String × List Token)) : List Token :=
  .openObject :: List.intercalate [.comma] (members.map fun (k, v) => .ofText k :: .colon :: v) ++ [.closeObject]

end SchemaDecl.Json
