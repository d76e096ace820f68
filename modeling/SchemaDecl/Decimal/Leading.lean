import SchemaDecl.Decimal
import SchemaDecl.Text.Blank

/-!
# The number a text starts with

After white space, a text may start with a sign and then the word `Infinity` or a decimal literal: digits, a point with
digits, and a power of ten marked by `e` or `E`.  The longest such literal is read and what follows it is left alone; a
mark without digits belongs to what follows.  `Binary64.ofText` is its value, and not a number if there is none.
-/

namespace SchemaDecl

/-- Takes a sign off the front; the flag tells a minus. -/
def takeSign : List Char → Bool × List Char
  | '-' :: cs => (true, cs)
  | '+' :: cs => (false, cs)
  | cs => (false, cs)

/-- Takes a power of ten off the front, a mark, a sign and digits; without all of it the power is zero and nothing is
taken. -/
def takePower (cs : List Char) : Int × List Char :=
  match cs with
  | [] => (0, [])
  | c :: r =>
    if c = 'e' ∨ c = 'E' then
      let (negative, r) := takeSign r
      let ds := r.takeWhile isDigit
      if ds.isEmpty then (0, cs)
      else (if negative then -(digitsValue ds : Int) else digitsValue ds, r.dropWhile isDigit)
    else (0, cs)

/-- Takes a point and the digits after it off the front. -/
def takeFraction : List Char → List Char × List Char
  | '.' :: r => (r.takeWhile isDigit, r.dropWhile isDigit)
  | cs => ([], cs)

/-- Takes an unsigned decimal literal off the front; it has a digit before or after the point. -/
def Decimal.leading? (negative : Bool) (cs : List Char) : Option (Decimal × List Char) :=
  let whole := cs.takeWhile isDigit
  let (fraction, rest) := takeFraction (cs.dropWhile isDigit)
  let digits := whole ++ fraction
  if digits.isEmpty then none
  else
    let (power, rest) := takePower rest
    some (⟨negative, digits, power - fraction.length⟩, rest)

/-- The number a text starts with. -/
def Binary64.ofText (text : String) : Binary64 :=
  let (negative, cs) := takeSign (text.toList.dropWhile isBlank)
  if "Infinity".toList.isPrefixOf cs then .infinity negative
  else
    match Decimal.leading? negative cs with
    | some (x, _) => x.toBinary64
    | none => .nan

end SchemaDecl
