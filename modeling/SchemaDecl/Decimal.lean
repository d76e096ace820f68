import SchemaDecl.Binary64

/-!
# Decimal numbers

A decimal is a row of digits with a power of ten.  `Decimal.toBinary64` is the double nearest to it.  A power of ten
that puts the number beyond every double, or below half of the least one, is settled by counting digits, so the exact
arithmetic never meets a large power.
-/

namespace SchemaDecl

def isDigit (c : Char) : Bool := '0' ≤ c && c ≤ '9'

def digitValue (c : Char) : Nat := c.toNat - '0'.toNat

/-- The number that a row of digits spells. -/
def digitsValue (ds : List Char) : Nat :=
  ds.foldl (fun n d => 10 * n + digitValue d) 0

/-- The number spelt by `digits`, times `10 ^ exponent`. -/
structure Decimal where
  negative : Bool
  digits : List Char
  exponent : Int

namespace Decimal

/-- The exact magnitude as a ratio of naturals. -/
def ratio (x : Decimal) : Nat × Nat :=
  (digitsValue x.digits * Nat.pow 10 x.exponent.toNat, Nat.pow 10 (-x.exponent).toNat)

/-- The double nearest to a decimal.  With `k` digits from the first that is not zero, the magnitude lies between
`10 ^ (k - 1 + exponent)` and `10 ^ (k + exponent)`. -/
def toBinary64 (x : Decimal) : Binary64 :=
  let k : Int := (x.digits.dropWhile (· == '0')).length
  if k = 0 then .ofRatio x.negative 0 1
  else if 309 ≤ k - 1 + x.exponent then .infinity x.negative
  else if k + x.exponent ≤ -324 then .ofRatio x.negative 0 1
  else .ofRatio x.negative x.ratio.1 x.ratio.2

end Decimal

end SchemaDecl
