import SchemaDecl.Decimal

/-!
# JSON numbers

A literal without point and power is an integer if a 64-bit word holds it, signed for a negative one; every other
literal, `-0` included, is a double.  The double is found in two roundings: as many leading digits as fit in 64 bits
become a double, which is then multiplied or divided by the double nearest to a power of ten.  A literal beyond every
double has no value.
-/

namespace SchemaDecl.Json

/-- A number as it is written.  Without a point there are no fraction digits; a power is a sign flag and digits. -/
structure NumberLiteral where
  negative : Bool
  whole : List Char
  fraction : List Char
  power : Option (Bool × List Char)
  deriving DecidableEq

/-- The value of a number. -/
inductive Number where
  | integer (n : Int)
  | double (x : Binary64)
  deriving DecidableEq

def Number.toBinary64 : Number → Binary64
  | .integer n => .ofInt n
  | .double x => x

namespace NumberLiteral

/-- Appends digits to a significand while 64 bits hold it; the digits that no longer fit are left over. -/
def absorb : Nat → List Char → Nat × List Char
  | n, [] => (n, [])
  | n, d :: ds =>
    let n' := 10 * n + digitValue d
    if n' < 1 <<< 64 then absorb n' ds else (n, d :: ds)

/-- The double nearest to a power of ten. -/
def tenPower (n : Nat) : Binary64 := .ofRatio false (Nat.pow 10 n) 1

/-- The greatest power of ten below the greatest double. -/
def maxTenPower : Nat := 308

/-- Divides by a power of ten, in steps that a double can hold. -/
def divideByTenPower (x : Binary64) (n : Nat) : Binary64 :=
  if n ≤ maxTenPower then x.div (tenPower n)
  else if x.isZero then x
  else divideByTenPower (x.div (tenPower maxTenPower)) (n - maxTenPower)
termination_by n
decreasing_by unfold maxTenPower at *; omega

/-- A significand times a power of ten, unless it is beyond every double. -/
def scale? (n : Nat) (e : Int) : Option Binary64 :=
  let x := Binary64.ofRatio false n 1
  if e < 0 then some (divideByTenPower x e.natAbs)
  else if n = 0 then some x
  else if maxTenPower < e.toNat then none
  else
    match x.mul (tenPower e.toNat) with
    | .infinity _ => none
    | y => some y

/-- The bounds of a power of ten; a power moved beyond them stays at the bound. -/
def clampPower (e : Int) : Int := max (-2147483648) (min 2147483647 e)

/-- The value of a literal, unless it is beyond every double. -/
def value? (x : NumberLiteral) : Option Number :=
  let (n, left) := absorb 0 x.whole
  if x.fraction.isEmpty ∧ x.power.isNone ∧ left.isEmpty ∧ ¬ (x.negative ∧ (n = 0 ∨ 1 <<< 63 < n)) then
    some (.integer (if x.negative then -n else n))
  else
    let (n, dropped) := absorb n x.fraction
    let e : Int := (left.length : Int) - (x.fraction.length - dropped.length : Nat)
    let magnitude? :=
      match x.power with
      | none => scale? n e
      | some (negative, ds) =>
        let p : Int := digitsValue ds
        if 2147483647 < p then (if n = 0 ∨ negative then some (.ofRatio false 0 1) else none)
        else scale? n (clampPower (if negative then e - p else e + p))
    magnitude?.map fun y => .double (if x.negative then y.negate else y)

end NumberLiteral

end SchemaDecl.Json
