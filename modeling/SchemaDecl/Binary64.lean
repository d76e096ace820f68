/-!
# Double-precision numbers

A double is a sign, a mantissa and a power of two, an infinity, or not a number.  Every number enters through
`Binary64.ofRatio`, which rounds a ratio of naturals to the nearest double, a tie going to the even mantissa; products
and quotients of doubles are the exact results rounded the same way.  `Binary64.bits` is the 64-bit interchange word.
-/

namespace SchemaDecl

/-- A double: `finite s m e` stands for `m * 2 ^ e`, negated when `s` holds. -/
inductive Binary64 where
  | nan
  | infinity (negative : Bool)
  | finite (negative : Bool) (mantissa : Nat) (exponent : Int)
  deriving DecidableEq

namespace Binary64

/-- The least exponent of a double; only there may the mantissa be below `2 ^ 52`. -/
def minExponent : Int := -1074

/-- The greatest exponent of a finite double. -/
def maxExponent : Int := 971

/-- The quotient `n / d` rounded to the nearest natural, a tie going to the even one. -/
def divNearest (n d : Nat) : Nat :=
  let q := n / d
  let r := n % d
  if 2 * r < d then q else if d < 2 * r then q + 1 else q + q % 2

/-- The ratio `n / d` times `2 ^ e`, again as a ratio. -/
def scaleRatio (n d : Nat) (e : Int) : Nat × Nat :=
  (n <<< e.toNat, d <<< (-e).toNat)

/-- The greatest `e` with `2 ^ e ≤ n / d`, for positive `n` and `d`. -/
def floorLog2 (n d : Nat) : Int :=
  let e : Int := (Nat.log2 n : Int) - (Nat.log2 d : Int)
  let (n', d') := scaleRatio n d (-e)
  if d' ≤ n' then e else e - 1

/-- A mantissa of at most `2 ^ 53` and its exponent as a double; too large an exponent gives an infinity. -/
def pack (negative : Bool) (m : Nat) (e : Int) : Binary64 :=
  let (m, e) := if m = 1 <<< 53 then (1 <<< 52, e + 1) else (m, e)
  if maxExponent < e then .infinity negative else .finite negative m e

/-- The double nearest to `n / d`. -/
def ofRatio (negative : Bool) (n d : Nat) : Binary64 :=
  if n = 0 then .finite negative 0 minExponent
  else
    let e := max (floorLog2 n d - 52) minExponent
    let (n', d') := scaleRatio n d (-e)
    pack negative (divNearest n' d') e

/-- The double nearest to an integer; zero is positive. -/
def ofInt (n : Int) : Binary64 :=
  ofRatio (n < 0) n.natAbs 1

/-- Whether a number is one of the two zeros. -/
def isZero : Binary64 → Bool
  | .finite _ 0 _ => true
  | _ => false

/-- The same number with the other sign. -/
def negate : Binary64 → Binary64
  | .nan => .nan
  | .infinity s => .infinity (!s)
  | .finite s m e => .finite (!s) m e

/-- The product of two finite doubles; other factors give no number. -/
def mul : Binary64 → Binary64 → Binary64
  | .finite s m e, .finite t k f =>
    let (n, d) := scaleRatio (m * k) 1 (e + f)
    ofRatio (s != t) n d
  | _, _ => .nan

/-- The quotient of two finite doubles with a divisor other than zero; other operands give no number. -/
def div : Binary64 → Binary64 → Binary64
  | .finite s m e, .finite t k f =>
    if k = 0 then .nan
    else
      let (n, d) := scaleRatio m k (e - f)
      ofRatio (s != t) n d
  | _, _ => .nan

/-- The 64-bit word of a double: sign, biased exponent, fraction. -/
def bits : Binary64 → Nat
  | .nan => 0x7ff8000000000000
  | .infinity s => signBit s + 0x7ff0000000000000
  | .finite s m e =>
    signBit s + (if m < 1 <<< 52 then m else ((e - minExponent + 1).toNat <<< 52) + (m - 1 <<< 52))
where
  signBit (negative : Bool) : Nat := if negative then 1 <<< 63 else 0

end Binary64

end SchemaDecl
