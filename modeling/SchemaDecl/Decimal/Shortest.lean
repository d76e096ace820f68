import SchemaDecl.Decimal

/-!
# Shortest decimal text of a double

The fewest digits that read back as the same double, and among those the nearest to it; of two equally near rows the
one with an even last digit.  For each number of digits the two neighbours of the value on that decimal grid are tried
in exact arithmetic: if any point of the grid reads back, one of these two does.
-/

namespace SchemaDecl

namespace Binary64

/-- Numerators over `2 ^ (e - 2)` of the value `m * 2 ^ e` and of the ends of the interval that rounds to it.  The gap
below a power of two is half as wide. -/
def interval (m : Nat) (e : Int) : Nat × Nat × Nat :=
  (4 * m, if m = 1 <<< 52 ∧ minExponent < e then 4 * m - 1 else 4 * m - 2, 4 * m + 2)

/-- The decimal point of `m * 2 ^ e`: the `k` with `10 ^ (k - 1) ≤ m * 2 ^ e < 10 ^ k`, for a positive double. -/
def decimalPoint (m : Nat) (e : Int) : Int :=
  let (n, d) := scaleRatio m 1 e
  ((Nat.toDigits 10 (n * Nat.pow 10 400 / d)).length : Int) - 400

/-- The neighbours of `m * 2 ^ e` among the multiples of `10 ^ p` that read back as it, the nearer one. -/
def onGrid? (m : Nat) (e : Int) (p : Int) : Option Nat :=
  let (value, low, high) := interval m e
  let unit := Nat.pow 10 p.toNat <<< (2 - e).toNat
  let scale := Nat.pow 10 (-p).toNat <<< (e - 2).toNat
  let inside (c : Nat) : Bool :=
    if m % 2 = 0 then low * scale ≤ c * unit && c * unit ≤ high * scale
    else low * scale < c * unit && c * unit < high * scale
  let c := value * scale / unit
  let below := value * scale - c * unit
  let above := (c + 1) * unit - value * scale
  match inside c, inside (c + 1) with
  | true, true => some (if below < above then c else if above < below then c + 1 else c + c % 2)
  | true, false => some c
  | false, true => some (c + 1)
  | false, false => none

/-- The shortest digits of `m * 2 ^ e`, with the position of the decimal point. -/
def shortest (m : Nat) (e : Int) : List Char × Int :=
  let k := decimalPoint m e
  match (List.range 17).findSome? fun (i : Nat) => onGrid? m e (k - (i + 1)) |>.map fun c => (c, k - (i + 1)) with
  | some (c, p) =>
    let ds := Nat.toDigits 10 c
    (trimZeros ds, p + ds.length)
  | none => (Nat.toDigits 10 m, k)
where
  trimZeros (ds : List Char) : List Char := (ds.reverse.dropWhile (· == '0')).reverse

/-- A double as text: positional with a decimal point while the point is at most 16 places to the right of the first
digit's left edge and fewer than five to the left, otherwise with a power of ten, which always has its sign. -/
def text : Binary64 → String
  | .nan => "NaN"
  | .infinity negative => sign negative ++ "inf"
  | .finite negative m e => sign negative ++ String.ofList (magnitude m e)
where
  sign (negative : Bool) : String := if negative then "-" else ""
  magnitude (m : Nat) (e : Int) : List Char :=
    if m = 0 then "0.0".toList
    else
      let (ds, k) := shortest m e
      if (ds.length : Int) ≤ k ∧ k ≤ 16 then ds ++ List.replicate (k.toNat - ds.length) '0' ++ ['.', '0']
      else if 0 < k ∧ k ≤ 16 then ds.take k.toNat ++ '.' :: ds.drop k.toNat
      else if -5 < k ∧ k ≤ 0 then '0' :: '.' :: List.replicate (-k).toNat '0' ++ ds
      else
        let power := 'e' :: (if 0 < k then ['+'] else []) ++ (toString (k - 1)).toList
        match ds with
        | [d] => d :: power
        | d :: ds => d :: '.' :: ds ++ power
        | [] => power

end Binary64

end SchemaDecl
