/-!
# Beginnings and ends of texts

A beginning taken off a list, and single characters trimmed from the ends of a text.  The key fact: `after?`
succeeds exactly on the lists that begin with what it looks for (`after?_eq_some_iff`).
-/

namespace SchemaDecl

/-- What follows `start` in a list that begins with it. -/
def after? {α : Type} [DecidableEq α] : (start : List α) → List α → Option (List α)
  | [], l => some l
  | _ :: _, [] => none
  | a :: start, b :: l => if a = b then after? start l else none

theorem after?_eq_some_iff {α : Type} [DecidableEq α] {start l rest : List α} :
    after? start l = some rest ↔ l = start ++ rest := by
  induction start generalizing l with
  | nil => simp [after?]
  | cons a start ih =>
    cases l with
    | nil => simp [after?]
    | cons b l =>
      unfold after?
      split
      · rename_i h
        subst h
        simp [ih]
      · rename_i h
        simp [Ne.symm h]

def startsWith (text start : String) : Bool := (after? start.toList text.toList).isSome

/-- A text without the leading characters that are `c`. -/
def trimLeft (c : Char) (text : String) : String := String.ofList (text.toList.dropWhile (· == c))

/-- A text without the leading and trailing characters that are `c`. -/
def trimBoth (c : Char) (text : String) : String :=
  String.ofList (((text.toList.dropWhile (· == c)).reverse.dropWhile (· == c)).reverse)

end SchemaDecl
