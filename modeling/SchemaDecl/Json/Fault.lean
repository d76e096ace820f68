import SchemaDecl.Json.Number
import SchemaDecl.Decimal.Shortest
import SchemaDecl.Text.Quoted

/-!
# Faults of a JSON text

A text is cut short, malformed, or well formed so far with a value that does not fit the data it is decoded into.  Only
the last kind has a message; `Cause` says what did not fit and `Cause.message` words it.
-/

namespace SchemaDecl.Json

/-- What stands where another kind of value is expected. -/
inductive Found where
  | null
  | boolean (b : Bool)
  | number (n : Number)
  | string (s : String)
  | sequence
  | map
  deriving DecidableEq

/-- Why a well-formed value does not fit. -/
inductive Cause where
  | missing (member : String)
  | repeated (member : String)
  | kind (found : Found) (expected : String)
  | choice (name : String) (choices : List String)
  | length (count : Nat) (expected : String)
  | singleKey
  deriving DecidableEq

/-- The first thing wrong with a text. -/
inductive Fault where
  | truncated
  | malformed
  | mismatch (cause : Cause)
  deriving DecidableEq

/-- A fault at the end of the text, or before it. -/
def Fault.atEnd (ended : Bool) : Fault := if ended then .truncated else .malformed

def backquoted (s : String) : String := "`" ++ s ++ "`"

/-- The name of a value in a message. -/
def Found.message : Found → String
  | .null => "null"
  | .boolean b => "boolean " ++ backquoted (if b then "true" else "false")
  | .number (.integer n) => "integer " ++ backquoted (toString n)
  | .number (.double x) => "floating point " ++ backquoted x.text
  | .string s => "string " ++ quoted s
  | .sequence => "sequence"
  | .map => "map"

/-- The names that a choice allows: two are joined by `or`, more are listed. -/
def choicesMessage : List String → String
  | [a] => backquoted a
  | [a, b] => backquoted a ++ " or " ++ backquoted b
  | names => "one of " ++ ", ".intercalate (names.map backquoted)

def Cause.message : Cause → String
  | .missing member => "missing field " ++ backquoted member
  | .repeated member => "duplicate field " ++ backquoted member
  | .kind found expected => "invalid type: " ++ found.message ++ ", expected " ++ expected
  | .choice name choices => "unknown variant " ++ backquoted name ++ ", expected " ++ choicesMessage choices
  | .length count expected => "invalid length " ++ toString count ++ ", expected " ++ expected
  | .singleKey => "invalid value: map, expected map with a single key"

end SchemaDecl.Json
