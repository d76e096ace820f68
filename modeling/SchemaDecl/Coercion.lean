import SchemaDecl.Decimal.Leading
import SchemaDecl.Json.Value
import SchemaDecl.Schema.Basic

/-!
# Coercions

A coercion turns a decoded input value into a number or a truth value, or each element of an array into one.  A blank
value, that is nothing, null or the empty text, has no result; a text becomes the number it starts with.  The same rules
are written out as source text of the shared helpers.
-/

namespace SchemaDecl

open Json

/-- What a value is turned into. -/
inductive Scalar where
  | number
  | boolean
  deriving DecidableEq

/-- A coercion of one value, or of each element of an array. -/
structure Coercion where
  scalar : Scalar
  each : Bool
  deriving DecidableEq

inductive Coerced where
  | null
  | number (x : Binary64)
  | boolean (b : Bool)
  | array (elements : List Coerced)

def Coerced.isNull : Coerced → Bool
  | .null => true
  | _ => false

/-- Whether a value counts as not given. -/
def isBlankValue : Option Value → Bool
  | none | some .null => true
  | some (.string s) => s = ""
  | some _ => false

/-- The number of a value: its own, or the one that its text starts with. -/
def numberOfValue : Value → Binary64
  | .number n => n.toBinary64
  | .string s => .ofText s
  | _ => .nan

/-- The truth value of a value: its own, or whether its text is `true`. -/
def booleanOfValue : Value → Bool
  | .boolean b => b
  | .string s => s = "true"
  | _ => false

/-- One value turned into a number or a truth value. -/
def Scalar.apply (scalar : Scalar) (input : Option Value) : Coerced :=
  match input with
  | none => .null
  | some v =>
    if isBlankValue input then .null
    else
      match scalar with
      | .number => .number (numberOfValue v)
      | .boolean => .boolean (booleanOfValue v)

namespace Coercion

/-- The coercion that a native type needs; texts need none. -/
def forNative? (type : NativeType) (array : Bool) : Option Coercion :=
  match type with
  | .number => some ⟨.number, array⟩
  | .boolean => some ⟨.boolean, array⟩
  | .string => none

/-- All coercions, in the order of the helper file. -/
def all : List Coercion :=
  [⟨.number, false⟩, ⟨.number, true⟩, ⟨.boolean, false⟩, ⟨.boolean, true⟩]

def apply (c : Coercion) (input : Option Value) : Coerced :=
  if c.each then
    match input with
    | some (.array elements) => .array (elements.map fun v => c.scalar.apply (some v))
    | _ => .null
  else c.scalar.apply input

def helperName (c : Coercion) : String :=
  (match c.scalar with
    | .number => "transformNumber"
    | .boolean => "transformBoolean") ++ if c.each then "Array" else ""

/-- The source text of the helper function. -/
def source (c : Coercion) : String :=
  let (type, convert) :=
    match c.scalar with
    | .number => ("number", "parseFloat")
    | .boolean => ("boolean", "toBoolean")
  if c.each then
    "export function " ++ c.helperName ++ "(param?: any): (" ++ type ++ " | null)[] | null \x7b\n" ++
    "  if (!Array.isArray(param?.value)) \x7b\n    return null;\n  \x7d\n" ++
    "  return param.value.map((value: any) => (isBlank(value) ? null : " ++ convert ++ "(value)));\n\x7d\n"
  else
    "export function " ++ c.helperName ++ "(param?: any): " ++ type ++ " | null \x7b\n" ++
    "  return isBlank(param?.value) ? null : " ++ convert ++ "(param.value);\n\x7d\n"

def helperSource : String :=
  "export function isBlank(value: any): boolean \x7b\n" ++
  "  return value === null || value === undefined || value === '';\n\x7d\n\n" ++
  "function toBoolean(value: any): boolean \x7b\n" ++
  "  return value === 'true' || (typeof value === 'boolean' && value);\n\x7d\n" ++
  String.join (all.map fun c => "\n" ++ c.source)

end Coercion

end SchemaDecl
