import SchemaDecl.Proofs.MemberTypes

/-!
# Converting twice

What a conversion gives can be written as a JSON value and converted again, unless a number in it is an infinity or no
number.  The second conversion finds a number where the first may have found a text, or null where it found the empty
text, but it leaves what it finds as it is (`Scalar.apply_of_isOf`), in arrays element by element.
-/

namespace SchemaDecl

open Json

/-! ### Results that JSON can write -/

/-- A value as JSON has them: every number in it is an integer or a finite double. -/
inductive Json.Value.IsJson : Value → Prop
  | null : IsJson .null
  | boolean (b : Bool) : IsJson (.boolean b)
  | integer (n : Int) : IsJson (.number (.integer n))
  | double (negative : Bool) (mantissa : Nat) (exponent : Int) :
    IsJson (.number (.double (.finite negative mantissa exponent)))
  | string (s : String) : IsJson (.string s)
  | array {elements : List Value} (each : ∀ v ∈ elements, IsJson v) : IsJson (.array elements)
  | object {members : List (String × Value)} (each : ∀ m ∈ members, IsJson m.2) : IsJson (.object members)

namespace Coerced

/-- The value that stands for a result. -/
def toValue : Coerced → Value
  | .null => .null
  | .number x => .number (.double x)
  | .boolean b => .boolean b
  | .array elements => .array (elements.map toValue)

/-- A result without an infinity and without something that is no number. -/
inductive AllFinite : Coerced → Prop
  | null : AllFinite .null
  | number (negative : Bool) (mantissa : Nat) (exponent : Int) :
    AllFinite (.number (.finite negative mantissa exponent))
  | boolean (b : Bool) : AllFinite (.boolean b)
  | array {elements : List Coerced} (each : ∀ r ∈ elements, AllFinite r) : AllFinite (.array elements)

private theorem toValue_array (elements : List Coerced) : (array elements).toValue = .array (elements.map toValue) := by
  rw [toValue]

/-- A finite result is written as a JSON value. -/
theorem AllFinite.isJson_toValue {r : Coerced} (h : r.AllFinite) : r.toValue.IsJson := by
  induction h with
  | null =>
    rw [toValue]
    exact .null
  | number negative mantissa exponent =>
    rw [toValue]
    exact .double negative mantissa exponent
  | boolean b =>
    rw [toValue]
    exact .boolean b
  | array _ ih =>
    rw [toValue_array]
    exact .array (List.forall_mem_map.2 ih)

end Coerced

/-! ### Converting a result -/

namespace Scalar

/-- A value of the type is left as it is. -/
theorem apply_of_isOf {scalar : Scalar} {r : Coerced} (h : r.IsOf scalar.type) : scalar.apply (some r.toValue) = r := by
  cases scalar with
  | number =>
    obtain ⟨x, rfl⟩ := h
    rw [Coerced.toValue]
    rfl
  | boolean =>
    obtain ⟨b, rfl⟩ := h
    rw [Coerced.toValue]
    rfl

private theorem apply_toValue_apply (scalar : Scalar) (input : Option Value) :
    scalar.apply (some (scalar.apply input).toValue) = scalar.apply input := by
  rcases scalar.null_or_isOf_apply input with hnull | hvalue
  · rw [hnull, Coerced.toValue]
    exact apply_of_notGiven (.inr (.inl rfl)) scalar
  · exact apply_of_isOf hvalue

end Scalar

namespace Coercion

private theorem apply_toValue_array (scalar : Scalar) (elements : List Value) :
    (⟨scalar, true⟩ : Coercion).apply (some ((⟨scalar, true⟩ : Coercion).apply (some (.array elements))).toValue) =
      (⟨scalar, true⟩ : Coercion).apply (some (.array elements)) := by
  rw [apply_array, Coerced.toValue_array, apply_array, List.map_map, List.map_map]
  exact congrArg Coerced.array (List.map_congr_left fun v _ => scalar.apply_toValue_apply (some v))

/-- Converting is idempotent.  If a conversion, of single values or of arrays, gives a result without an infinity and
without something that is no number, then the value that stands for the result is one that JSON has, and the same
conversion turns it into the result again. -/
theorem apply_idempotent (c : Coercion) (input : Option Value) (h : (c.apply input).AllFinite) :
    (c.apply input).toValue.IsJson ∧ c.apply (some (c.apply input).toValue) = c.apply input := by
  refine ⟨h.isJson_toValue, ?_⟩
  obtain ⟨scalar, each⟩ := c
  cases each with
  | false => exact scalar.apply_toValue_apply input
  | true =>
    by_cases harray : ∃ elements, input = some (.array elements)
    · obtain ⟨elements, rfl⟩ := harray
      exact apply_toValue_array scalar elements
    · -- what is no array becomes null, which is none either
      rw [apply_of_not_array scalar (not_exists.1 harray), Coerced.toValue]
      exact apply_of_not_array scalar fun _ => by simp

/-- Texts, an integer between two doubles, a negative zero and what counts as not given, all in one array. -/
theorem apply_idempotent_mixed :
    let c : Coercion := ⟨.number, true⟩
    let input : Value :=
      .array [.string " -12.5px", .number (.integer 9007199254740993), .string "-0", .string "", .null]
    let r : Coerced :=
      .array [.number (.finite true 7036874417766400 (-49)), .number (.finite false 4503599627370496 1),
        .number (.finite true 0 (-1074)), .null, .null]
    c.apply (some input) = r ∧ r.toValue.IsJson ∧ c.apply (some r.toValue) = r := by
  intro c input r
  have htext : numberOfValue (.string " -12.5px") = .finite true 7036874417766400 (-49) := by decide +kernel
  have hinteger : numberOfValue (.number (.integer 9007199254740993)) = .finite false 4503599627370496 1 := by
    decide +kernel
  have hzero : numberOfValue (.string "-0") = .finite true 0 (-1074) := by decide +kernel
  have hresult : c.apply (some input) = r := by
    simp [c, input, r, apply_array, apply_single, Scalar.apply, isBlankValue, htext, hinteger, hzero]
  have hfinite : (c.apply (some input)).AllFinite := by
    rw [hresult]
    refine .array fun x hx => ?_
    simp only [List.mem_cons, List.not_mem_nil, or_false] at hx
    rcases hx with rfl | rfl | rfl | rfl | rfl <;> constructor
  have hagain := apply_idempotent c (some input) hfinite
  rw [hresult] at hagain
  exact ⟨hresult, hagain⟩

end Coercion

end SchemaDecl
