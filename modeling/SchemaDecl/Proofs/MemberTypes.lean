import SchemaDecl.Proofs.Modes

/-!
# Conversions and member types

The conversion that a directive attaches to a member is chosen from the native type and the cardinality of the field, as
the text of its type is.  So what it gives, for whatever input, is null or a value of that type: one number or truth
value for a single member, and for an array one result for each element, each of them null or a single value even if the
element is an array itself.
-/

namespace SchemaDecl

open Json

/-! ### Values of a type -/

namespace Coerced

/-- A single value of a native type; no conversion gives texts. -/
def IsOf (r : Coerced) : NativeType → Prop
  | .number => ∃ x, r = .number x
  | .boolean => ∃ b, r = .boolean b
  | .string => False

/-- A value of the type that a text names: that of a native type, or an array of it, with elements that may be null. -/
inductive OfText : String → Coerced → Prop
  | single {type : NativeType} {r : Coerced} (of : r.IsOf type) : OfText type.name r
  | array {text : String} {elements : List Coerced} (each : ∀ e ∈ elements, e ≠ .null → OfText text e) :
    OfText (text ++ "[]") (.array elements)

end Coerced

/-! ### Conversions -/

/-- Values that count as not given: nothing, null and the empty text. -/
def NotGiven (input : Option Value) : Prop := input = none ∨ input = some .null ∨ input = some (.string "")

theorem isBlankValue_iff {input : Option Value} : isBlankValue input = true ↔ NotGiven input := by
  unfold isBlankValue NotGiven
  split <;> simp_all

namespace Scalar

/-- The native type of the values that something is turned into. -/
def type : Scalar → NativeType
  | .number => .number
  | .boolean => .boolean

theorem apply_of_notGiven {input : Option Value} (h : NotGiven input) (scalar : Scalar) :
    scalar.apply input = .null := by
  cases input with
  | none => rfl
  | some v =>
    simp only [Scalar.apply]
    rw [if_pos (isBlankValue_iff.2 h)]

theorem isOf_apply {input : Option Value} (h : ¬ NotGiven input) (scalar : Scalar) :
    (scalar.apply input).IsOf scalar.type := by
  cases input with
  | none => exact absurd (.inl rfl) h
  | some v =>
    simp only [Scalar.apply]
    rw [if_neg (mt isBlankValue_iff.1 h)]
    cases scalar with
    | number => exact ⟨_, rfl⟩
    | boolean => exact ⟨_, rfl⟩

end Scalar

private theorem Coerced.IsOf.ne_null {r : Coerced} {type : NativeType} (h : r.IsOf type) : r ≠ .null := by
  cases type with
  | number => obtain ⟨x, rfl⟩ := h; simp
  | boolean => obtain ⟨b, rfl⟩ := h; simp
  | string => exact h.elim

private theorem Coerced.IsOf.ne_array {r : Coerced} {type : NativeType} (h : r.IsOf type) (elements : List Coerced) :
    r ≠ .array elements := by
  cases type with
  | number => obtain ⟨x, rfl⟩ := h; simp
  | boolean => obtain ⟨b, rfl⟩ := h; simp
  | string => exact h.elim

theorem Scalar.apply_eq_null_iff {scalar : Scalar} {input : Option Value} :
    scalar.apply input = .null ↔ NotGiven input := by
  refine ⟨fun h => ?_, fun h => apply_of_notGiven h scalar⟩
  by_contra hgiven
  exact (scalar.isOf_apply hgiven).ne_null h

theorem Scalar.null_or_isOf_apply (scalar : Scalar) (input : Option Value) :
    scalar.apply input = .null ∨ (scalar.apply input).IsOf scalar.type := by
  by_cases h : NotGiven input
  · exact .inl (apply_of_notGiven h scalar)
  · exact .inr (scalar.isOf_apply h)

namespace Coercion

/-- The conversion for a native type has its values, and its cardinality is the one asked for. -/
private theorem forNative?_eq_some_iff {type : NativeType} {array : Bool} {c : Coercion} :
    forNative? type array = some c ↔ c.scalar.type = type ∧ c.each = array := by
  obtain ⟨scalar, each⟩ := c
  cases type <;> cases scalar <;> simp [forNative?, Scalar.type, eq_comm]

theorem apply_single (scalar : Scalar) (input : Option Value) :
    (⟨scalar, false⟩ : Coercion).apply input = scalar.apply input := rfl

theorem apply_array (scalar : Scalar) (elements : List Value) :
    (⟨scalar, true⟩ : Coercion).apply (some (.array elements)) =
      .array (elements.map fun v => (⟨scalar, false⟩ : Coercion).apply (some v)) := rfl

theorem apply_of_not_array (scalar : Scalar) {input : Option Value} (h : ∀ elements, input ≠ some (.array elements)) :
    (⟨scalar, true⟩ : Coercion).apply input = .null := by
  unfold apply
  rw [if_pos rfl]
  split
  · exact absurd rfl (h _)
  · rfl

/-- What a conversion of single values does for a native type: it gives null, exactly for inputs that count as not
given, or a single value of the type. -/
structure FitsSingle (c : Coercion) (type : NativeType) : Prop where
  value : ∀ input, c.apply input = .null ∨ (c.apply input).IsOf type
  notArray : ∀ input elements, c.apply input ≠ .array elements
  null_iff : ∀ input, c.apply input = .null ↔ NotGiven input

/-- What a conversion of arrays does for a native type: it gives null exactly if the input is no array, and otherwise
what the conversion of single values gives for each element. -/
structure FitsArray (c single : Coercion) (type : NativeType) : Prop where
  null_iff : ∀ input, c.apply input = .null ↔ ∀ elements, input ≠ some (.array elements)
  value : ∀ elements, ∃ results, c.apply (some (.array elements)) = .array results ∧
    results.length = elements.length ∧
    ∀ (i : Nat) (v : Value), elements[i]? = some v → ∃ r, results[i]? = some r ∧ r = single.apply (some v) ∧
      (r = .null ∨ r.IsOf type) ∧ ∀ nested, r ≠ .array nested

private theorem fitsSingle (scalar : Scalar) : FitsSingle ⟨scalar, false⟩ scalar.type where
  value := scalar.null_or_isOf_apply
  notArray input elements := by
    rw [apply_single]
    rcases scalar.null_or_isOf_apply input with hnull | hvalue
    · simp [hnull]
    · exact hvalue.ne_array elements
  null_iff _ := Scalar.apply_eq_null_iff

private theorem fitsArray (scalar : Scalar) : FitsArray ⟨scalar, true⟩ ⟨scalar, false⟩ scalar.type where
  null_iff input := by
    refine ⟨?_, apply_of_not_array scalar⟩
    rintro h elements rfl
    rw [apply_array] at h
    cases h
  value elements := by
    refine ⟨_, apply_array scalar elements, by simp, ?_⟩
    intro i v hv
    have hsingle := fitsSingle scalar
    exact ⟨_, by rw [List.getElem?_map, hv]; rfl, rfl, hsingle.value (some v), hsingle.notArray (some v)⟩

end Coercion

/-! ### Fields -/

/-- The flag of a directive that may be asked of every element. -/
def Directive.each? : Directive → Option Bool
  | .isNumber _ each => some each
  | .isBoolean _ each => some each
  | .isString _ each => some each
  | .isEnum _ _ each => some each
  | .validateNested each => some each
  | _ => none

namespace Field

private theorem typeText_eq_iff (f : Field) :
    (f.typeText = f.kind.name ++ "[]" ↔ f.array = true) ∧ (f.typeText = f.kind.name ↔ f.array = false) := by
  unfold typeText
  cases f.array <;> simp [String.ext_iff]

private theorem each?_of_directs {f : Field} {d : Directive} (h : f.Directs d) {each : Bool}
    (heach : d.each? = some each) :
    each = f.array := by
  cases h <;> simp_all [Directive.each?]

/-- Whatever it is applied to, an attached conversion gives null or a value of the type of the member. -/
private theorem ofText_apply {f : Field} {type : NativeType} {scalar : Scalar} (htype : f.type = .native type)
    (hscalar : scalar.type = type) (input : Option Value) :
    (⟨scalar, f.array⟩ : Coercion).apply input = .null ∨
      ((⟨scalar, f.array⟩ : Coercion).apply input).OfText f.typeText := by
  have hname : f.kind.name = scalar.type.name := by rw [kind, htype, hscalar]; rfl
  have hsingle := Coercion.fitsSingle scalar
  cases harray : f.array with
  | false =>
    rw [(f.typeText_eq_iff.2).2 harray, hname]
    exact (hsingle.value input).imp_right .single
  | true =>
    rw [(f.typeText_eq_iff.1).2 harray, hname]
    by_cases hinput : ∃ elements, input = some (.array elements)
    · obtain ⟨elements, rfl⟩ := hinput
      right
      rw [Coercion.apply_array]
      refine .array fun e he hne => ?_
      obtain ⟨v, -, rfl⟩ := List.mem_map.1 he
      exact .single ((hsingle.value (some v)).resolve_left hne)
    · exact .inl (Coercion.apply_of_not_array scalar (not_exists.1 hinput))

/-- A conversion that a class attaches to a member fits its type.  The field is native, and the conversion gives null or
a value of the type text: for a single member as `Coercion.FitsSingle` says, for an array as `Coercion.FitsArray` does,
with the conversion of single values for the same native type.  Every directive that can be asked of each element is
asked so exactly for arrays, and for these alone the type text is more than the name of the type. -/
theorem transform_fits (f : Field) :
    (∀ c, Directive.transform c ∈ Mode.classes.directives f → ∃ type single,
      f.type = .native type ∧ (type = .number ∨ type = .boolean) ∧ Coercion.forNative? type false = some single ∧
      (∀ input, c.apply input = .null ∨ (c.apply input).OfText f.typeText) ∧
      (f.array = false → c.FitsSingle type) ∧ (f.array = true → c.FitsArray single type)) ∧
    (∀ d ∈ Mode.classes.directives f, ∀ each, d.each? = some each → each = f.array) ∧
    (f.typeText = f.kind.name ++ "[]" ↔ f.array = true) ∧ (f.typeText = f.kind.name ↔ f.array = false) := by
  refine ⟨fun c hc => ?_, fun d hd each heach => each?_of_directs (directs_of_mem hd) heach, f.typeText_eq_iff⟩
  cases directs_of_mem hc with
  | @transform type _ hkind hneeded =>
    obtain ⟨hscalar, heach⟩ := Coercion.forNative?_eq_some_iff.1 hneeded
    obtain ⟨scalar, each⟩ := c
    subst heach
    have htype : f.type = .native type := by
      unfold kind FieldType.kind at hkind
      split at hkind <;> simp_all
    refine ⟨type, ⟨scalar, false⟩, htype, ?_, Coercion.forNative?_eq_some_iff.2 ⟨hscalar, rfl⟩, ?_, ?_, ?_⟩
    · rw [← hscalar]
      cases scalar with
      | number => exact .inl rfl
      | boolean => exact .inr rfl
    · exact ofText_apply htype hscalar
    · intro hsingle
      rw [hsingle, ← hscalar]
      exact Coercion.fitsSingle scalar
    · intro harray
      rw [harray, ← hscalar]
      exact Coercion.fitsArray scalar

/-- An array of numbers, given a row of texts, a nested row, null and a truth value. -/
theorem transform_fits_nested :
    let f : Field := { key := "n", array := true, type := .native .number }
    let c : Coercion := ⟨.number, true⟩
    let input : List Value := [.string "12px", .array [.string "1"], .null, .boolean true]
    Directive.transform c ∈ Mode.classes.directives f ∧ f.typeText = "number[]" ∧
      ∃ results, c.apply (some (.array input)) = .array results ∧ results.length = 4 ∧
        results[0]? = some (.number (.finite false 6755399441055744 (-49))) ∧
        results[1]? = some (.number .nan) ∧ results[2]? = some .null := by
  intro f c input
  have hattached : Directive.transform c ∈ Mode.classes.directives f := by decide
  obtain ⟨type, single, htype, -, hsingle, -, -, harray⟩ := (transform_fits f).1 c hattached
  obtain ⟨results, happly, hlength, hresults⟩ := (harray rfl).value input
  cases htype
  cases hsingle
  refine ⟨hattached, by decide, results, happly, hlength, ?_, ?_, ?_⟩
  · obtain ⟨r, hr, rfl, -⟩ := hresults 0 (.string "12px") rfl
    rw [hr]
    have hnumber : Binary64.ofText "12px" = .finite false 6755399441055744 (-49) := by decide +kernel
    rw [← hnumber]
    rfl
  · obtain ⟨r, hr, rfl, -⟩ := hresults 1 (.array [.string "1"]) rfl
    rw [hr]
    rfl
  · obtain ⟨r, hr, rfl, -⟩ := hresults 2 .null rfl
    rw [hr]
    rfl

end Field

end SchemaDecl
