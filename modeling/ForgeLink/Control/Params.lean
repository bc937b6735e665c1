import ForgeLink.Profile.Bounds
import Mathlib.Data.List.Perm.Subperm

/-!
# Command parameters

The checks of `validate.rs` on a parameter of a command: its range
(`param_within_range`), its shape (`value_matches_type`) and whether its type can
hold it (`value_representable`).

The range check compares integers as integers, and everything else as doubles.
So an integer is compared with a double bound after it has been rounded, and it
passes a bound that it violates when the bound is the double it is rounded to
(`paramWithinRange_exact_iff`).

The shape check finds a value for every declared field and counts; that no field
is missing, extra or repeated follows from the count (`names_perm`).
-/

namespace ForgeLink.Control

open Drivers
open Lib
open Profile

variable {value : Value} {v : Int} {t : DataType}

/-! ## The range -/

/-- One bound of `param_within_range`: two integers are compared by `exact`, and then any two
numbers by `float`.  `value_to_i128` and `value_to_f64` are those of the profile engine, under
other names there. -/
def violates (exact : Int → Int → Bool) (float : UInt64 → UInt64 → Bool) (value : Value)
    (bound : Option Value) : Bool :=
  if (integerValueToI128 value).any fun v => (bound.bind integerValueToI128).any (exact v) then true
  else (numericValueToF64 value).any fun v => (bound.bind numericValueToF64).any (float v)

/-- A parameter is within its bounds. -/
def paramWithinRange (value : Value) (min max : Option Value) : Bool :=
  if violates (· < ·) Binary64.lt value min then false
  else if violates (· > ·) (fun v bound => Binary64.lt bound v) value max then false
  else true

/-- A double that is not told from the integer: it is what the integer is rounded to. -/
def Blurs (bound : Value) (v : Int) : Prop :=
  integerValueToI128 bound = none ∧
    ∃ x ∈ numericValueToF64 bound, Binary64.units x = Binary64.units (Binary64.ofInt v)

/-- Some bound that the integer violates is told from it. -/
def Told (min max : Option Value) (v : Int) : Prop :=
  (∃ bound ∈ min, (∃ q ∈ rational bound, v < q) ∧ ¬Blurs bound v) ∨
    ∃ bound ∈ max, (∃ q ∈ rational bound, q < v) ∧ ¬Blurs bound v

theorem numericValueToF64_of_integer (integer : integerValueToI128 value = some v) :
    numericValueToF64 value = some (Binary64.ofInt v) := by
  cases value with
  | i8 _ | i16 _ | i32 _ | i64 _ | u8 _ | u16 _ | u32 _ | u64 _ =>
    exact congrArg (Option.map Binary64.ofInt) integer
  | bool _ | f32 _ | f64 _ | string _ | bytes _ | array _ | struct _ => cases integer

section

variable {bound : Value} (integer : integerValueToI128 value = some v)

include integer

section

variable {exact : Int → Int → Bool} {float : UInt64 → UInt64 → Bool}

/-- An integer bound decides by the integers, as rounding reverses no comparison. -/
theorem violates_integer {n : Int} (bound_int : integerValueToI128 bound = some n)
    (coarse : float (Binary64.ofInt v) (Binary64.ofInt n) = true → exact v n = true) :
    violates exact float value (some bound) = exact v n := by
  unfold violates
  rw [integer, numericValueToF64_of_integer integer, Option.bind_some, Option.bind_some, bound_int,
    numericValueToF64_of_integer bound_int]
  simp only [Option.any_some]
  cases found : exact v n with
  | true => rfl
  | false =>
    rw [found] at coarse
    exact Bool.eq_false_of_not_eq_true fun less => Bool.false_ne_true (coarse less)

theorem violates_float {x : UInt64} (bound_float : integerValueToI128 bound = none)
    (number : numericValueToF64 bound = some x) :
    violates exact float value (some bound) = float (Binary64.ofInt v) x := by
  unfold violates
  rw [integer, numericValueToF64_of_integer integer, Option.bind_some, Option.bind_some,
    bound_float, number]
  rfl

end

variable {q : ℚ} (denotes : rational bound = some q)

include denotes

/-- The lower bound is found violated when it is, unless it is what the integer is rounded to. -/
theorem violates_lower :
    violates (· < ·) Binary64.lt value (some bound) = true ↔ v < q ∧ ¬Blurs bound v := by
  unfold Blurs
  rcases rational_cases denotes with ⟨n, bound_int, rfl⟩ | ⟨bound_float, x, number, finite, rfl⟩
  · rw [violates_integer integer bound_int, bound_int, Int.cast_lt]
    · simp
    · exact fun less => decide_eq_true (Binary64.lt_of_ofInt_lt less)
  · rw [violates_float integer bound_float number, bound_float, number,
      Binary64.ofInt_lt_iff finite]
    simp

theorem violates_upper :
    violates (· > ·) (fun v bound => Binary64.lt bound v) value (some bound) = true ↔
      q < v ∧ ¬Blurs bound v := by
  unfold Blurs
  rcases rational_cases denotes with ⟨n, bound_int, rfl⟩ | ⟨bound_float, x, number, finite, rfl⟩
  · rw [violates_integer integer bound_int, bound_int, Int.cast_lt]
    · simp
    · exact fun less => decide_eq_true (Binary64.lt_of_ofInt_lt less)
  · rw [violates_float integer bound_float number, bound_float, number,
      Binary64.lt_ofInt_iff finite]
    simp

end

/-- A bound that is not given is not violated. -/
theorem violates_given {exact : Int → Int → Bool} {float : UInt64 → UInt64 → Bool}
    {given : Option Value} {outside : ℚ → Prop}
    (numeric : ∀ bound ∈ given, (rational bound).isSome)
    (each : ∀ bound q, rational bound = some q → (violates exact float value (some bound) = true ↔
      outside q ∧ ¬Blurs bound v)) :
    violates exact float value given = true ↔
      ∃ bound ∈ given, (∃ q ∈ rational bound, outside q) ∧ ¬Blurs bound v := by
  cases given with
  | none => simp [violates]
  | some bound =>
    obtain ⟨q, denotes⟩ := Option.isSome_iff_exists.mp (numeric bound rfl)
    rw [each bound q denotes]
    simp [denotes]

section

variable {min max : Option Value} (integer : integerValueToI128 value = some v)
  (lower : ∀ bound ∈ min, (rational bound).isSome) (upper : ∀ bound ∈ max, (rational bound).isSome)

include integer lower upper

/-- What is rejected is what violates a bound that is told from it. -/
theorem paramWithinRange_iff : paramWithinRange value min max = true ↔ ¬Told min max v := by
  have below := violates_given lower fun _ _ denotes => violates_lower integer denotes
  have above := violates_given upper fun _ _ denotes => violates_upper integer denotes
  unfold paramWithinRange Told
  rw [← below, ← above, not_or]
  split
  next found => exact iff_of_false Bool.false_ne_true fun neither => neither.1 found
  next clear =>
    split
    next found => exact iff_of_false Bool.false_ne_true fun neither => neither.2 found
    next clear' => exact iff_of_true rfl ⟨clear, clear'⟩

end

theorem Told.not_within {min max : Option Value} (told : Told min max v) :
    ¬WithinBounds min max v := by
  rintro ⟨low, high⟩
  rcases told with ⟨bound, given, ⟨q, denotes, less⟩, _⟩ | ⟨bound, given, ⟨q, denotes, less⟩, _⟩
  · exact absurd (low bound given q denotes) (not_le.mpr less)
  · exact absurd (high bound given q denotes) (not_le.mpr less)

/-- The range check is exact, and accepts what the profile engine accepts, for the integers that
are in the range or violate a bound that is not the double they are rounded to; for no others. -/
theorem paramWithinRange_exact_iff {property : ProfileProperty}
    (integer : integerValueToI128 value = some v)
    (lower : ∀ bound ∈ property.min, (rational bound).isSome)
    (upper : ∀ bound ∈ property.max, (rational bound).isSome) :
    ((paramWithinRange value property.min property.max = true ↔
        WithinBounds property.min property.max v) ∧
      (paramWithinRange value property.min property.max = true ↔
        checkExactBounds property v = .ok ())) ↔
      WithinBounds property.min property.max v ∨ Told property.min property.max v := by
  obtain ⟨low, high⟩ := integerValueToI128_bounds integer
  rw [checkExactBounds_iff low high lower upper, and_self,
    paramWithinRange_iff integer lower upper]
  constructor
  · intro same
    by_cases told : Told property.min property.max v
    · exact .inr told
    · exact .inl (same.mp told)
  · rintro (within | told)
    · exact iff_of_true (fun told => told.not_within within) within
    · exact iff_of_false (not_not.mpr told) told.not_within

/-- The lower bound `2 ^ 53 + 4`, a double. -/
def highProperty : ProfileProperty :=
  { edgeProperty with min := some (.f64 (Binary64.ofInt (2 ^ 53 + 4))), max := none }

/-- `2 ^ 53 + 1` is rounded to `2 ^ 53`, so it is found to be below that bound. -/
theorem paramWithinRange_exact_below :
    paramWithinRange (.i64 (2 ^ 53 + 1)) highProperty.min highProperty.max = true ↔
      checkExactBounds highProperty (2 ^ 53 + 1) = .ok () := by
  refine ((paramWithinRange_exact_iff rfl ?_ ?_).mpr (.inr (.inl ⟨_, rfl, ?_, ?_⟩))).2
  · decide +kernel
  · decide +kernel
  · exact ⟨2 ^ 53 + 4, by decide +kernel, by decide +kernel⟩
  · rintro ⟨_, x, number, same⟩
    obtain rfl : Binary64.ofInt (2 ^ 53 + 4) = x := Option.some.inj number
    revert same
    decide +kernel

/-- `2 ^ 53 + 3` is below that bound, and is rounded to it: the profile engine rejects it. -/
theorem paramWithinRange_accepts_below :
    paramWithinRange (.i64 (2 ^ 53 + 3)) highProperty.min highProperty.max = true ∧
      ¬WithinBounds highProperty.min highProperty.max (2 ^ 53 + 3) ∧
      checkExactBounds highProperty (2 ^ 53 + 3) ≠ .ok () := by
  have outside : ¬WithinBounds highProperty.min highProperty.max (2 ^ 53 + 3) := by decide +kernel
  refine ⟨by decide +kernel, outside, fun accepted => outside ?_⟩
  exact (checkExactBounds_iff (by decide) (by decide) (by decide +kernel) (by decide +kernel)).mp
    accepted

/-! ## The shape -/

/-- A value is a number. -/
def isNumericValue : Value → Bool
  | .i8 _ | .i16 _ | .i32 _ | .i64 _ | .u8 _ | .u16 _ | .u32 _ | .u64 _ | .f32 _ | .f64 _ => true
  | _ => false

/-- A value is an integer. -/
def isIntegerValue : Value → Bool
  | .i8 _ | .i16 _ | .i32 _ | .i64 _ | .u8 _ | .u16 _ | .u32 _ | .u64 _ => true
  | _ => false

mutual

/-- A value has the shape of a type. -/
def valueMatchesType : Value → DataType → Bool
  | .bool _, .bool => true
  | .string _, .string => true
  | .bytes _, .bytes => true
  | .array items, .array elem => items.all fun v => valueMatchesType v elem
  | .struct values, .struct fields => fields.length == values.length && fieldsMatch values fields
  | v, t => isNumeric t && isNumericValue v
termination_by structural _ t => t

/-- There is a value for every field. -/
def fieldsMatch (values : List (String × Value)) : List (String × DataType) → Bool
  | [] => true
  | (name, t) :: fields =>
    (values.any fun v => v.1 == name && valueMatchesType v.2 t) && fieldsMatch values fields
termination_by structural fields => fields

end

/-- `integer_range`, both ends included. -/
def integerRange : DataType → Option (Int × Int)
  | .i8 => some (-2 ^ 7, 2 ^ 7 - 1)
  | .i16 => some (-2 ^ 15, 2 ^ 15 - 1)
  | .i32 => some (-2 ^ 31, 2 ^ 31 - 1)
  | .i64 => some (-2 ^ 63, 2 ^ 63 - 1)
  | .u8 => some (0, 2 ^ 8 - 1)
  | .u16 => some (0, 2 ^ 16 - 1)
  | .u32 => some (0, 2 ^ 32 - 1)
  | .u64 => some (0, 2 ^ 64 - 1)
  | _ => none

/-- A number under an integer type. -/
def integerRepresentable (v : Value) (t : DataType) : Bool :=
  match integerRange t with
  | none => true
  | some (low, high) =>
    match integerValueToI128 v with
    | some i => low ≤ i ∧ i ≤ high
    | none =>
      match numericValueToF64 v with
      | none => true
      | some f =>
        Binary64.eq (Binary64.fract f) (Binary64.ofInt 0) ∧
          Binary64.lt (Binary64.abs f) (Binary64.ofInt (2 ^ 53)) ∧
          low ≤ Binary64.toInt128 f ∧ Binary64.toInt128 f ≤ high

/-- The arms of `value_representable` for scalars. -/
def scalarRepresentable (value : Value) (t : DataType) : Bool :=
  match t, value with
  | .f32, .f64 v => Binary64.isFinite v && isFinite32 (f64ToF32 v)
  | .f32, v =>
    if isIntegerValue v then (integerValueToI128 v).any fun i => i.natAbs < 2 ^ 24 else true
  | .f64, v =>
    if isIntegerValue v then (integerValueToI128 v).any fun i => i.natAbs < 2 ^ 53 else true
  | t, v => if isIntegerType t ∧ isNumericValue v then integerRepresentable v t else true

mutual

/-- A value can be converted to a type without loss. -/
def valueRepresentable : Value → DataType → Bool
  | .array items, .array elem => items.all fun v => valueRepresentable v elem
  | .struct values, .struct fields => fieldsRepresentable values fields
  | v, t => scalarRepresentable v t
termination_by structural _ t => t

/-- Every value of the name of a field is representable. -/
def fieldsRepresentable (values : List (String × Value)) : List (String × DataType) → Bool
  | [] => true
  | (name, t) :: fields =>
    ((values.filter fun v => v.1 == name).all fun v => valueRepresentable v.2 t) &&
      fieldsRepresentable values fields
termination_by structural fields => fields

end

variable {values : List (String × Value)} {fields : List (String × DataType)}

/-- The field names of every struct in a type are pairwise distinct. -/
inductive DistinctNames : DataType → Prop where
  | bool : DistinctNames .bool
  | string : DistinctNames .string
  | bytes : DistinctNames .bytes
  | number {t : DataType} (numeric : isNumeric t = true) : DistinctNames t
  | array {elem : DataType} (inner : DistinctNames elem) : DistinctNames (.array elem)
  | struct {fields : List (String × DataType)} (names : (fields.map Prod.fst).Nodup)
      (inner : ∀ field ∈ fields, DistinctNames field.2) : DistinctNames (.struct fields)

/-- A value has the shape of a type, and its leaves under integer types are integers in range. -/
inductive HasShape : DataType → Value → Prop where
  | bool (b : Bool) : HasShape .bool (.bool b)
  | string (s : String) : HasShape .string (.string s)
  | bytes (bs : Bytes) : HasShape .bytes (.bytes bs)
  | integer {t : DataType} {v : Value} {low high n : Int}
      (range : integerRange t = some (low, high)) (number : rational v = some n)
      (inside : low ≤ n ∧ n ≤ high) : HasShape t v
  | float {t : DataType} {v : Value} (floating : t = .f32 ∨ t = .f64)
      (number : isNumericValue v = true) : HasShape t v
  | array {elem : DataType} {items : List Value} (each : ∀ v ∈ items, HasShape elem v) :
      HasShape (.array elem) (.array items)
  /-- The values have the names of the fields, each as often, and a value has the shape of the
  field of its name. -/
  | struct {fields : List (String × DataType)} {values : List (String × Value)}
      (names : (values.map Prod.fst).Perm (fields.map Prod.fst))
      (each : ∀ field ∈ fields, ∀ v ∈ values, v.1 = field.1 → HasShape field.2 v.2) :
      HasShape (.struct fields) (.struct values)

theorem fieldsMatch_iff :
    fieldsMatch values fields = true ↔
      ∀ field ∈ fields, ∃ v ∈ values, v.1 = field.1 ∧ valueMatchesType v.2 field.2 = true := by
  induction fields with
  | nil => simp [fieldsMatch]
  | cons field fields ih =>
    rw [fieldsMatch, Bool.and_eq_true, ih, List.forall_mem_cons]
    simp only [List.any_eq_true, Bool.and_eq_true, beq_iff_eq]

theorem fieldsRepresentable_iff :
    fieldsRepresentable values fields = true ↔
      ∀ field ∈ fields, ∀ v ∈ values, v.1 = field.1 → valueRepresentable v.2 field.2 = true := by
  induction fields with
  | nil => simp [fieldsRepresentable]
  | cons field fields ih =>
    rw [fieldsRepresentable, Bool.and_eq_true, ih, List.forall_mem_cons]
    simp only [List.all_eq_true, List.mem_filter, beq_iff_eq, and_imp]

/-- Distinct fields, as many values, and a value for every field: then the values have exactly
the names of the fields. -/
theorem names_perm (distinct : (fields.map Prod.fst).Nodup) (count : fields.length = values.length)
    (found : ∀ field ∈ fields, ∃ v ∈ values, v.1 = field.1) :
    (values.map Prod.fst).Perm (fields.map Prod.fst) := by
  have subset : fields.map Prod.fst ⊆ values.map Prod.fst := by
    intro name mem
    obtain ⟨field, declared, rfl⟩ := List.mem_map.mp mem
    obtain ⟨v, given, same⟩ := found field declared
    exact List.mem_map.mpr ⟨v, given, same⟩
  have subperm := List.subperm_of_subset distinct subset
  refine (subperm.perm_of_length_le ?_).symm
  rw [List.length_map, List.length_map, count]

theorem integerRange_bounds {low high : Int} (range : integerRange t = some (low, high)) :
    -2 ^ 127 < low ∧ high < 2 ^ 127 - 1 := by
  cases t with
  | i8 | i16 | i32 | i64 | u8 | u16 | u32 | u64 =>
    cases range
    decide
  | bool | f32 | f64 | string | bytes | array _ | struct _ => cases range

/-- A number that an integer type can hold is an integer in its range. -/
theorem integer_of_representable {v : Value} {low high : Int}
    (range : integerRange t = some (low, high)) (number : isNumericValue v = true)
    (representable : integerRepresentable v t = true) :
    ∃ n : Int, rational v = some (n : ℚ) ∧ low ≤ n ∧ n ≤ high := by
  unfold integerRepresentable at representable
  rw [range] at representable
  unfold rational
  cases integer : integerValueToI128 v with
  | some i =>
    rw [integer] at representable
    exact ⟨i, rfl, of_decide_eq_true representable⟩
  | none =>
    rw [integer] at representable
    cases float : numericValueToF64 v with
    | none =>
      cases v with
      | i8 _ | i16 _ | i32 _ | i64 _ | u8 _ | u16 _ | u32 _ | u64 _ => cases integer
      | f32 _ | f64 _ => cases float
      | bool _ | string _ | bytes _ | array _ | struct _ => cases number
    | some f =>
      rw [float] at representable
      obtain ⟨whole, small, inside⟩ := of_decide_eq_true representable
      have finite := Binary64.isFinite_of_abs_lt small
      obtain ⟨n, units⟩ := (Binary64.fract_eq_zero_iff finite).mp whole
      rw [Int.mul_comm] at units
      have clamped := Binary64.toInt128_of_units finite units
      have bounds := integerRange_bounds range
      refine ⟨n, ?_, by omega, by omega⟩
      rw [Option.bind_some, if_pos finite, Binary64.toRat, units]
      simp

/-- A number under a type of numbers has its shape. -/
theorem hasShape_number {v : Value} (numeric : isNumeric t = true)
    (typed : valueMatchesType v t = true) (representable : valueRepresentable v t = true) :
    HasShape t v := by
  have number : isNumericValue v = true := by
    cases t with
    | i8 | i16 | i32 | i64 | u8 | u16 | u32 | u64 | f32 | f64 =>
      cases v <;> first | rfl | cases typed
    | bool | string | bytes | array _ | struct _ => cases numeric
  have holds : isIntegerType t = true → integerRepresentable v t = true := by
    intro integral
    cases t with
    | i8 | i16 | i32 | i64 | u8 | u16 | u32 | u64 =>
      simpa [valueRepresentable, scalarRepresentable, integral, number] using representable
    | bool | f32 | f64 | string | bytes | array _ | struct _ => cases integral
  cases t with
  | i8 | i16 | i32 | i64 | u8 | u16 | u32 | u64 =>
    obtain ⟨n, denotes, inside⟩ := integer_of_representable rfl number (holds rfl)
    exact .integer rfl denotes inside
  | f32 => exact .float (.inl rfl) number
  | f64 => exact .float (.inr rfl) number
  | bool | string | bytes | array _ | struct _ => cases numeric

/-- What passes both checks has exactly the shape of its type. -/
theorem hasShape_of_valid (distinct : DistinctNames t) (typed : valueMatchesType value t = true)
    (representable : valueRepresentable value t = true) : HasShape t value := by
  induction distinct generalizing value with
  | bool =>
    cases value with
    | bool b => exact .bool b
    | _ => cases typed
  | string =>
    cases value with
    | string s => exact .string s
    | _ => cases typed
  | bytes =>
    cases value with
    | bytes bs => exact .bytes bs
    | _ => cases typed
  | number numeric => exact hasShape_number numeric typed representable
  | array _ ih =>
    cases value with
    | array items =>
      simp only [valueMatchesType, List.all_eq_true] at typed
      simp only [valueRepresentable, List.all_eq_true] at representable
      exact .array fun v mem => ih (typed v mem) (representable v mem)
    | _ => cases typed
  | @struct fields names _ ih =>
    cases value with
    | struct values =>
      simp only [valueMatchesType, Bool.and_eq_true, beq_iff_eq, fieldsMatch_iff] at typed
      simp only [valueRepresentable, fieldsRepresentable_iff] at representable
      obtain ⟨count, found⟩ := typed
      have perm := names_perm names count fun field declared =>
        (found field declared).imp fun v found => ⟨found.1, found.2.1⟩
      refine .struct perm fun field declared v given same => ?_
      -- the names of the values are distinct too, so the value found for the field is this one
      obtain ⟨w, found, same', typed⟩ := found field declared
      obtain rfl : w = v :=
        List.inj_on_of_nodup_map (perm.nodup_iff.mpr names) found given (same'.trans same.symm)
      exact ih field declared typed (representable field declared w given same)
    | _ => cases typed

/-- A struct of an array and a byte. -/
def sampleType : DataType := .struct [("levels", .array .i16), ("mode", .u8)]

/-- A struct of a number and a list. -/
def sampleValue : Value :=
  .struct [("mode", .f64 (Binary64.ofInt 3)), ("levels", .array [.i64 (-4), .u8 200])]

/-- The fields may come in any order, and a whole double may stand for an integer. -/
theorem hasShape_of_valid_sample : HasShape sampleType sampleValue := by
  refine hasShape_of_valid (.struct (by decide) ?_) (by decide +kernel) (by decide +kernel)
  intro field declared
  simp only [List.mem_cons, List.not_mem_nil, or_false] at declared
  rcases declared with rfl | rfl
  · exact .array (.number rfl)
  · exact .number rfl

end ForgeLink.Control
