import ForgeLink.Lib.Rounding
import ForgeLink.Profile.Convert

/-!
# Bounds of properties

`check_exact_bounds` of `convert.rs` compares an integer with the bounds of a
property, and `min_greater_than_max` of `validate.rs` the bounds with one another.
A bound may be an integer or a double.  Neither function converts the integer to
a double: it is compared with the integer below or above the bound, which is the
same as to compare it with the number that the bound denotes (`i128GtF64_iff`,
`i128LtF64_iff`).
-/

namespace ForgeLink.Profile

open Lib

/-- `min_greater_than_max`. -/
def minGreaterThanMax (min max : Value) : Option Bool :=
  match integerValueToI128 min, integerValueToI128 max with
  | some a, some b => some (a > b)
  | some a, none => (numericValueToF64 max).map (i128GtF64 a)
  | none, some b => (numericValueToF64 min).map fun a => Binary64.toInt128 (Binary64.ceil a) > b
  | none, none => do
    let a ← numericValueToF64 min
    let b ← numericValueToF64 max
    some (Binary64.lt b a)

/-! ## What a bound denotes -/

/-- The number that a value denotes, if it is an integer or a finite double. -/
def rational (v : Value) : Option ℚ :=
  match integerValueToI128 v with
  | some n => some n
  | none => (numericValueToF64 v).bind fun x =>
    if Binary64.isFinite x then some (Binary64.toRat x) else none

/-- Between the bounds, over the rationals. -/
def WithinBounds (min max : Option Value) (v : Int) : Prop :=
  (∀ bound ∈ min, ∀ q ∈ rational bound, q ≤ v) ∧ ∀ bound ∈ max, ∀ q ∈ rational bound, v ≤ q

instance (min max : Option Value) (v : Int) : Decidable (WithinBounds min max v) :=
  inferInstanceAs (Decidable (_ ∧ _))

theorem rational_cases {v : Value} {q : ℚ} (denotes : rational v = some q) :
    (∃ n : Int, integerValueToI128 v = some n ∧ q = n) ∨
      integerValueToI128 v = none ∧ ∃ x, numericValueToF64 v = some x ∧
        Binary64.isFinite x = true ∧ q = Binary64.toRat x := by
  unfold rational at denotes
  split at denotes
  next n integer =>
    cases denotes
    exact .inl ⟨n, integer, rfl⟩
  next float =>
    obtain ⟨x, number, denotes⟩ := Option.bind_eq_some_iff.mp denotes
    split at denotes
    next finite =>
      cases denotes
      exact .inr ⟨float, x, number, finite, rfl⟩
    next => cases denotes

theorem integerValueToI128_bounds {v : Value} {n : Int} (integer : integerValueToI128 v = some n) :
    -2 ^ 64 < n ∧ n < 2 ^ 64 := by
  cases v with
  | i8 x | i16 x | i32 x | i64 x => cases integer; have := x.le_toInt; have := x.toInt_lt; omega
  | u8 x | u16 x | u32 x | u64 x => cases integer; have := x.toNat_lt; omega
  | bool _ | f32 _ | f64 _ | string _ | bytes _ | array _ | struct _ => cases integer

/-! ## An integer and a double -/

/-- A double whose number is whole is converted as it is, any other after rounding. -/
theorem toInt128_integral {f : Int → Int} {x : UInt64} (finite : Binary64.isFinite x = true)
    (rounds : Binary64.Rounds (2 ^ 1074) (Binary64.units x) (f (Binary64.units x))) :
    Binary64.toInt128 (Binary64.integral f x) =
      max (-2 ^ 127) (min (f (Binary64.units x)) (2 ^ 127 - 1)) := by
  obtain ⟨whole, kept⟩ := Binary64.units_integral finite rounds
  exact Binary64.toInt128_of_units kept whole

theorem integerized_integral {f : Int → Int} {x : UInt64} (finite : Binary64.isFinite x = true)
    (rounds : Binary64.Rounds (2 ^ 1074) (Binary64.units x) (f (Binary64.units x))) :
    integerized (Binary64.integral f) x =
      max (-2 ^ 127) (min (f (Binary64.units x)) (2 ^ 127 - 1)) := by
  unfold integerized
  split
  next whole =>
    have dvd := (Binary64.fract_eq_zero_iff finite).mp whole
    exact Binary64.toInt128_of_units finite (rounds.exact (by positivity) dvd).symm
  next => exact toInt128_integral finite rounds

section

variable {v : Int} (low : -2 ^ 64 < v) (high : v < 2 ^ 64) {bound : UInt64}

include low high

/-- An integer above the integer below a number is above the number. -/
theorem floor_lt_iff :
    max (-2 ^ 127) (min (Binary64.units bound / 2 ^ 1074) (2 ^ 127 - 1)) < v ↔
      Binary64.toRat bound < v := by
  have unit : (0 : Int) < 2 ^ 1074 := by positivity
  have below := Int.ediv_lt_iff_lt_mul (a := Binary64.units bound) (b := v) unit
  rw [Binary64.toRat_lt_intCast, ← below]
  generalize Binary64.units bound / 2 ^ 1074 = n
  omega

theorem lt_ceil_iff :
    v < max (-2 ^ 127) (min (-(-Binary64.units bound / 2 ^ 1074)) (2 ^ 127 - 1)) ↔
      v < Binary64.toRat bound := by
  have unit : (0 : Int) < 2 ^ 1074 := by positivity
  have above := Int.ediv_lt_iff_lt_mul (a := -Binary64.units bound) (b := -v) unit
  rw [Int.neg_mul] at above
  rw [Binary64.intCast_lt_toRat]
  generalize -Binary64.units bound / 2 ^ 1074 = n at *
  omega

variable (finite : Binary64.isFinite bound = true)

include finite

theorem i128GtF64_iff : i128GtF64 v bound = true ↔ Binary64.toRat bound < v := by
  have clamped : integerized Binary64.floor bound = _ :=
    integerized_integral (f := fun u => u / 2 ^ 1074) finite (.inl rfl)
  rw [← floor_lt_iff low high, i128GtF64, clamped, Binary64.isNan_of_isFinite finite]
  simp only [Bool.false_eq_true, not_false_eq_true, true_and, decide_eq_true_eq, gt_iff_lt]

theorem i128LtF64_iff : i128LtF64 v bound = true ↔ v < Binary64.toRat bound := by
  have clamped : integerized Binary64.ceil bound = _ :=
    integerized_integral (f := fun u => -(-u / 2 ^ 1074)) finite (.inr rfl)
  rw [← lt_ceil_iff low high, i128LtF64, clamped, Binary64.isNan_of_isFinite finite]
  simp only [Bool.false_eq_true, not_false_eq_true, true_and, decide_eq_true_eq]

end

/-! ## The checks -/

/-- `min > max`, over the rationals. -/
theorem minGreaterThanMax_iff {min max : Value} {p q : ℚ} (lower : rational min = some p)
    (upper : rational max = some q) : minGreaterThanMax min max = some true ↔ q < p := by
  unfold minGreaterThanMax
  rcases rational_cases lower with ⟨a, a_int, rfl⟩ | ⟨a_float, a, a_num, a_finite, rfl⟩ <;>
    rcases rational_cases upper with ⟨b, b_int, rfl⟩ | ⟨b_float, b, b_num, b_finite, rfl⟩
  · rw [a_int, b_int, Int.cast_lt]
    simp
  · obtain ⟨low, high⟩ := integerValueToI128_bounds a_int
    rw [a_int, b_float, b_num, ← i128GtF64_iff low high b_finite]
    simp
  · obtain ⟨low, high⟩ := integerValueToI128_bounds b_int
    have clamped : Binary64.toInt128 (Binary64.ceil a) = _ :=
      toInt128_integral (f := fun u => -(-u / 2 ^ 1074)) a_finite (.inr rfl)
    rw [a_float, b_int, a_num, ← lt_ceil_iff low high, ← clamped]
    simp
  · rw [a_float, b_float, a_num, b_num, Binary64.toRat_lt]
    simp [Binary64.lt, Binary64.isNan_of_isFinite a_finite, Binary64.isNan_of_isFinite b_finite]

section

variable {property : ProfileProperty} {v : Int} (low : -2 ^ 64 < v) (high : v < 2 ^ 64)

include low high

theorem below_iff {bound : Value} {q : ℚ} (denotes : rational bound = some q) :
    (match integerValueToI128 bound with
      | some bound => decide (v < bound)
      | none => i128LtF64 v ((numericValueToF64 bound).getD Binary64.nan)) = true ↔ v < q := by
  rcases rational_cases denotes with ⟨n, integer, rfl⟩ | ⟨float, x, number, finite, rfl⟩
  · rw [integer, Int.cast_lt]
    exact decide_eq_true_iff
  · rw [float, number]
    exact i128LtF64_iff low high finite

theorem above_iff {bound : Value} {q : ℚ} (denotes : rational bound = some q) :
    (match integerValueToI128 bound with
      | some bound => decide (v > bound)
      | none => i128GtF64 v ((numericValueToF64 bound).getD Binary64.nan)) = true ↔ q < v := by
  rcases rational_cases denotes with ⟨n, integer, rfl⟩ | ⟨float, x, number, finite, rfl⟩
  · rw [integer, Int.cast_lt]
    exact decide_eq_true_iff
  · rw [float, number]
    exact i128GtF64_iff low high finite

/-- `check_exact_bounds` accepts what is between the bounds, over the rationals. -/
theorem checkExactBounds_iff (lower : ∀ bound ∈ property.min, (rational bound).isSome)
    (upper : ∀ bound ∈ property.max, (rational bound).isSome) :
    checkExactBounds property v = .ok () ↔ WithinBounds property.min property.max v := by
  have below : (property.min.any fun bound =>
      match integerValueToI128 bound with
      | some bound => decide (v < bound)
      | none => i128LtF64 v ((numericValueToF64 bound).getD Binary64.nan)) = false ↔
      ∀ bound ∈ property.min, ∀ q ∈ rational bound, q ≤ v := by
    cases min : property.min with
    | none => simp
    | some bound =>
      obtain ⟨q, denotes⟩ := Option.isSome_iff_exists.mp (lower bound min)
      rw [← Bool.not_eq_true, Option.any_some, below_iff low high denotes, Rat.not_lt]
      simp [denotes]
  have above : (property.max.any fun bound =>
      match integerValueToI128 bound with
      | some bound => decide (v > bound)
      | none => i128GtF64 v ((numericValueToF64 bound).getD Binary64.nan)) = false ↔
      ∀ bound ∈ property.max, ∀ q ∈ rational bound, v ≤ q := by
    cases max : property.max with
    | none => simp
    | some bound =>
      obtain ⟨q, denotes⟩ := Option.isSome_iff_exists.mp (upper bound max)
      rw [← Bool.not_eq_true, Option.any_some, above_iff low high denotes, Rat.not_lt]
      simp [denotes]
  rw [WithinBounds, ← below, ← above]
  unfold checkExactBounds
  dsimp only
  split
  next outside =>
    exact iff_of_false nofun fun both => Bool.false_ne_true (both.1.symm.trans outside)
  next inside =>
    have above_min := Bool.eq_false_of_not_eq_true inside
    split
    next outside =>
      exact iff_of_false nofun fun both => Bool.false_ne_true (both.2.symm.trans outside)
    next inside => exact iff_of_true rfl ⟨above_min, Bool.eq_false_of_not_eq_true inside⟩

end

/-- Both checks of bounds are exact. -/
theorem bounds_exact :
    (∀ (property : ProfileProperty) (v : Int), |v| < 2 ^ 64 →
      (∀ bound ∈ property.min, (rational bound).isSome) →
      (∀ bound ∈ property.max, (rational bound).isSome) →
      (checkExactBounds property v = .ok () ↔ WithinBounds property.min property.max v)) ∧
    ∀ (min max : Value) (p q : ℚ), rational min = some p → rational max = some q →
      (minGreaterThanMax min max = some true ↔ q < p) := by
  refine ⟨fun property v small lower upper => ?_, fun min max p q lower upper => ?_⟩
  · obtain ⟨low, high⟩ := abs_lt.mp small
    exact checkExactBounds_iff low high lower upper
  · exact minGreaterThanMax_iff lower upper

/-- The bounds `2 ^ 53`, a double, and `2 ^ 53 + 2`, an integer. -/
def edgeProperty : ProfileProperty where
  driverAddress := "D0"
  rawType := .u64
  valueType := .u64
  scale := Binary64.ofInt 1
  offset := Binary64.ofInt 0
  writeRounding := .exact
  writable := true
  min := some (.f64 (Binary64.ofInt (2 ^ 53)))
  max := some (.u64 (2 ^ 53 + 2))

/-- No double is `2 ^ 53 + 1`; still it is inside those bounds, and above the double bound. -/
theorem bounds_exact_edge :
    checkExactBounds edgeProperty (2 ^ 53 + 1) = .ok () ∧
      minGreaterThanMax (.u64 (2 ^ 53 + 1)) (.f64 (Binary64.ofInt (2 ^ 53))) = some true := by
  refine ⟨(bounds_exact.1 edgeProperty (2 ^ 53 + 1) (by decide) ?_ ?_).mpr ?_,
    (bounds_exact.2 _ _ (2 ^ 53 + 1) (2 ^ 53) ?_ ?_).mpr ?_⟩
  all_goals decide +kernel

end ForgeLink.Profile
