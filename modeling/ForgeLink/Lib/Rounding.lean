import ForgeLink.Lib.Binary64
import Mathlib.Data.Rat.Cast.Order

/-!
# Rounding to doubles

Rounding is monotone, and it leaves alone what a double can hold: a number of
units whose binary digits span at most 53 places (`Fitting`).  So the double
nearest to a number lies on the same side of every other double, and `floor`,
`ceil` and `trunc` of a finite double are exact.
-/

namespace ForgeLink.Lib.Binary64

/-! ## The nearest whole number -/

variable {num num' : Nat} {x : UInt64}

theorem nearest_bounds (num den : Nat) :
    num / den ≤ nearest num den ∧ nearest num den ≤ num / den + 1 := by
  unfold nearest
  dsimp only
  split <;> omega

theorem nearest_mono (den : Nat) (le : num ≤ num') : nearest num den ≤ nearest num' den := by
  have quotients : num / den ≤ num' / den := Nat.div_le_div_right le
  rcases Nat.lt_or_eq_of_le quotients with less | same
  · have upper := (nearest_bounds num den).2
    have lower := (nearest_bounds num' den).1
    omega
  · have split := Nat.div_add_mod num den
    have split' := Nat.div_add_mod num' den
    rw [← same] at split'
    unfold nearest
    rw [← same]
    dsimp only
    split <;> split <;> omega

theorem nearest_of_dvd {den : Nat} (dvd : den ∣ num) : nearest num den = num / den := by
  unfold nearest
  dsimp only
  rw [Nat.mod_eq_zero_of_dvd dvd]
  split
  next up =>
    -- only a quotient by zero could be rounded up
    have zero : den = 0 := by omega
    rw [zero, Nat.div_zero] at up
    omega
  next => rfl

/-! ## The bits of a rounded number -/

/-- What the last place of the double nearest to a number of units is worth: `2 ^ shift`. -/
def shift (num : Nat) : Nat := Nat.log2 num - 52

/-- The double nearest to a number of units, without its sign. -/
def roundedBody (num : Nat) : Nat :=
  min (shift num * 2 ^ 52 + nearest num (2 ^ shift num)) (2047 * 2 ^ 52)

theorem pattern_toNat (negative : Bool) (num : Nat) :
    (pattern negative num 1).toNat = (if negative then 2 ^ 63 else 0) + roundedBody num := by
  have small : roundedBody num ≤ 2047 * 2 ^ 52 := Nat.min_le_right _ _
  unfold pattern
  dsimp only
  rw [Nat.div_one, Nat.one_mul, UInt64.toNat_ofNat', ← shift, ← roundedBody]
  refine Nat.mod_eq_of_lt ?_
  split <;> omega

theorem body_pattern (negative : Bool) (num : Nat) :
    body (pattern negative num 1) = roundedBody num := by
  have small : roundedBody num ≤ 2047 * 2 ^ 52 := Nat.min_le_right _ _
  rw [body, pattern_toNat]
  split <;> omega

theorem negative_pattern (sign : Bool) (num : Nat) : negative (pattern sign num 1) = sign := by
  have small : roundedBody num ≤ 2047 * 2 ^ 52 := Nat.min_le_right _ _
  rw [negative, pattern_toNat]
  cases sign
  · simp
    omega
  · simp

theorem quotient_lt (num : Nat) : num / 2 ^ shift num < 2 ^ 53 := by
  have high := Nat.lt_log2_self (n := num)
  have powers : 2 ^ (Nat.log2 num + 1) ≤ 2 ^ 53 * 2 ^ shift num := by
    rw [← Nat.pow_add]
    exact Nat.pow_le_pow_right (by decide) (by unfold shift; omega)
  exact (Nat.div_lt_iff_lt_mul (Nat.two_pow_pos _)).mpr (by omega)

theorem le_quotient (long : 0 < shift num) : 2 ^ 52 ≤ num / 2 ^ shift num := by
  have some : num ≠ 0 := by
    rintro rfl
    simp [shift] at long
  have low := Nat.log2_self_le some
  refine (Nat.le_div_iff_mul_le (Nat.two_pow_pos _)).mpr ?_
  unfold shift at *
  rwa [← Nat.pow_add, show 52 + (Nat.log2 num - 52) = Nat.log2 num by omega]

theorem log2_mono (le : num ≤ num') : Nat.log2 num ≤ Nat.log2 num' := by
  by_cases none : num = 0
  · simp [none]
  · exact (Nat.le_log2 (by omega)).mpr ((Nat.log2_self_le none).trans le)

theorem roundedBody_mono (le : num ≤ num') : roundedBody num ≤ roundedBody num' := by
  unfold roundedBody
  have logs := log2_mono le
  have shifts : shift num ≤ shift num' := by
    unfold shift
    omega
  refine min_le_min_right _ ?_
  rcases Nat.lt_or_eq_of_le shifts with less | same
  · -- a power of two lies between them
    have lower := (le_quotient (show 0 < shift num' by omega)).trans
      (nearest_bounds num' (2 ^ shift num')).1
    have upper := (nearest_bounds num (2 ^ shift num)).2
    have digits := quotient_lt num
    omega
  · rw [same]
    exact Nat.add_le_add_left (nearest_mono _ le) _

/-! ## What a double can hold -/

/-- The binary digits of a number span at most 53 places, and it is below the infinities. -/
structure Fitting (num : Nat) : Prop where
  dvd : 2 ^ shift num ∣ num
  low : shift num ≤ 2045

/-- Few digits at a low place make a number that fits. -/
theorem fitting_mul {digits place : Nat} (few : digits < 2 ^ 53) (low : place ≤ 2045) :
    Fitting (digits * 2 ^ place) := by
  have short : shift (digits * 2 ^ place) ≤ place := by
    by_cases none : digits = 0
    · simp [none, shift]
    have some : digits * 2 ^ place ≠ 0 := by positivity
    have upper : digits * 2 ^ place < 2 ^ (53 + place) := by
      rw [Nat.pow_add]
      exact Nat.mul_lt_mul_of_pos_right few (Nat.two_pow_pos _)
    have log := (Nat.log2_lt some).mpr upper
    unfold shift
    omega
  exact ⟨Dvd.dvd.mul_left (Nat.pow_dvd_pow 2 short) digits, short.trans low⟩

theorem roundedBody_lt (fits : Fitting num) : roundedBody num < 2047 * 2 ^ 52 := by
  have places := fits.low
  have digits := quotient_lt num
  rw [← nearest_of_dvd fits.dvd] at digits
  unfold roundedBody
  omega

/-- A number of units after rounding. -/
def rounded (num : Nat) : Nat := magnitude (pattern false num 1)

theorem magnitude_pattern (sign : Bool) (num : Nat) :
    magnitude (pattern sign num 1) = rounded num := by
  simp only [rounded, magnitude, exponent, fraction, body_pattern]

theorem units_pattern (sign : Bool) (num : Nat) :
    units (pattern sign num 1) = if sign then -(rounded num : Int) else rounded num := by
  rw [units, negative_pattern, magnitude_pattern]

theorem magnitude_le {y : UInt64} (le : body x ≤ body y) : magnitude x ≤ magnitude y := by
  rcases Nat.lt_or_eq_of_le le with less | same
  · exact (magnitude_lt less).le
  · unfold magnitude exponent fraction
    rw [same]

theorem rounded_mono (le : num ≤ num') : rounded num ≤ rounded num' := by
  refine magnitude_le ?_
  rw [body_pattern, body_pattern]
  exact roundedBody_mono le

/-- What fits is not rounded. -/
theorem rounded_eq (fits : Fitting num) : rounded num = num := by
  have places := fits.low
  have digits := quotient_lt num
  have whole := Nat.div_mul_cancel fits.dvd
  have bits : roundedBody num = shift num * 2 ^ 52 + num / 2 ^ shift num := by
    have finite := roundedBody_lt fits
    unfold roundedBody at *
    rw [nearest_of_dvd fits.dvd] at *
    omega
  rw [rounded, magnitude, exponent, fraction, body_pattern, bits]
  by_cases long : 0 < shift num
  · have top := le_quotient long
    generalize num / 2 ^ shift num = q at *
    have exp : (shift num * 2 ^ 52 + q) / 2 ^ 52 = shift num + 1 := by omega
    have frac : (shift num * 2 ^ 52 + q) % 2 ^ 52 = q - 2 ^ 52 := by omega
    rw [exp, frac, if_neg (Nat.succ_ne_zero _), Nat.add_sub_cancel, Nat.add_sub_cancel' top, whole]
  · have none : shift num = 0 := by omega
    rw [none, Nat.pow_zero, Nat.div_one, Nat.zero_mul, Nat.zero_add]
    rw [none, Nat.pow_zero, Nat.div_one] at digits
    split
    next low => exact Nat.mod_eq_of_lt (by omega)
    next high =>
      have exp : num / 2 ^ 52 = 1 := by omega
      rw [exp, Nat.sub_self, Nat.pow_zero, Nat.mul_one]
      omega

theorem isFinite_pattern (fits : Fitting num) (sign : Bool) :
    isFinite (pattern sign num 1) = true := by
  rw [isFinite, body_pattern]
  exact decide_eq_true (roundedBody_lt fits)

/-- The number of units of a finite double fits. -/
theorem fitting_magnitude (finite : isFinite x = true) : Fitting (magnitude x) := by
  have below : body x < 2047 * 2 ^ 52 := of_decide_eq_true finite
  have frac : fraction x < 2 ^ 52 := Nat.mod_lt _ (by decide)
  have exp : exponent x < 2047 := (Nat.div_lt_iff_lt_mul (by decide)).mpr below
  unfold magnitude
  split
  · have fits := @fitting_mul (fraction x) 0 (by omega) (by omega)
    rwa [Nat.pow_zero, Nat.mul_one] at fits
  · exact fitting_mul (by omega) (by omega)

/-! ## Signed numbers -/

/-- A signed number of units after rounding. -/
def roundUnits (u : Int) : Int := if u < 0 then -(rounded u.natAbs : Int) else rounded u.natAbs

theorem roundUnits_mono {u u' : Int} (le : u ≤ u') : roundUnits u ≤ roundUnits u' := by
  unfold roundUnits
  by_cases negative : u' < 0
  · have rounds := rounded_mono (show u'.natAbs ≤ u.natAbs by omega)
    rw [if_pos (by omega), if_pos negative]
    omega
  · by_cases split : u < 0
    · rw [if_pos split, if_neg negative]
      omega
    · have rounds := rounded_mono (show u.natAbs ≤ u'.natAbs by omega)
      rw [if_neg split, if_neg negative]
      omega

theorem roundUnits_eq {u : Int} (fits : Fitting u.natAbs) : roundUnits u = u := by
  unfold roundUnits
  rw [rounded_eq fits]
  split <;> omega

theorem natAbs_units (x : UInt64) : (units x).natAbs = magnitude x := by
  unfold units
  split <;> omega

theorem fitting_units (finite : isFinite x = true) : Fitting (units x).natAbs := by
  rw [natAbs_units]
  exact fitting_magnitude finite

theorem natAbs_scale (n : Int) : (n * 2 ^ 1074).natAbs = n.natAbs * 2 ^ 1074 := by
  rw [Int.natAbs_mul, Int.natAbs_pow]
  exact congrArg (n.natAbs * · ^ 1074) (rfl : Int.natAbs 2 = 2)

theorem units_ofInt (n : Int) : units (ofInt n) = roundUnits (n * 2 ^ 1074) := by
  have unit : (0 : Int) < 2 ^ 1074 := by positivity
  rw [ofInt, units_pattern, roundUnits, natAbs_scale]
  by_cases negative : n < 0
  · rw [if_pos (Int.mul_neg_of_neg_of_pos negative unit)]
    simp [negative]
  · rw [if_neg (Int.not_lt.mpr (Int.mul_nonneg (by omega) unit.le))]
    simp [negative]

/-- Rounding moves no integer across another. -/
theorem units_ofInt_mono {m n : Int} (le : m ≤ n) : units (ofInt m) ≤ units (ofInt n) := by
  rw [units_ofInt, units_ofInt]
  exact roundUnits_mono (Int.mul_le_mul_of_nonneg_right le (by positivity))

/-- What is less after rounding was less before. -/
theorem lt_of_ofInt_lt {m n : Int} (less : lt (ofInt m) (ofInt n) = true) : m < n := by
  by_contra above
  have mono := units_ofInt_mono (not_lt.mp above)
  have less := units_lt_of_lt less
  omega

/-- The double nearest to an integer is not above a double that the integer is not above. -/
theorem units_ofInt_le {n : Int} (finite : isFinite x = true) (le : n * 2 ^ 1074 ≤ units x) :
    units (ofInt n) ≤ units x := by
  rw [units_ofInt, ← roundUnits_eq (fitting_units finite)]
  exact roundUnits_mono le

theorem le_units_ofInt {n : Int} (finite : isFinite x = true) (le : units x ≤ n * 2 ^ 1074) :
    units x ≤ units (ofInt n) := by
  rw [units_ofInt, ← roundUnits_eq (fitting_units finite)]
  exact roundUnits_mono le

/-! ## Integral doubles -/

/-- A double with a fraction is below `2 ^ 52`. -/
theorem magnitude_lt_of_not_dvd (inexact : ¬2 ^ 1074 ∣ magnitude x) :
    magnitude x < 2 ^ 52 * 2 ^ 1074 := by
  have frac : fraction x < 2 ^ 52 := Nat.mod_lt _ (by decide)
  unfold magnitude at *
  split at inexact
  next zero =>
    rw [if_pos zero]
    exact Nat.lt_of_lt_of_le frac (Nat.le_mul_of_pos_right _ (Nat.two_pow_pos _))
  next normal =>
    rw [if_neg normal]
    have low : exponent x - 1 < 1074 := by
      by_contra high
      exact inexact (Dvd.dvd.mul_left (Nat.pow_dvd_pow 2 (by omega)) _)
    calc (2 ^ 52 + fraction x) * 2 ^ (exponent x - 1) < 2 ^ 53 * 2 ^ (exponent x - 1) :=
          Nat.mul_lt_mul_of_pos_right (by omega) (Nat.two_pow_pos _)
      _ ≤ 2 ^ 53 * 2 ^ 1073 := Nat.mul_le_mul_left _ (Nat.pow_le_pow_right (by decide) (by omega))
      _ = 2 ^ 52 * 2 ^ 1074 := by rw [← Nat.pow_add, ← Nat.pow_add]

/-- What `floor`, `ceil` and `trunc` make of a number of units, with `d` units to one: the
integer below or the integer above. -/
def Rounds (d u q : Int) : Prop := q = u / d ∨ q = -(-u / d)

theorem rounds_trunc (d u : Int) : Rounds d u (u.tdiv d) := by
  rcases Int.le_total 0 u with positive | negative
  · exact .inl (Int.tdiv_eq_ediv_of_nonneg positive)
  · refine .inr ?_
    rw [← Int.tdiv_eq_ediv_of_nonneg (show 0 ≤ -u by omega), Int.neg_tdiv, Int.neg_neg]

section

variable {d u q : Int} (unit : 0 < d) (rounds : Rounds d u q)

include unit rounds

/-- The result is less than one away. -/
theorem Rounds.near : q * d < u + d ∧ u < q * d + d := by
  rcases rounds with rfl | rfl
  · have le := Int.ediv_mul_le u unit.ne'
    have lt := Int.lt_ediv_add_one_mul_self u unit
    constructor <;> linarith
  · have le := Int.ediv_mul_le (-u) unit.ne'
    have lt := Int.lt_ediv_add_one_mul_self (-u) unit
    constructor <;> linarith

/-- The result is of the same sign. -/
theorem Rounds.sign : (0 ≤ u → 0 ≤ q) ∧ (u ≤ 0 → q ≤ 0) := by
  have below : ∀ v : Int, v ≤ 0 → v / d ≤ 0 := fun v le =>
    Int.le_of_lt_add_one (Int.ediv_lt_of_lt_mul unit (by linarith))
  rcases rounds with rfl | rfl
  · exact ⟨fun le => Int.ediv_nonneg le unit.le, below u⟩
  · refine ⟨fun le => ?_, fun le => ?_⟩
    · have := below (-u) (by omega)
      omega
    · have := Int.ediv_nonneg (show 0 ≤ -u by omega) unit.le
      omega

theorem Rounds.exact (dvd : d ∣ u) : q * d = u := by
  obtain ⟨k, rfl⟩ := dvd
  rcases rounds with rfl | rfl
  · rw [Int.mul_ediv_cancel_left _ unit.ne', Int.mul_comm]
  · rw [← Int.mul_neg, Int.mul_ediv_cancel_left _ unit.ne', Int.neg_neg, Int.mul_comm]

end

variable {x : UInt64} {n : Int}

theorem natAbs_lt_of_near {u w : Int} {d m : Nat} (above : w < u + d) (below : u < w + d)
    (small : u.natAbs < m * d) : w.natAbs < (m + 1) * d := by
  rw [Nat.succ_mul]
  omega

/-- They are exact for finite doubles. -/
theorem units_integral {f : Int → Int} (finite : isFinite x = true)
    (rounds : Rounds (2 ^ 1074) (units x) (f (units x))) :
    units (integral f x) = f (units x) * 2 ^ 1074 ∧ isFinite (integral f x) = true := by
  have unit : (0 : Int) < 2 ^ 1074 := by positivity
  have cast : ((2 ^ 1074 : Nat) : Int) = 2 ^ 1074 := by rw [Nat.cast_pow, Nat.cast_ofNat]
  obtain ⟨above, below⟩ := rounds.near unit
  obtain ⟨nonneg, nonpos⟩ := rounds.sign unit
  have scaled := natAbs_scale (f (units x))
  have fits : Fitting ((f (units x)).natAbs * 2 ^ 1074) := by
    by_cases exact : 2 ^ 1074 ∣ magnitude x
    · have dvd : (2 : Int) ^ 1074 ∣ units x := by
        rw [← cast, Int.natCast_dvd, natAbs_units]
        exact exact
      rw [← scaled, rounds.exact unit dvd]
      exact fitting_units finite
    · refine fitting_mul ?_ (by decide)
      have small := magnitude_lt_of_not_dvd exact
      rw [← natAbs_units] at small
      rw [← cast] at above below
      have near := natAbs_lt_of_near above below small
      rw [cast, scaled] at near
      have lt := Nat.lt_of_mul_lt_mul_right near
      omega
  unfold integral
  rw [if_pos finite, units_pattern, rounded_eq fits, isFinite_pattern fits, ← scaled]
  refine ⟨?_, rfl⟩
  cases sign : negative x with
  | true =>
    have below : units x ≤ 0 := by
      rw [units, if_pos sign]
      omega
    have product := Int.mul_nonneg (show 0 ≤ -f (units x) by have := nonpos below; omega) unit.le
    rw [Int.neg_mul] at product
    simp only [if_true]
    omega
  | false =>
    have above : 0 ≤ units x := by
      rw [units, if_neg (by simp [sign])]
      omega
    have product := Int.mul_nonneg (nonneg above) unit.le
    simp only [Bool.false_eq_true, if_false]
    omega

theorem isNan_of_isFinite (finite : isFinite x = true) : isNan x = false := by
  have below : body x < 2047 * 2 ^ 52 := of_decide_eq_true finite
  exact decide_eq_false (by omega)

theorem isInfinite_of_isFinite (finite : isFinite x = true) : isInfinite x = false := by
  have below : body x < 2047 * 2 ^ 52 := of_decide_eq_true finite
  exact decide_eq_false (by omega)

/-- Rounding makes a zero only of zero. -/
theorem rounded_pos {num : Nat} (some : num ≠ 0) : 0 < rounded num := by
  have one : rounded 1 = 1 := by decide +kernel
  have rounds := rounded_mono (Nat.one_le_iff_ne_zero.mpr some)
  omega

/-- A finite double has no fraction exactly when it is a whole number. -/
theorem fract_eq_zero_iff (finite : isFinite x = true) :
    eq (fract x) (ofInt 0) = true ↔ 2 ^ 1074 ∣ units x := by
  have unit : (0 : Int) < 2 ^ 1074 := by positivity
  have rounds := rounds_trunc (2 ^ 1074) (units x)
  obtain ⟨whole, kept⟩ := units_integral (f := fun u => u.tdiv (2 ^ 1074)) finite rounds
  rw [fract, trunc, sub, isNan_of_isFinite finite, isNan_of_isFinite kept,
    isInfinite_of_isFinite finite, isInfinite_of_isFinite kept, whole]
  simp only [Bool.false_eq_true, or_self, if_false]
  by_cases exact : units x - (units x).tdiv (2 ^ 1074) * 2 ^ 1074 = 0
  · rw [if_pos exact]
    have zeros : ∀ sign, eq (signed sign 0) (ofInt 0) = true := by decide +kernel
    exact iff_of_true (zeros _) (Dvd.intro_left _ (Int.sub_eq_zero.mp exact).symm)
  · rw [if_neg exact]
    have none : units (ofInt 0) = 0 := by decide +kernel
    refine iff_of_false ?_ fun dvd => exact (by rw [rounds.exact unit dvd, Int.sub_self])
    have positive := rounded_pos (Int.natAbs_ne_zero.mpr exact)
    simp only [eq, units_pattern, none, decide_eq_true_eq, not_and]
    intro _ _ zero
    split at zero <;> omega

/-- The conversion of a whole number to an integer. -/
theorem toInt128_of_units (finite : isFinite x = true) (whole : units x = n * 2 ^ 1074) :
    toInt128 x = max (-2 ^ 127) (min n (2 ^ 127 - 1)) := by
  have unit : (0 : Int) < 2 ^ 1074 := by positivity
  rw [toInt128, isNan_of_isFinite finite, toInt, whole, Int.mul_tdiv_cancel _ unit.ne']
  rfl

/-! ## The number a double denotes -/

/-- The rational that a finite double denotes. -/
def toRat (x : UInt64) : ℚ := units x / 2 ^ 1074

theorem toRat_lt {y : UInt64} : toRat x < toRat y ↔ units x < units y := by
  have unit : (0 : ℚ) < 2 ^ 1074 := by positivity
  rw [toRat, toRat, div_lt_div_iff_of_pos_right unit, Int.cast_lt]

theorem toRat_lt_intCast : toRat x < n ↔ units x < n * 2 ^ 1074 := by
  have unit : (0 : ℚ) < 2 ^ 1074 := by positivity
  have scaled : (n : ℚ) * 2 ^ 1074 = ((n * 2 ^ 1074 : Int) : ℚ) := by
    rw [Int.cast_mul, Int.cast_pow, Int.cast_ofNat]
  rw [toRat, div_lt_iff₀ unit, scaled, Int.cast_lt]

theorem intCast_lt_toRat : n < toRat x ↔ n * 2 ^ 1074 < units x := by
  have unit : (0 : ℚ) < 2 ^ 1074 := by positivity
  have scaled : (n : ℚ) * 2 ^ 1074 = ((n * 2 ^ 1074 : Int) : ℚ) := by
    rw [Int.cast_mul, Int.cast_pow, Int.cast_ofNat]
  rw [toRat, lt_div_iff₀ unit, scaled, Int.cast_lt]

theorem lt_eq_true {y : UInt64} (x_number : isNan x = false) (y_number : isNan y = false) :
    lt x y = true ↔ units x < units y := by
  simp only [lt, x_number, y_number, Bool.false_eq_true, not_false_eq_true, true_and,
    decide_eq_true_eq]

/-- An integer is compared with a double after rounding as it is before, unless it is rounded
to that double. -/
theorem ofInt_lt_iff (finite : isFinite x = true) :
    lt (ofInt n) x = true ↔ n < toRat x ∧ units x ≠ units (ofInt n) := by
  rw [lt_eq_true (isNan_ofInt n) (isNan_of_isFinite finite), intCast_lt_toRat]
  constructor
  · intro less
    refine ⟨?_, less.ne'⟩
    by_contra above
    have le := le_units_ofInt finite (not_lt.mp above)
    omega
  · rintro ⟨less, other⟩
    exact lt_of_le_of_ne (units_ofInt_le finite less.le) other.symm

theorem lt_ofInt_iff (finite : isFinite x = true) :
    lt x (ofInt n) = true ↔ toRat x < n ∧ units x ≠ units (ofInt n) := by
  rw [lt_eq_true (isNan_of_isFinite finite) (isNan_ofInt n), toRat_lt_intCast]
  constructor
  · intro less
    refine ⟨?_, less.ne⟩
    by_contra below
    have le := units_ofInt_le finite (not_lt.mp below)
    omega
  · rintro ⟨less, other⟩
    exact lt_of_le_of_ne (le_units_ofInt finite less.le) other

theorem body_abs (x : UInt64) : body (abs x) = body x := by
  have below : body x < 2 ^ 63 := Nat.mod_lt _ (by decide)
  rw [body, abs, UInt64.toNat_ofNat']
  omega

theorem units_abs (x : UInt64) : units (abs x) = magnitude x := by
  have below : body x < 2 ^ 63 := Nat.mod_lt _ (by decide)
  have positive : negative (abs x) = false := by
    rw [negative, abs, UInt64.toNat_ofNat']
    exact decide_eq_false (by omega)
  rw [units, positive, magnitude, exponent, fraction, body_abs]
  rfl

/-- A double below an integer in absolute value is finite. -/
theorem isFinite_of_abs_lt (less : lt (abs x) (ofInt n) = true) : isFinite x = true := by
  have less := units_lt_of_lt less
  rw [units_abs] at less
  by_contra infinite
  have high : 2047 * 2 ^ 52 ≤ body x := Nat.not_lt.mp fun below => infinite (decide_eq_true below)
  have low : body (ofInt n) ≤ 2047 * 2 ^ 52 := by
    rw [ofInt, body_pattern]
    exact Nat.min_le_right _ _
  have order := magnitude_le (low.trans high)
  have whole := natAbs_units (ofInt n)
  omega

end ForgeLink.Lib.Binary64
