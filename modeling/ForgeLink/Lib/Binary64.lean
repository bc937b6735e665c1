import Mathlib.Data.UInt
import Mathlib.Tactic.Linarith

/-!
# Double precision numbers

A double is its 64 bits.  Every double that is not a NaN is a whole number of
*units*, the unit being the least positive double, `2 ^ -1074`; an infinity is
given the number that would follow the greatest finite one.  So comparisons are
those of the units (`lt`, `le`, `eq`), and an operation is exact arithmetic on
units followed by one rounding to the nearest double, ties to the even one
(`pattern`).

`toInt` is the number without its fraction, which a conversion to an integer
gives; it keeps to whatever integer bounds the number keeps to (`le_toInt`,
`toInt_le`).
-/

namespace ForgeLink.Lib.Binary64

variable {x y : UInt64}

/-! ## The parts of a double -/

/-- The sign. -/
def negative (x : UInt64) : Bool := 2 ^ 63 ≤ x.toNat

/-- The bits without the sign. -/
def body (x : UInt64) : Nat := x.toNat % 2 ^ 63

/-- The exponent. -/
def exponent (x : UInt64) : Nat := body x / 2 ^ 52

/-- The fraction. -/
def fraction (x : UInt64) : Nat := body x % 2 ^ 52

/-- The number without its sign, in units. -/
def magnitude (x : UInt64) : Nat :=
  if exponent x = 0 then fraction x else (2 ^ 52 + fraction x) * 2 ^ (exponent x - 1)

/-- The number in units. -/
def units (x : UInt64) : Int := if negative x then -(magnitude x : Int) else magnitude x

/-- Not a number. -/
def isNan (x : UInt64) : Bool := body x > 2047 * 2 ^ 52

/-- An infinity. -/
def isInfinite (x : UInt64) : Bool := body x = 2047 * 2 ^ 52

/-- Neither. -/
def isFinite (x : UInt64) : Bool := body x < 2047 * 2 ^ 52

/-! ## Comparisons -/

/-- `x == y`. -/
def eq (x y : UInt64) : Bool := ¬isNan x ∧ ¬isNan y ∧ units x = units y

/-- `x < y`. -/
def lt (x y : UInt64) : Bool := ¬isNan x ∧ ¬isNan y ∧ units x < units y

/-- `x <= y`. -/
def le (x y : UInt64) : Bool := ¬isNan x ∧ ¬isNan y ∧ units x ≤ units y

/-! ## Rounding -/

/-- The whole number nearest to a quotient, ties to the even one. -/
def nearest (num den : Nat) : Nat :=
  let q := num / den
  let r := num % den
  if 2 * r > den ∨ (2 * r = den ∧ q % 2 = 1) then q + 1 else q

/-- The double nearest to a quotient of units. -/
def pattern (negative : Bool) (num den : Nat) : UInt64 :=
  -- the last of the 53 places of the result is worth `2 ^ k` units
  let k := Nat.log2 (num / den) - 52
  UInt64.ofNat ((if negative then 2 ^ 63 else 0) +
    min (k * 2 ^ 52 + nearest num (den * 2 ^ k)) (2047 * 2 ^ 52))

/-- The double nearest to an integer. -/
def ofInt (n : Int) : UInt64 := pattern (n < 0) (n.natAbs * 2 ^ 1074) 1

/-! ## Arithmetic -/

/-- The NaN that an operation gives. -/
def nan : UInt64 := 0x7FF8000000000000

/-- A zero or an infinity with a sign. -/
def signed (negative : Bool) (body : UInt64) : UInt64 := if negative then 2 ^ 63 + body else body

/-- `x.abs()`. -/
def abs (x : UInt64) : UInt64 := UInt64.ofNat (body x)

/-- `x - y`. -/
def sub (x y : UInt64) : UInt64 :=
  if isNan x ∨ isNan y then nan
  else if isInfinite x then
    if isInfinite y ∧ negative x = negative y then nan else x
  else if isInfinite y then signed (¬negative y) 0x7FF0000000000000
  else
    let exact := units x - units y
    if exact = 0 then signed (negative x ∧ ¬negative y) 0
    else pattern (exact < 0) exact.natAbs 1

/-- `x + y`, which is to subtract the negative of `y`. -/
def add (x y : UInt64) : UInt64 := sub x (y ^^^ 2 ^ 63)

/-- `x * y`. -/
def mul (x y : UInt64) : UInt64 :=
  let sign := xor (negative x) (negative y)
  if isNan x ∨ isNan y then nan
  else if isInfinite x ∨ isInfinite y then
    if magnitude x = 0 ∨ magnitude y = 0 then nan else signed sign 0x7FF0000000000000
  else pattern sign (magnitude x * magnitude y) (2 ^ 1074)

/-- `x / y`. -/
def div (x y : UInt64) : UInt64 :=
  let sign := xor (negative x) (negative y)
  if isNan x ∨ isNan y then nan
  else if isInfinite x then
    if isInfinite y then nan else signed sign 0x7FF0000000000000
  else if isInfinite y then signed sign 0
  else if magnitude y = 0 then
    if magnitude x = 0 then nan else signed sign 0x7FF0000000000000
  else pattern sign (magnitude x * 2 ^ 1074) (magnitude y)

/-! ## Integers -/

/-- A double with the sign of `x` and the integer that `f` makes of its units. -/
def integral (f : Int → Int) (x : UInt64) : UInt64 :=
  if isFinite x then pattern (negative x) ((f (units x)).natAbs * 2 ^ 1074) 1 else x

/-- Rounded towards zero. -/
def trunc : UInt64 → UInt64 := integral fun u => u.tdiv (2 ^ 1074)

/-- Rounded down. -/
def floor : UInt64 → UInt64 := integral fun u => u / 2 ^ 1074

/-- Rounded up. -/
def ceil : UInt64 → UInt64 := integral fun u => -(-u / 2 ^ 1074)

/-- To the nearest integer, ties away from zero. -/
def round : UInt64 → UInt64 :=
  integral fun u => u.sign * ((2 * u.natAbs + 2 ^ 1074) / 2 ^ 1075)

/-- What is lost towards zero. -/
def fract (x : UInt64) : UInt64 := sub x (trunc x)

/-- The number without its fraction. -/
def toInt (x : UInt64) : Int := (units x).tdiv (2 ^ 1074)

/-- `x as i128`. -/
def toInt128 (x : UInt64) : Int :=
  if isNan x then 0 else max (-2 ^ 127) (min (toInt x) (2 ^ 127 - 1))

/-! ## Lemmas -/

theorem isNan_pattern (negative : Bool) (num den : Nat) :
    isNan (pattern negative num den) = false := by
  unfold pattern
  dsimp only
  generalize Nat.log2 (num / den) - 52 = k
  generalize k * 2 ^ 52 + nearest num (den * 2 ^ k) = bits
  have small : min bits (2047 * 2 ^ 52) ≤ 2047 * 2 ^ 52 := Nat.min_le_right _ _
  simp only [isNan, body, UInt64.toNat_ofNat', gt_iff_lt, decide_eq_false_iff_not, not_lt]
  cases negative <;> simp only [Bool.false_eq_true, if_true, if_false] <;> omega

theorem isNan_ofInt (n : Int) : isNan (ofInt n) = false := isNan_pattern _ _ _

theorem units_le_of_le (h : le x y = true) : units x ≤ units y := by
  simp only [le, decide_eq_true_eq] at h
  exact h.2.2

theorem units_lt_of_lt (h : lt x y = true) : units x < units y := by
  simp only [lt, decide_eq_true_eq] at h
  exact h.2.2

/-- A larger body is a larger number. -/
theorem magnitude_lt (h : body x < body y) : magnitude x < magnitude y := by
  have fx : fraction x < 2 ^ 52 := Nat.mod_lt _ (by decide)
  have fy : fraction y < 2 ^ 52 := Nat.mod_lt _ (by decide)
  have x_eq : body x = exponent x * 2 ^ 52 + fraction x := by
    rw [Nat.mul_comm]
    exact (Nat.div_add_mod _ _).symm
  have y_eq : body y = exponent y * 2 ^ 52 + fraction y := by
    rw [Nat.mul_comm]
    exact (Nat.div_add_mod _ _).symm
  unfold magnitude
  by_cases same : exponent x = exponent y
  · have less : fraction x < fraction y := by
      rw [x_eq, y_eq, same] at h
      omega
    rw [same]
    split
    · exact less
    · exact Nat.mul_lt_mul_of_pos_right (by omega) (Nat.two_pow_pos _)
  · have lower : exponent x < exponent y := by omega
    rw [if_neg (show exponent y ≠ 0 by omega)]
    have top : 2 ^ 52 * 2 ^ (exponent y - 1) ≤ (2 ^ 52 + fraction y) * 2 ^ (exponent y - 1) :=
      Nat.mul_le_mul_right _ (by omega)
    refine Nat.lt_of_lt_of_le ?_ top
    split
    · exact Nat.lt_of_lt_of_le fx (Nat.le_mul_of_pos_right _ (Nat.two_pow_pos _))
    · have step : 2 ^ 52 * 2 ^ exponent x ≤ 2 ^ 52 * 2 ^ (exponent y - 1) :=
        Nat.mul_le_mul_left _ (Nat.pow_le_pow_right (by decide) (by omega))
      have double : 2 ^ 52 * 2 ^ exponent x = 2 ^ 53 * 2 ^ (exponent x - 1) := by
        rw [← Nat.pow_add, ← Nat.pow_add]
        congr 1
        omega
      have less : (2 ^ 52 + fraction x) * 2 ^ (exponent x - 1) < 2 ^ 53 * 2 ^ (exponent x - 1) :=
        Nat.mul_lt_mul_of_pos_right (by omega) (Nat.two_pow_pos _)
      omega

/-- Equal numbers are the same double, but for the two zeros. -/
theorem eq_or_zero (h : eq x y = true) : x = y ∨ body x = 0 ∧ body y = 0 := by
  simp only [eq, decide_eq_true_eq] at h
  have same := h.2.2
  have bodies : body x = body y := by
    have magnitudes : magnitude x = magnitude y := by
      unfold units at same
      split at same <;> split at same <;> omega
    rcases Nat.lt_trichotomy (body x) (body y) with less | eq | less
    · have larger := magnitude_lt less
      omega
    · exact eq
    · have larger := magnitude_lt less
      omega
  by_cases none : body x = 0
  · exact .inr ⟨none, bodies ▸ none⟩
  · refine .inl (UInt64.toNat_inj.mp ?_)
    have positive : 0 < magnitude x := by
      have less := magnitude_lt (x := 0) (y := x) (Nat.pos_of_ne_zero none)
      omega
    have x_lt := x.toNat_lt
    have y_lt := y.toNat_lt
    unfold units at same
    unfold body at bodies
    simp only [negative, decide_eq_true_eq] at same
    split at same <;> split at same <;> omega

theorem le_toInt {c : Int} (h : c * 2 ^ 1074 ≤ units x) : c ≤ toInt x := by
  have positive : (0 : Int) < 2 ^ 1074 := by positivity
  have quotients := Int.tdiv_le_tdiv positive h
  rwa [Int.mul_tdiv_cancel _ positive.ne'] at quotients

theorem toInt_lt {c : Int} (positive : 0 < c) (h : units x < c * 2 ^ 1074) : toInt x < c := by
  have unit : (0 : Int) < 2 ^ 1074 := by positivity
  by_cases sign : 0 ≤ units x
  · rw [toInt, Int.tdiv_eq_ediv_of_nonneg sign]
    exact Int.ediv_lt_of_lt_mul unit h
  · have quotients := Int.tdiv_le_tdiv unit (show units x ≤ 0 by omega)
    rw [Int.zero_tdiv] at quotients
    exact lt_of_le_of_lt quotients positive

theorem toInt_le {c : Int} (h : units x ≤ c * 2 ^ 1074) : toInt x ≤ c := by
  have positive : (0 : Int) < 2 ^ 1074 := by positivity
  have quotients := Int.tdiv_le_tdiv positive h
  rwa [Int.mul_tdiv_cancel _ positive.ne'] at quotients

end ForgeLink.Lib.Binary64
