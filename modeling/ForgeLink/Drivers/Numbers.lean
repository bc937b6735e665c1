import ForgeLink.Drivers.Transport
import ForgeLink.Lib.Binary64

/-!
# Numbers as bytes

A number of at most `n` bytes is what its `n` bytes spell, in both orders, and
bytes are the bytes of the number that they spell.
-/

namespace ForgeLink.Drivers

open Lib

/-! ## Least significant first -/

@[simp] theorem length_leBytes (n x : Nat) : (leBytes n x).length = n := by
  simp [leBytes]

@[simp] theorem leBytes_zero (x : Nat) : leBytes 0 x = [] := rfl

theorem leBytes_succ (n x : Nat) : leBytes (n + 1) x = UInt8.ofNat x :: leBytes n (x / 256) := by
  rw [leBytes, List.range_succ_eq_map, List.map_cons, List.map_map, leBytes]
  refine congrArg₂ List.cons (by simp) (List.map_congr_left fun i _ => ?_)
  have shift : 8 * (i + 1) = 8 + 8 * i := by omega
  simp only [Function.comp, Nat.succ_eq_add_one, shift, Nat.shiftRight_add]
  rw [Nat.shiftRight_eq_div_pow x 8]

@[simp] theorem ofLeBytes_nil : ofLeBytes [] = 0 := rfl

@[simp] theorem ofLeBytes_cons (b : UInt8) (bs : Bytes) :
    ofLeBytes (b :: bs) = b.toNat + 256 * ofLeBytes bs := rfl

theorem ofLeBytes_lt (bs : Bytes) : ofLeBytes bs < 256 ^ bs.length := by
  induction bs with
  | nil => simp
  | cons b bs ih =>
    have low := b.toNat_lt
    simp only [ofLeBytes_cons, List.length_cons, Nat.pow_succ]
    omega

theorem ofLeBytes_leBytes (n x : Nat) : ofLeBytes (leBytes n x) = x % 256 ^ n := by
  induction n generalizing x with
  | zero => simp [Nat.mod_one]
  | succ n ih =>
    rw [leBytes_succ, ofLeBytes_cons, ih, Nat.pow_succ, Nat.mul_comm (256 ^ n), Nat.mod_mul]
    simp

theorem ofLeBytes_word (v : UInt64) : ofLeBytes (leBytes 8 v.toNat) = v.toNat :=
  (ofLeBytes_leBytes 8 v.toNat).trans (Nat.mod_eq_of_lt v.toNat_lt)

theorem leBytes_ofLeBytes (bs : Bytes) : leBytes bs.length (ofLeBytes bs) = bs := by
  induction bs with
  | nil => rfl
  | cons b bs ih =>
    have low := b.toNat_lt
    have high : (b.toNat + 256 * ofLeBytes bs) / 256 = ofLeBytes bs := by omega
    rw [List.length_cons, leBytes_succ, ofLeBytes_cons, high, ih]
    refine congrArg (· :: bs) (UInt8.toNat_inj.mp ?_)
    simp

theorem leBytes_mod (n x : Nat) : leBytes n (x % 256 ^ n) = leBytes n x := by
  have back := leBytes_ofLeBytes (leBytes n x)
  rwa [length_leBytes, ofLeBytes_leBytes] at back

theorem take_leBytes {k n : Nat} (le : k ≤ n) (x : Nat) : (leBytes n x).take k = leBytes k x := by
  simp [leBytes, ← List.map_take, List.take_range, Nat.min_eq_left le]

theorem exists_leBytes_two (x : Nat) :
    ∃ a b, leBytes 2 x = [a, b] ∧ ofLeBytes [a, b] = x % 65536 :=
  ⟨_, _, rfl, ofLeBytes_leBytes 2 x⟩

theorem exists_leBytes_three (x : Nat) :
    ∃ a b c, leBytes 3 x = [a, b, c] ∧ ofLeBytes [a, b, c] = x % 2 ^ 24 :=
  ⟨_, _, _, rfl, ofLeBytes_leBytes 3 x⟩

/-! ## Most significant first -/

@[simp] theorem length_beBytes (n x : Nat) : (beBytes n x).length = n := by
  simp [beBytes]

theorem ofBeBytes_beBytes (n x : Nat) : ofBeBytes (beBytes n x) = x % 256 ^ n := by
  rw [ofBeBytes, beBytes, List.reverse_reverse, ofLeBytes_leBytes]

theorem beBytes_ofBeBytes (bs : Bytes) : beBytes bs.length (ofBeBytes bs) = bs := by
  rw [beBytes, ofBeBytes, ← List.length_reverse, leBytes_ofLeBytes, List.reverse_reverse]

theorem beBytes_mod (n x : Nat) : beBytes n (x % 256 ^ n) = beBytes n x := by
  have back := beBytes_ofBeBytes (beBytes n x)
  rwa [length_beBytes, ofBeBytes_beBytes] at back

theorem beBytes_two (x : Nat) : beBytes 2 x = [UInt8.ofNat (x / 256), UInt8.ofNat x] := by
  simp [beBytes, leBytes_succ]

theorem exists_beBytes_two (x : Nat) :
    ∃ a b, beBytes 2 x = [a, b] ∧ ofBeBytes [a, b] = x % 65536 :=
  ⟨_, _, beBytes_two x, beBytes_two x ▸ ofBeBytes_beBytes 2 x⟩

theorem exists_beBytes_three (x : Nat) :
    ∃ a b c, beBytes 3 x = [a, b, c] ∧ ofBeBytes [a, b, c] = x % 2 ^ 24 := by
  have eq : beBytes 3 x = [UInt8.ofNat (x / 256 / 256), UInt8.ofNat (x / 256), UInt8.ofNat x] := by
    simp [beBytes, leBytes_succ]
  exact ⟨_, _, _, eq, eq ▸ ofBeBytes_beBytes 3 x⟩

/-! ## Two's complement -/

theorem toInt_eq (x : Int64) :
    x.toInt = if 2 * x.toUInt64.toNat < 2 ^ 64 then (x.toUInt64.toNat : Int)
      else x.toUInt64.toNat - 2 ^ 64 := by
  have eq := BitVec.toInt_eq_toNat_cond x.toBitVec
  exact_mod_cast eq

/-- A number is read back from its low `w` bits if it has no more. -/
theorem toSigned_of_range {x : Int64} {w : Nat} (width : w = 8 ∨ w = 16 ∨ w = 32 ∨ w = 64)
    (low : -2 ^ (w - 1) ≤ x.toInt) (high : x.toInt < 2 ^ (w - 1)) :
    toSigned w (x.toUInt64.toNat % 2 ^ w) = x.toInt := by
  have value := toInt_eq x
  have bound := x.toUInt64.toNat_lt
  unfold toSigned
  rcases width with rfl | rfl | rfl | rfl
  · simp only [Nat.reduceSub, Nat.reducePow, Int.reducePow, Int.reduceNeg] at *
    split at value <;> split <;> omega
  · simp only [Nat.reduceSub, Nat.reducePow, Int.reducePow, Int.reduceNeg] at *
    split at value <;> split <;> omega
  · simp only [Nat.reduceSub, Nat.reducePow, Int.reducePow, Int.reduceNeg] at *
    split at value <;> split <;> omega
  · simp only [Nat.reduceSub, Nat.reducePow, Int.reducePow, Int.reduceNeg] at *
    split at value <;> split <;> omega

theorem toSigned_injective {w m n : Nat} (positive : 1 ≤ w) (m_lt : m < 2 ^ w) (n_lt : n < 2 ^ w)
    (eq : toSigned w m = toSigned w n) : m = n := by
  have double : 2 ^ w = 2 * 2 ^ (w - 1) := by
    rw [← Nat.pow_succ']
    congr 1
    omega
  have cast : ((2 : Int) ^ w) = 2 * 2 ^ (w - 1) := by exact_mod_cast double
  unfold toSigned at eq
  rw [cast] at eq
  have half : ((2 ^ (w - 1) : Nat) : Int) = 2 ^ (w - 1) := by push_cast; rfl
  split at eq <;> split at eq <;> omega

/-- A number of `w` bits, as a signed value: its range, and its bits. -/
theorem ofInt_toSigned {w n : Nat} (width : w = 8 ∨ w = 16 ∨ w = 32 ∨ w = 64) (lt : n < 2 ^ w) :
    (-2 ^ (w - 1) ≤ (Int64.ofInt (toSigned w n)).toInt ∧
      (Int64.ofInt (toSigned w n)).toInt < 2 ^ (w - 1)) ∧
    (Int64.ofInt (toSigned w n)).toUInt64.toNat % 2 ^ w = n := by
  have range : -2 ^ (w - 1) ≤ toSigned w n ∧ toSigned w n < 2 ^ (w - 1) := by
    unfold toSigned
    rcases width with rfl | rfl | rfl | rfl
    all_goals split <;> omega
  have exact : (Int64.ofInt (toSigned w n)).toInt = toSigned w n := by
    refine Int64.toInt_ofInt_of_le ?_ ?_
    all_goals rcases width with rfl | rfl | rfl | rfl
    all_goals omega
  refine ⟨exact.symm ▸ range, ?_⟩
  refine toSigned_injective (by omega) (Nat.mod_lt _ (Nat.two_pow_pos _)) lt ?_
  rw [toSigned_of_range width (by rw [exact]; exact range.1) (by rw [exact]; exact range.2), exact]

/-! ## Singles and doubles -/

theorem roundShift_shiftLeft (m k : Nat) : roundShift (m <<< k) k = m := by
  have positive : 0 < 2 ^ k := Nat.two_pow_pos k
  have quotient : m * 2 ^ k / 2 ^ k = m := Nat.mul_div_cancel _ positive
  simp only [roundShift, Nat.shiftLeft_eq, Nat.shiftRight_eq_div_pow, Nat.mul_mod_left, quotient]
  exact if_neg (by omega)

theorem roundShift_zero (k : Nat) : roundShift 0 k = 0 := by
  simp [roundShift]

/-- The single that a normal double narrows to. -/
theorem f64ToF32_normal {s e f : Nat} (sign : s < 2) (exponent : 1 ≤ e ∧ e < 2047)
    (fraction : f < 2 ^ 52) :
    f64ToF32 (UInt64.ofNat (s * 2 ^ 63 + e * 2 ^ 52 + f)) =
      let q := max ((e : Int) - 1046) (-149)
      UInt32.ofNat (s * 2 ^ 31 + min ((q + 149).toNat * 2 ^ 23 +
        roundShift (2 ^ 52 + f) (q - ((e : Int) - 1075)).toNat) 0x7F800000) := by
  have small : (UInt64.ofNat (s * 2 ^ 63 + e * 2 ^ 52 + f)).toNat = s * 2 ^ 63 + e * 2
    ^ 52 + f := by
    rw [UInt64.toNat_ofNat']
    omega
  have top : (s * 2 ^ 63 + e * 2 ^ 52 + f) >>> 63 = s := by
    rw [Nat.shiftRight_eq_div_pow]
    omega
  have middle : (s * 2 ^ 63 + e * 2 ^ 52 + f) >>> 52 % 2 ^ 11 = e := by
    rw [Nat.shiftRight_eq_div_pow]
    omega
  have rest : (s * 2 ^ 63 + e * 2 ^ 52 + f) % 2 ^ 52 = f := by omega
  have log : Nat.log2 (2 ^ 52 + f) = 52 := (Nat.log2_eq_iff (by omega)).mpr (by omega)
  have normal : e ≠ 0 ∧ e ≠ 2047 := by omega
  have place : max (((52 : Nat) : Int) + ((e : Int) - 1075) - 23) (-149) = max
    ((e : Int) - 1046) (-149) := by
    congr 1
    omega
  simp only [f64ToF32, small, top, middle, rest, normal.1, normal.2, if_false, log, place]
  rw [if_pos (by omega)]

/-- A subnormal single is a normal double: the leading one of its fraction is at `k`. -/
theorem subnormal_fraction {f : Nat} (some : f ≠ 0) (fraction : f < 2 ^ 23) :
    let k := Nat.log2 f
    k < 23 ∧ (f - 2 ^ k) <<< (52 - k) < 2 ^ 52 ∧
      2 ^ 52 + (f - 2 ^ k) <<< (52 - k) = f <<< (52 - k) := by
  intro k
  obtain ⟨low, high⟩ := (Nat.log2_eq_iff (k := k) some).mp rfl
  have k_lt : k < 23 := by
    by_contra large
    have le := Nat.pow_le_pow_right (show 0 < 2 by decide) (show 23 ≤ k by omega)
    omega
  have scale : 2 ^ k * 2 ^ (52 - k) = 2 ^ 52 := by
    rw [← Nat.pow_add]
    congr 1
    omega
  refine ⟨k_lt, ?_, ?_⟩
  · rw [Nat.shiftLeft_eq, ← scale]
    exact Nat.mul_lt_mul_of_pos_right (by omega) (Nat.two_pow_pos _)
  · rw [Nat.shiftLeft_eq, Nat.shiftLeft_eq, ← scale, ← Nat.add_mul]
    congr 1
    omega

/-- A finite single is narrowed from the double that it is widened to. -/
theorem f64ToF32_f32ToF64 {x : UInt32} (finite : x.toNat % 2 ^ 31 < 0x7F800000) :
    f64ToF32 (f32ToF64 x) = x := by
  have lt := x.toNat_lt
  obtain ⟨s, e, f, bits, sign, exponent, fraction⟩ : ∃ s e f,
    x.toNat = s * 2 ^ 31 + e * 2 ^ 23 + f ∧
      s < 2 ∧ e < 255 ∧ f < 2 ^ 23 :=
    ⟨x.toNat / 2 ^ 31, x.toNat / 2 ^ 23 % 2 ^ 8,
      x.toNat % 2 ^ 23, by omega, by omega, by omega, by omega⟩
  have top : x.toNat >>> 31 = s := by
    rw [Nat.shiftRight_eq_div_pow]
    omega
  have middle : x.toNat >>> 23 % 2 ^ 8 = e := by
    rw [Nat.shiftRight_eq_div_pow]
    omega
  have rest : x.toNat % 2 ^ 23 = f := by omega
  have back : UInt32.ofNat (s * 2 ^ 31 + (e * 2 ^ 23 + f)) = x := by
    rw [← Nat.add_assoc, ← bits, UInt32.ofNat_toNat]
  have bounded : e * 2 ^ 23 + f ≤ 0x7F800000 := by omega
  simp only [f32ToF64, top, middle, rest]
  rw [if_neg (by omega)]
  split
  next zero =>
    subst zero
    split
    next none =>
      subst none
      rw [← back]
      have cases : s = 0 ∨ s = 1 := by omega
      rcases cases with rfl | rfl
      · simp [f64ToF32, roundShift_zero]
      · simp [f64ToF32, roundShift_zero]
    next some =>
      obtain ⟨k_lt, fraction_lt, whole⟩ := subnormal_fraction some fraction
      obtain ⟨k, log⟩ : ∃ k, Nat.log2 f = k := ⟨_, rfl⟩
      rw [log] at k_lt fraction_lt whole ⊢
      have shift : (max (((k + 874 : Nat) : Int) - 1046) (-149) -
        (((k + 874 : Nat) : Int) - 1075)).toNat = 52 - k := by
        omega
      have place : (max (((k + 874 : Nat) : Int) - 1046) (-149) + 149).toNat = 0 := by omega
      rw [f64ToF32_normal sign (by omega) fraction_lt]
      dsimp only
      rw [shift, whole, roundShift_shiftLeft, place, ← back, Nat.min_eq_left (by omega)]
  next normal =>
    have fraction_lt : f <<< 29 < 2 ^ 52 := by
      rw [Nat.shiftLeft_eq]
      omega
    have whole : 2 ^ 52 + f <<< 29 = (2 ^ 23 + f) <<< 29 := by
      rw [Nat.shiftLeft_eq, Nat.shiftLeft_eq]
      omega
    have shift : (max (((e + 896 : Nat) : Int) - 1046) (-149) -
      (((e + 896 : Nat) : Int) - 1075)).toNat = 29 := by
      omega
    have place : (max (((e + 896 : Nat) : Int) - 1046) (-149) + 149).toNat = e - 1 := by omega
    have sum : (e - 1) * 2 ^ 23 + (2 ^ 23 + f) = e * 2 ^ 23 + f := by omega
    rw [f64ToF32_normal sign (by omega) fraction_lt]
    dsimp only
    rw [shift, whole, roundShift_shiftLeft, place, sum, ← back, Nat.min_eq_left bounded]

/-- A single that is no number is widened to a quiet one with its payload. -/
theorem f32ToF64_nan {x : UInt32} {s f : Nat} (some : f ≠ 0) (fraction : f < 2 ^ 23)
    (bits : x.toNat = s * 2 ^ 31 + 255 * 2 ^ 23 + f) :
    f32ToF64 x = UInt64.ofNat (s * 2 ^ 63 + 2047 * 2 ^ 52 + (2 ^ 22 ||| f) <<< 29) := by
  have top : x.toNat >>> 31 = s := by
    rw [Nat.shiftRight_eq_div_pow]
    omega
  have middle : x.toNat >>> 23 % 2 ^ 8 = 255 := by
    rw [Nat.shiftRight_eq_div_pow]
    omega
  have rest : x.toNat % 2 ^ 23 = f := by omega
  have quiet : 2 ^ 22 ||| f < 2 ^ 23 := Nat.or_lt_two_pow (by decide) fraction
  have payload : 2 ^ 51 ||| f <<< 29 = (2 ^ 22 ||| f) <<< 29 := by
    rw [Nat.shiftLeft_or_distrib]
    rfl
  have joined : 2047 <<< 52 ||| (2 ^ 22 ||| f) <<< 29 =
      2047 <<< 52 + (2 ^ 22 ||| f) <<< 29 := by
    refine (Nat.shiftLeft_add_eq_or_of_lt ?_ _).symm
    rw [Nat.shiftLeft_eq]
    omega
  simp only [f32ToF64, top, middle, rest, if_true, some, if_false]
  rw [Nat.or_assoc, payload]
  rw [Nat.add_assoc]
  exact congrArg (fun y => UInt64.ofNat (s * 2 ^ 63 + y)) joined

/-- Narrowing and widening again changes no double that was a single. -/
theorem f32ToF64_f64ToF32_f32ToF64 (x : UInt32) :
    f32ToF64 (f64ToF32 (f32ToF64 x)) = f32ToF64 x := by
  by_cases finite : x.toNat % 2 ^ 31 < 0x7F800000
  · rw [f64ToF32_f32ToF64 finite]
  have lt := x.toNat_lt
  obtain ⟨s, f, bits, sign, fraction⟩ : ∃ s f,
      x.toNat = s * 2 ^ 31 + 255 * 2 ^ 23 + f ∧ s < 2 ∧ f < 2 ^ 23 :=
    ⟨x.toNat / 2 ^ 31, x.toNat % 2 ^ 23, by omega, by omega, by omega⟩
  by_cases none : f = 0
  · have eq : x = UInt32.ofNat (s * 2 ^ 31 + 255 * 2 ^ 23) := by
      rw [← UInt32.ofNat_toNat (x := x), bits, none, Nat.add_zero]
    rw [eq]
    have cases : s = 0 ∨ s = 1 := by omega
    rcases cases with rfl | rfl
    · rfl
    · rfl
  · have widened := f32ToF64_nan none fraction bits
    obtain ⟨q, payload⟩ : ∃ q, 2 ^ 22 ||| f = q := ⟨_, rfl⟩
    have quiet : 2 ^ 22 ||| q = q := by rw [← payload, ← Nat.or_assoc, Nat.or_self]
    have low : 2 ^ 22 ≤ q := quiet ▸ Nat.left_le_or
    have high : q < 2 ^ 23 := payload ▸ Nat.or_lt_two_pow (by decide) fraction
    have narrowed : f64ToF32 (f32ToF64 x) = UInt32.ofNat (s * 2 ^ 31 + 255 * 2 ^ 23 + q) := by
      have value : (f32ToF64 x).toNat = s * 2 ^ 63 + 2047 * 2 ^ 52 + q * 2 ^ 29 := by
        rw [widened, payload, UInt64.toNat_ofNat', Nat.shiftLeft_eq]
        omega
      have top : (f32ToF64 x).toNat >>> 63 = s := by
        rw [Nat.shiftRight_eq_div_pow]
        omega
      have middle : (f32ToF64 x).toNat >>> 52 % 2 ^ 11 = 2047 := by
        rw [Nat.shiftRight_eq_div_pow]
        omega
      have rest : (f32ToF64 x).toNat % 2 ^ 52 = q * 2 ^ 29 := by omega
      have back : (q * 2 ^ 29) >>> 29 = q := by
        rw [Nat.shiftRight_eq_div_pow]
        omega
      have joined : 0x7FC00000 ||| q = 255 * 2 ^ 23 + q := by
        have split : 0x7FC00000 = 255 <<< 23 ||| 2 ^ 22 := by decide
        rw [split, Nat.or_assoc, quiet, ← Nat.shiftLeft_add_eq_or_of_lt high]
        rfl
      simp only [f64ToF32, top, middle, rest, back, joined, if_true]
      rw [if_neg (by omega), Nat.add_assoc]
    rw [narrowed, widened, payload, f32ToF64_nan (by omega : q ≠ 0) high, quiet]
    rw [UInt32.toNat_ofNat']
    omega

theorem body_ofNat_le (s n : Nat) :
    (UInt32.ofNat (s * 2 ^ 31 + min n 0x7F800000)).toNat % 2 ^ 31 ≤ 0x7F800000 := by
  rw [UInt32.toNat_ofNat']
  omega

/-- A double that is no NaN narrows to a single that is none. -/
theorem f64ToF32_body_le {x : UInt64} (number : x.toNat % 2 ^ 63 ≤ 2047 * 2 ^ 52) :
    (f64ToF32 x).toNat % 2 ^ 31 ≤ 0x7F800000 := by
  simp only [f64ToF32]
  split
  next infinite =>
    split
    next => simp only [UInt32.toNat_ofNat']; omega
    next some =>
      rw [Nat.shiftRight_eq_div_pow] at infinite
      omega
  next =>
    exact body_ofNat_le _ _

/-- A finite single is widened to a double that is no NaN. -/
theorem f32ToF64_body_le {x : UInt32} (finite : x.toNat % 2 ^ 31 < 0x7F800000) :
    (f32ToF64 x).toNat % 2 ^ 63 ≤ 2047 * 2 ^ 52 := by
  have exponent : x.toNat >>> 23 % 2 ^ 8 < 255 := by
    rw [Nat.shiftRight_eq_div_pow]
    omega
  have top : x.toNat >>> 31 < 2 := by
    rw [Nat.shiftRight_eq_div_pow]
    have lt := x.toNat_lt
    omega
  simp only [f32ToF64]
  rw [if_neg (by omega)]
  split
  next zero =>
    split
    next => simp only [UInt64.toNat_ofNat']; omega
    next some =>
      obtain ⟨k_lt, fraction_lt, _⟩ := subnormal_fraction some (by omega)
      rw [UInt64.toNat_ofNat']
      generalize x.toNat >>> 31 = s at top ⊢
      generalize (x.toNat % 2 ^ 23 - _) <<< _ = fraction at fraction_lt ⊢
      omega
  next normal =>
    rw [UInt64.toNat_ofNat', Nat.shiftLeft_eq]
    omega

/-- What a narrowed double is widened to, if they are equal numbers. -/
theorem f32ToF64_of_eq {v : UInt64} (same : Binary64.eq (f32ToF64 (f64ToF32 v)) v = true) :
    f32ToF64 (f64ToF32 v) = v := by
  rcases Binary64.eq_or_zero same with eq | ⟨_, zero⟩
  · exact eq
  · have lt := v.toNat_lt
    unfold Binary64.body at zero
    have cases : v.toNat = 0 ∨ v.toNat = 2 ^ 63 := by omega
    rw [← UInt64.ofNat_toNat (x := v)]
    rcases cases with low | high
    · rw [low]
      simp [f64ToF32, roundShift_zero, f32ToF64]
    · rw [high]
      simp [f64ToF32, roundShift_zero, f32ToF64]

/-- A number that is narrowed without loss is widened to itself. -/
theorem f32ToF64_of_kept {v : UInt64} (number : Binary64.isNan v = false)
    (kept : ¬(¬isNan32 (f64ToF32 v) ∧ ¬Binary64.eq (f32ToF64 (f64ToF32 v)) v)) :
    f32ToF64 (f64ToF32 v) = v := by
  have body : v.toNat % 2 ^ 63 ≤ 2047 * 2 ^ 52 := by
    simpa [Binary64.isNan, Binary64.body] using number
  have single : isNan32 (f64ToF32 v) = false := by
    simpa [isNan32] using f64ToF32_body_le body
  exact f32ToF64_of_eq (by simpa [single] using kept)

/-! ## Values -/

/-- A number of some bits is a value: signed, unsigned, or a real of 32 or 64 bits. -/
def Stands (bits n : Nat) : RawValue → Prop
  | .i64 v => toSigned bits n = v.toInt
  | .u64 v => n = v.toNat
  | .f64 v =>
    if bits = 64 then n = v.toNat
    else if Binary64.isNan v then isNan32 (UInt32.ofNat n) = true
    else f32ToF64 (UInt32.ofNat n) = v
  | _ => False

/-- A double that may be narrowed stands in 32 bits. -/
theorem stands_single {v : UInt64}
    (kept : ¬(¬isNan32 (f64ToF32 v) ∧ ¬Binary64.eq (f32ToF64 (f64ToF32 v)) v)) :
    Stands 32 (f64ToF32 v).toNat (.f64 v) := by
  simp only [Stands, show (32 : Nat) ≠ 64 by decide, if_false, UInt32.ofNat_toNat]
  split
  next nan =>
    have other : Binary64.eq (f32ToF64 (f64ToF32 v)) v = false := by simp [Binary64.eq, nan]
    simpa [other] using kept
  next number => exact f32ToF64_of_kept (by simpa using number) kept

end ForgeLink.Drivers
