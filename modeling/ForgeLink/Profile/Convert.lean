import ForgeLink.Drivers.Carrier

/-!
# The profile engine: converting a written value

`encode_write` of `convert.rs`.  A semantic value is checked against the bounds
of its property, taken back through scale and offset, rounded as the property
says and checked against the range of the raw type.  Integers of 64 bits under
the identity transform take a path of their own that never leaves the integers.

Doubles are their bits, and their arithmetic is `Lib.Binary64`.  What is encoded
is always a value of the raw type (`encodeWrite_rawOf`).
-/

namespace ForgeLink.Profile

open Drivers
open Lib

/-- `Value`; singles and doubles are their bits. -/
inductive Value where
  | bool (b : Bool)
  | i8 (v : Int8)
  | i16 (v : Int16)
  | i32 (v : Int32)
  | i64 (v : Int64)
  | u8 (v : UInt8)
  | u16 (v : UInt16)
  | u32 (v : UInt32)
  | u64 (v : UInt64)
  | f32 (bits : UInt32)
  | f64 (bits : UInt64)
  | string (s : String)
  | bytes (bs : Bytes)
  | array (items : List Value)
  | struct (fields : List (String × Value))

/-- `WriteRounding`. -/
inductive WriteRounding where
  | exact
  | nearest
  | floor
  | ceil
  | truncate
deriving DecidableEq

/-- `ProfileProperty`, the fields that a write reads. -/
structure ProfileProperty where
  driverAddress : String
  rawType : DataType
  valueType : DataType
  scale : UInt64
  offset : UInt64
  writeRounding : WriteRounding
  writable : Bool
  min : Option Value
  max : Option Value

/-- `ConversionError`. -/
inductive ConversionError where
  | notWritable
  | semanticTypeMismatch (expected : DataType)
  | minMaxViolation (value : UInt64) (min max : Option UInt64)
  | scaleInvalid (scale offset : UInt64)
  | notFinite (v : UInt64)
  | exactRequired (candidate : UInt64)
  | overflow (candidate : UInt64) (rawType : DataType)
  | precisionLoss (value : Int)

/-! ## Numbers -/

/-- The types of numbers. -/
def isNumeric : DataType → Bool
  | .i8 | .i16 | .i32 | .i64 | .u8 | .u16 | .u32 | .u64 | .f32 | .f64 => true
  | _ => false

/-- The types of integers. -/
def isIntegerType : DataType → Bool
  | .i8 | .i16 | .i32 | .i64 | .u8 | .u16 | .u32 | .u64 => true
  | _ => false

/-- `integer_value_to_i128`. -/
def integerValueToI128 : Value → Option Int
  | .i8 x => some x.toInt
  | .i16 x => some x.toInt
  | .i32 x => some x.toInt
  | .i64 x => some x.toInt
  | .u8 x => some x.toNat
  | .u16 x => some x.toNat
  | .u32 x => some x.toNat
  | .u64 x => some x.toNat
  | _ => none

/-- `numeric_value_to_f64`. -/
def numericValueToF64 : Value → Option UInt64
  | .f32 x => some (f32ToF64 x)
  | .f64 x => some x
  | v => (integerValueToI128 v).map Binary64.ofInt

/-- `f64_to_i64`. -/
def f64ToI64 (v : UInt64) : Option Int64 :=
  if Binary64.le (Binary64.ofInt (-2 ^ 63)) v ∧ Binary64.lt v (Binary64.ofInt (2 ^ 63)) then
    some (Int64.ofInt (Binary64.toInt v))
  else none

/-- `f64_to_u64`. -/
def f64ToU64 (v : UInt64) : Option UInt64 :=
  if Binary64.le (Binary64.ofInt 0) v ∧ Binary64.lt v (Binary64.ofInt (2 ^ 64)) then
    some (UInt64.ofNat (Binary64.toInt v).toNat)
  else none

/-- `i64_lossless_to_f64`. -/
def i64LosslessToF64 (v : Int64) : Option UInt64 :=
  let f := Binary64.ofInt v.toInt
  if f64ToI64 f = some v then some f else none

/-- `u64_lossless_to_f64`. -/
def u64LosslessToF64 (v : UInt64) : Option UInt64 :=
  let f := Binary64.ofInt v.toNat
  if f64ToU64 f = some v then some f else none

/-! ## The exact path -/

/-- `bound.fract() == 0.0`, or what rounding makes of the bound. -/
def integerized (rounding : UInt64 → UInt64) (bound : UInt64) : Int :=
  Binary64.toInt128 (if Binary64.eq (Binary64.fract bound) (Binary64.ofInt 0) then bound
    else rounding bound)

/-- `i128_gt_f64`. -/
def i128GtF64 (v : Int) (bound : UInt64) : Bool :=
  ¬Binary64.isNan bound ∧ v > integerized Binary64.floor bound

/-- `i128_lt_f64`. -/
def i128LtF64 (v : Int) (bound : UInt64) : Bool :=
  ¬Binary64.isNan bound ∧ v < integerized Binary64.ceil bound

/-- An integer is within the bounds of its property. -/
def checkExactBounds (property : ProfileProperty) (v : Int) : Except ConversionError Unit :=
  let violation :=
    ConversionError.minMaxViolation (Binary64.ofInt v) (property.min.bind numericValueToF64)
      (property.max.bind numericValueToF64)
  let below := property.min.any fun bound =>
    match integerValueToI128 bound with
    | some bound => v < bound
    | none => i128LtF64 v ((numericValueToF64 bound).getD Binary64.nan)
  let above := property.max.any fun bound =>
    match integerValueToI128 bound with
    | some bound => v > bound
    | none => i128GtF64 v ((numericValueToF64 bound).getD Binary64.nan)
  if below then .error violation
  else if above then .error violation
  else .ok ()

/-- `try_from` to a signed type of `w` bits. -/
def exactSigned (property : ProfileProperty) (w : Nat) (v : Int) :
    Except ConversionError RawValue :=
  if -2 ^ (w - 1) ≤ v ∧ v < 2 ^ (w - 1) then .ok (.i64 (Int64.ofInt v))
  else .error (.overflow (Binary64.ofInt v) property.rawType)

/-- `try_from` to an unsigned type of `w` bits. -/
def exactUnsigned (property : ProfileProperty) (w : Nat) (v : Int) :
    Except ConversionError RawValue :=
  if 0 ≤ v ∧ v < 2 ^ w then .ok (.u64 (UInt64.ofNat v.toNat))
  else .error (.overflow (Binary64.ofInt v) property.rawType)

/-- An integer in a floating raw type, which has to hold it. -/
def exactFloat (property : ProfileProperty) (v : Int) (f : UInt64) :
    Except ConversionError RawValue :=
  if Binary64.toInt128 f ≠ v then
    .error (if property.writeRounding = .exact then .exactRequired f else .precisionLoss v)
  else .ok (.f64 f)

/-- An integer as a raw value, without floats. -/
def encodeExactInt (property : ProfileProperty) (v : Int) : Except ConversionError RawValue := do
  checkExactBounds property v
  match property.rawType with
  | .i8 => exactSigned property 8 v
  | .i16 => exactSigned property 16 v
  | .i32 => exactSigned property 32 v
  | .i64 => exactSigned property 64 v
  | .u8 => exactUnsigned property 8 v
  | .u16 => exactUnsigned property 16 v
  | .u32 => exactUnsigned property 32 v
  | .u64 => exactUnsigned property 64 v
  | .f32 => exactFloat property v (f32ToF64 (f64ToF32 (Binary64.ofInt v)))
  | .f64 => exactFloat property v (Binary64.ofInt v)
  | _ => .error (.semanticTypeMismatch property.valueType)

/-! ## The scaled path -/

/-- A candidate, rounded as the property says. -/
def applyRounding (property : ProfileProperty) (candidate : UInt64) :
    Except ConversionError UInt64 :=
  match property.writeRounding with
  | .exact =>
    if ¬Binary64.eq (Binary64.fract candidate) (Binary64.ofInt 0) then
      .error (.exactRequired candidate)
    else .ok candidate
  | .nearest => .ok (Binary64.round candidate)
  | .floor => .ok (Binary64.floor candidate)
  | .ceil => .ok (Binary64.ceil candidate)
  | .truncate => .ok (Binary64.trunc candidate)

/-- A candidate as a signed number. -/
def checkedSigned (property : ProfileProperty) (candidate min max : UInt64) :
    Except ConversionError RawValue := do
  let rounded ← applyRounding property candidate
  if ¬(Binary64.le min rounded ∧ Binary64.le rounded max) then
    .error (.overflow rounded property.rawType)
  else
    match f64ToI64 rounded with
    | some value => .ok (.i64 value)
    | none => .error (.overflow rounded property.rawType)

/-- A candidate as an unsigned number. -/
def checkedUnsigned (property : ProfileProperty) (candidate max : UInt64) :
    Except ConversionError RawValue := do
  let rounded ← applyRounding property candidate
  if ¬(Binary64.le (Binary64.ofInt 0) rounded ∧ Binary64.le rounded max) then
    .error (.overflow rounded property.rawType)
  else
    match f64ToU64 rounded with
    | some value => .ok (.u64 value)
    | none => .error (.overflow rounded property.rawType)

/-- A candidate as a number of single precision. -/
def checkedFloat (property : ProfileProperty) (candidate : UInt64) :
    Except ConversionError RawValue :=
  let narrowed := f64ToF32 candidate
  if property.writeRounding = .exact ∧ ¬Binary64.eq (f32ToF64 narrowed) candidate then
    .error (.exactRequired candidate)
  else if isInfinite32 narrowed then .error (.overflow candidate property.rawType)
  else .ok (.f64 (f32ToF64 narrowed))

/-- The last `match` of `encode_write`. -/
def encodeCandidate (property : ProfileProperty) (candidate : UInt64) :
    Except ConversionError RawValue :=
  match property.rawType with
  | .i8 => checkedSigned property candidate (Binary64.ofInt (-128)) (Binary64.ofInt 127)
  | .i16 => checkedSigned property candidate (Binary64.ofInt (-32768)) (Binary64.ofInt 32767)
  | .i32 =>
    checkedSigned property candidate (Binary64.ofInt (-2 ^ 31)) (Binary64.ofInt (2 ^ 31 - 1))
  | .i64 =>
    checkedSigned property candidate (Binary64.ofInt (-2 ^ 63)) (Binary64.ofInt (2 ^ 63 - 1))
  | .u8 => checkedUnsigned property candidate (Binary64.ofInt 255)
  | .u16 => checkedUnsigned property candidate (Binary64.ofInt 65535)
  | .u32 => checkedUnsigned property candidate (Binary64.ofInt (2 ^ 32 - 1))
  | .u64 => checkedUnsigned property candidate (Binary64.ofInt (2 ^ 64 - 1))
  | .f32 => checkedFloat property candidate
  | .f64 => .ok (.f64 candidate)
  | _ => .error (.semanticTypeMismatch property.valueType)

/-- The semantic value as a double: step 2 of `encode_write`. -/
def semanticToF64 (property : ProfileProperty) : Value → Except ConversionError UInt64
  | .i64 x =>
    match i64LosslessToF64 x with
    | some v => .ok v
    | none => .error (.precisionLoss x.toInt)
  | .u64 x =>
    match u64LosslessToF64 x with
    | some v => .ok v
    | none => .error (.precisionLoss x.toNat)
  | other =>
    match numericValueToF64 other with
    | some v => .ok v
    | none => .error (.semanticTypeMismatch property.valueType)

/-- Steps 2 to 8 of `encode_write`, through doubles. -/
def encodeScaled (property : ProfileProperty) (semantic : Value) :
    Except ConversionError RawValue := do
  let v ← semanticToF64 property semantic
  let min := property.min.bind numericValueToF64
  let max := property.max.bind numericValueToF64
  if ¬Binary64.isFinite v then .error (.notFinite v)
  else if min.any (Binary64.lt v) then .error (.minMaxViolation v min max)
  else if max.any (Binary64.lt · v) then .error (.minMaxViolation v min max)
  else if Binary64.eq property.scale (Binary64.ofInt 0) ∨ ¬Binary64.isFinite property.scale ∨
      ¬Binary64.isFinite property.offset then
    .error (.scaleInvalid property.scale property.offset)
  else
    let candidate := Binary64.div (Binary64.sub v property.offset) property.scale
    if ¬Binary64.isFinite candidate then .error (.notFinite candidate)
    else encodeCandidate property candidate

/-- A property of numbers: the exact path for integers of 64 bits under the identity
transform, the scaled path for all others. -/
def encodeNumeric (property : ProfileProperty) (semantic : Value) :
    Except ConversionError RawValue :=
  if Binary64.eq property.scale (Binary64.ofInt 1) ∧
    Binary64.eq property.offset (Binary64.ofInt 0) then
    match semantic with
    | .i64 v => encodeExactInt property v.toInt
    | .u64 v => encodeExactInt property v.toNat
    | other => encodeScaled property other
  else encodeScaled property semantic

/-- The raw value of a semantic one. -/
def encodeWrite (property : ProfileProperty) (semantic : Value) : Except ConversionError RawValue :=
  if ¬property.writable then .error .notWritable
  else
    match property.valueType, semantic with
    | .bool, .bool b => .ok (.bool b)
    | .string, .string s => .ok (.string s)
    | .bytes, .bytes b => .ok (.bytes b)
    | .bool, _ => .error (.semanticTypeMismatch .bool)
    | .string, _ => .error (.semanticTypeMismatch .string)
    | .bytes, _ => .error (.semanticTypeMismatch .bytes)
    | _, _ => encodeNumeric property semantic

/-! ## What is encoded -/

/-- The values of a raw type of numbers, as they are carried to a driver. -/
def RawOf (t : DataType) (raw : RawValue) : Prop :=
  ValueOf t raw ∨
    (t = .f32 ∧ ∃ x : UInt32, x.toNat % 2 ^ 31 < 0x7F800000 ∧ raw = .f64 (f32ToF64 x)) ∨
    (t = .f64 ∧ ∃ x, raw = .f64 x)

variable {property : ProfileProperty} {raw : RawValue} {t : DataType} {w : Nat} {v : Int}
  {candidate : UInt64}

theorem valueOf_signed (bits : intBits t = some (true, w)) (low : -2 ^ (w - 1) ≤ v)
    (high : v < 2 ^ (w - 1)) : ValueOf t (.i64 (Int64.ofInt v)) := by
  have value : (Int64.ofInt v).toInt = v := by
    rcases intBits_cases bits with rfl | rfl | rfl | rfl
    all_goals exact Int64.toInt_ofInt_of_le (by omega) (by omega)
  simp only [ValueOf, bits, value]
  exact ⟨low, high⟩

theorem valueOf_unsigned (bits : intBits t = some (false, w)) (low : 0 ≤ v) (high : v < 2 ^ w) :
    ValueOf t (.u64 (UInt64.ofNat v.toNat)) := by
  have lt : v.toNat < 2 ^ w := by
    rw [Int.toNat_lt low]
    exact_mod_cast high
  have value : (UInt64.ofNat v.toNat).toNat = v.toNat := by
    rw [UInt64.toNat_ofNat']
    rcases intBits_cases bits with rfl | rfl | rfl | rfl
    all_goals omega
  simp only [ValueOf, bits, value]
  exact lt

theorem exactSigned_valueOf (bits : intBits t = some (true, w))
    (encoded : exactSigned property w v = .ok raw) : ValueOf t raw := by
  unfold exactSigned at encoded
  split at encoded
  next inside =>
    cases encoded
    exact valueOf_signed bits inside.1 inside.2
  next => cases encoded

theorem exactUnsigned_valueOf (bits : intBits t = some (false, w))
    (encoded : exactUnsigned property w v = .ok raw) : ValueOf t raw := by
  unfold exactUnsigned at encoded
  split at encoded
  next inside =>
    cases encoded
    exact valueOf_unsigned bits inside.1 inside.2
  next => cases encoded

/-- An integer of 64 bits is never the integer that an infinity is converted to. -/
theorem finite_of_toInt128 {x : UInt32} (number : x.toNat % 2 ^ 31 ≤ 0x7F800000) (low : -2 ^ 63 ≤ v)
    (high : v < 2 ^ 64) (same : Binary64.toInt128 (f32ToF64 x) = v) :
    x.toNat % 2 ^ 31 < 0x7F800000 := by
  by_contra infinite
  have lt := x.toNat_lt
  have cases : x = 0x7F800000 ∨ x = 0xFF800000 := by
    simp only [← UInt32.toNat_inj, UInt32.reduceToNat]
    omega
  rcases cases with rfl | rfl
  · have value : Binary64.toInt128 (f32ToF64 0x7F800000) = 2 ^ 127 - 1 := by decide +kernel
    omega
  · have value : Binary64.toInt128 (f32ToF64 0xFF800000) = -2 ^ 127 := by decide +kernel
    omega

/-- An encoded integer is of the raw type. -/
theorem encodeExactInt_rawOf (low : -2 ^ 63 ≤ v) (high : v < 2 ^ 64)
    (encoded : encodeExactInt property v = .ok raw) :
    RawOf property.rawType raw := by
  unfold encodeExactInt at encoded
  obtain ⟨_, _, encoded⟩ := bind_eq_ok.mp encoded
  split at encoded
  case h_1 type | h_2 type | h_3 type | h_4 type =>
    rw [type]
    exact .inl (exactSigned_valueOf rfl encoded)
  case h_5 type | h_6 type | h_7 type | h_8 type =>
    rw [type]
    exact .inl (exactUnsigned_valueOf rfl encoded)
  next type =>
    unfold exactFloat at encoded
    split at encoded
    next => cases encoded
    next same =>
      cases encoded
      have number := Binary64.isNan_ofInt v
      simp only [Binary64.isNan, Binary64.body, gt_iff_lt, decide_eq_false_iff_not,
        Nat.not_lt] at number
      exact .inr (.inl ⟨type, _, finite_of_toInt128 (f64ToF32_body_le number) low high
        (not_not.mp same), rfl⟩)
  next type =>
    unfold exactFloat at encoded
    split at encoded
    next => cases encoded
    next =>
      cases encoded
      exact .inr (.inr ⟨type, _, rfl⟩)
  next => cases encoded

theorem f64ToI64_eq_some {v : UInt64} {x : Int64} (h : f64ToI64 v = some x) :
    x = Int64.ofInt (Binary64.toInt v) ∧ -2 ^ 63 ≤ Binary64.toInt v ∧
      Binary64.toInt v < 2 ^ 63 := by
  unfold f64ToI64 at h
  split at h
  next range =>
    cases h
    have least : Binary64.units (Binary64.ofInt (-2 ^ 63)) = -2 ^ 63 * 2 ^ 1074 := by decide +kernel
    have beyond : Binary64.units (Binary64.ofInt (2 ^ 63)) = 2 ^ 63 * 2 ^ 1074 := by decide +kernel
    have low := Binary64.units_le_of_le range.1
    have high := Binary64.units_lt_of_lt range.2
    rw [least] at low
    rw [beyond] at high
    exact ⟨rfl, Binary64.le_toInt low, Binary64.toInt_lt (by decide) high⟩
  next => cases h

theorem f64ToU64_eq_some {v x : UInt64} (h : f64ToU64 v = some x) :
    x = UInt64.ofNat (Binary64.toInt v).toNat ∧ 0 ≤ Binary64.toInt v ∧
      Binary64.toInt v < 2 ^ 64 := by
  unfold f64ToU64 at h
  split at h
  next range =>
    cases h
    have least : Binary64.units (Binary64.ofInt 0) = 0 * 2 ^ 1074 := by decide +kernel
    have beyond : Binary64.units (Binary64.ofInt (2 ^ 64)) = 2 ^ 64 * 2 ^ 1074 := by decide +kernel
    have low := Binary64.units_le_of_le range.1
    have high := Binary64.units_lt_of_lt range.2
    rw [least] at low
    rw [beyond] at high
    exact ⟨rfl, Binary64.le_toInt low, Binary64.toInt_lt (by decide) high⟩
  next => cases h

/-- What passes the check is in the range. -/
theorem checkedSigned_valueOf (bits : intBits t = some (true, w)) {min max : UInt64}
    (least : Binary64.units min = -2 ^ (w - 1) * 2 ^ 1074)
    (greatest : w = 64 ∨ Binary64.units max = (2 ^ (w - 1) - 1) * 2 ^ 1074)
    (encoded : checkedSigned property candidate min max = .ok raw) : ValueOf t raw := by
  unfold checkedSigned at encoded
  obtain ⟨rounded, rounding, encoded⟩ := bind_eq_ok.mp encoded
  split at encoded
  next => cases encoded
  next inside =>
    split at encoded
    next value some =>
      cases encoded
      obtain ⟨rfl, _, wide⟩ := f64ToI64_eq_some some
      obtain ⟨low, high⟩ := not_not.mp inside
      have low := Binary64.units_le_of_le low
      have high := Binary64.units_le_of_le high
      rw [least] at low
      refine valueOf_signed bits (Binary64.le_toInt low) ?_
      rcases greatest with rfl | greatest
      · exact wide
      · rw [greatest] at high
        have le := Binary64.toInt_le high
        omega
    next => cases encoded

theorem checkedUnsigned_valueOf (bits : intBits t = some (false, w)) {max : UInt64}
    (greatest : w = 64 ∨ Binary64.units max = (2 ^ w - 1) * 2 ^ 1074)
    (encoded : checkedUnsigned property candidate max = .ok raw) : ValueOf t raw := by
  unfold checkedUnsigned at encoded
  obtain ⟨rounded, rounding, encoded⟩ := bind_eq_ok.mp encoded
  split at encoded
  next => cases encoded
  next inside =>
    split at encoded
    next value some =>
      cases encoded
      obtain ⟨rfl, low, wide⟩ := f64ToU64_eq_some some
      have high := Binary64.units_le_of_le (not_not.mp inside).2
      refine valueOf_unsigned bits low ?_
      rcases greatest with rfl | greatest
      · exact wide
      · rw [greatest] at high
        have le := Binary64.toInt_le high
        omega
    next => cases encoded

theorem checkedFloat_rawOf (finite : Binary64.isFinite candidate = true)
    (encoded : checkedFloat property candidate = .ok raw) : RawOf .f32 raw := by
  unfold checkedFloat at encoded
  dsimp only at encoded
  split at encoded
  next => cases encoded
  next =>
    split at encoded
    next => cases encoded
    next narrow =>
      cases encoded
      have below : Binary64.body candidate < 2047 * 2 ^ 52 := of_decide_eq_true finite
      have number := f64ToF32_body_le below.le
      simp only [isInfinite32, decide_eq_true_eq] at narrow
      exact .inr (.inl ⟨rfl, _, by omega, rfl⟩)

/-- An encoded number is of the raw type. -/
theorem encodeCandidate_rawOf (finite : Binary64.isFinite candidate = true)
    (encoded : encodeCandidate property candidate = .ok raw) : RawOf property.rawType raw := by
  unfold encodeCandidate at encoded
  split at encoded
  case h_1 type | h_2 type | h_3 type =>
    rw [type]
    exact .inl (checkedSigned_valueOf rfl (by decide +kernel) (.inr (by decide +kernel)) encoded)
  next type =>
    rw [type]
    exact .inl (checkedSigned_valueOf rfl (by decide +kernel) (.inl rfl) encoded)
  case h_5 type | h_6 type | h_7 type =>
    rw [type]
    exact .inl (checkedUnsigned_valueOf rfl (.inr (by decide +kernel)) encoded)
  next type =>
    rw [type]
    exact .inl (checkedUnsigned_valueOf rfl (.inl rfl) encoded)
  next type =>
    rw [type]
    exact checkedFloat_rawOf finite encoded
  next type =>
    cases encoded
    exact .inr (.inr ⟨type, _, rfl⟩)
  next => cases encoded

theorem encodeScaled_rawOf {semantic : Value} (encoded : encodeScaled property semantic = .ok raw) :
    RawOf property.rawType raw := by
  unfold encodeScaled at encoded
  obtain ⟨v, number, encoded⟩ := bind_eq_ok.mp encoded
  dsimp only at encoded
  split at encoded
  next => cases encoded
  next =>
    split at encoded
    next => cases encoded
    next =>
      split at encoded
      next => cases encoded
      next =>
        split at encoded
        next => cases encoded
        next =>
          split at encoded
          next => cases encoded
          next finite => exact encodeCandidate_rawOf (not_not.mp finite) encoded

/-- What is encoded for a property of numbers is a value of its raw type. -/
theorem encodeWrite_rawOf {semantic : Value} (numeric : isNumeric property.valueType = true)
    (encoded : encodeWrite property semantic = .ok raw) : RawOf property.rawType raw := by
  unfold encodeWrite at encoded
  split at encoded
  next => cases encoded
  next =>
    have path : encodeNumeric property semantic = .ok raw := by
      revert encoded numeric
      cases property.valueType with
      | bool | string | bytes | array _ | struct _ => intro numeric; cases numeric
      | i8 | i16 | i32 | i64 | u8 | u16 | u32 | u64 | f32 | f64 => exact fun _ encoded => encoded
    unfold encodeNumeric at path
    split at path
    next =>
      split at path
      next v => exact encodeExactInt_rawOf v.le_toInt (by have lt := v.toInt_lt; omega) path
      next v => exact encodeExactInt_rawOf (by omega) (by have lt := v.toNat_lt; omega) path
      next => exact encodeScaled_rawOf path
    next => exact encodeScaled_rawOf path

end ForgeLink.Profile
