import ForgeLink.Profile.Convert

/-!
# The profile engine: decoding a value that was read

`decode_read` of `convert.rs`.  A raw value is taken through scale and offset and
converted to the value type of its property, or the read is bad.  Integers under
the identity transform take a path of their own that never leaves the integers,
as they do when they are written.

The two paths check different types: a write checks the raw type, and a read the
value type.  So a written integer is read back exactly when the value type holds
it (`decodeRead_encodeWrite_iff`).
-/

namespace ForgeLink.Profile

open Drivers
open Lib

/-- `QualityLevel`. -/
inductive QualityLevel where
  | good
  | uncertain
  | bad
deriving DecidableEq

/-- `QualityReason`. -/
inductive QualityReason where
  | none
  | stale
  | timeout
  | notConnected
  | invalidAddress
  | deviceError
  | protocolError
  | configurationError
  | unsupported
deriving DecidableEq

/-- `Quality`. -/
structure Quality where
  level : QualityLevel
  reason : QualityReason
  protocolCode : Option Int
  message : Option String

/-- A value with its quality. -/
structure DecodedRead where
  value : Option Value
  quality : Quality

/-! ## Integers -/

/-- `try_from` to a signed type of `w` bits. -/
def trySigned (w : Nat) (make : Int → Value) (v : Int) : Option Value :=
  if -2 ^ (w - 1) ≤ v ∧ v < 2 ^ (w - 1) then some (make v) else none

/-- `try_from` to an unsigned type of `w` bits. -/
def tryUnsigned (w : Nat) (make : Nat → Value) (v : Int) : Option Value :=
  if 0 ≤ v ∧ v < 2 ^ w then some (make v.toNat) else none

/-- `exact_int_semantic`. -/
def exactIntSemantic : DataType → Int → Option Value
  | .i8 => trySigned 8 fun v => .i8 (Int8.ofInt v)
  | .i16 => trySigned 16 fun v => .i16 (Int16.ofInt v)
  | .i32 => trySigned 32 fun v => .i32 (Int32.ofInt v)
  | .i64 => trySigned 64 fun v => .i64 (Int64.ofInt v)
  | .u8 => tryUnsigned 8 fun v => .u8 (UInt8.ofNat v)
  | .u16 => tryUnsigned 16 fun v => .u16 (UInt16.ofNat v)
  | .u32 => tryUnsigned 32 fun v => .u32 (UInt32.ofNat v)
  | .u64 => tryUnsigned 64 fun v => .u64 (UInt64.ofNat v)
  | _ => fun _ => none

/-- The integer of a raw value on the exact path: the carrier has to be that of the raw type. -/
def exactRaw (rawType : DataType) (raw : RawValue) : Option Int :=
  match rawType, raw with
  | .i8, .i64 v | .i16, .i64 v | .i32, .i64 v | .i64, .i64 v => some v.toInt
  | .u8, .u64 v | .u16, .u64 v | .u32, .u64 v | .u64, .u64 v => some v.toNat
  | _, _ => none

/-! ## Doubles -/

/-- `checked_to_semantic`: an integer type takes the nearest integer, if it is in range. -/
def checkedToSemantic (valueType : DataType) (semantic : UInt64) : Option Value :=
  if ¬Binary64.isFinite semantic then none
  else
    let rounded := Binary64.round semantic
    match valueType with
    | .i8 | .i16 | .i32 | .i64 =>
      (f64ToI64 rounded).bind fun v => exactIntSemantic valueType v.toInt
    | .u8 | .u16 | .u32 | .u64 =>
      (f64ToU64 rounded).bind fun v => exactIntSemantic valueType v.toNat
    | .f32 =>
      let narrowed := f64ToF32 semantic
      if isInfinite32 narrowed then none else some (.f32 narrowed)
    | .f64 => some (.f64 semantic)
    | _ => none

section

variable (fmt : DebugFmt) (showF64 : UInt64 → String)

/-- A conversion to a double that loses nothing, or the error. -/
def orLossy (text : String) : Option UInt64 → Except String UInt64
  | some f => .ok f
  | none => .error ("原始值 " ++ text ++ " 无法无损转换为 f64（禁止静默精度损失）")

/-- `numeric_raw_to_f64`: an integer raw type takes its own carrier only. -/
def numericRawToF64 (rawType : DataType) (raw : RawValue) : Except String UInt64 :=
  match rawType, raw with
  | .i8, .i64 v | .i16, .i64 v | .i32, .i64 v | .i64, .i64 v | .f32, .i64 v | .f64, .i64 v =>
    orLossy (toString v.toInt) (i64LosslessToF64 v)
  | .u8, .u64 v | .u16, .u64 v | .u32, .u64 v | .u64, .u64 v | .f32, .u64 v | .f64, .u64 v =>
    orLossy (toString v.toNat) (u64LosslessToF64 v)
  | .f32, .f64 v | .f64, .f64 v => .ok v
  | _, _ =>
    .error ("原始值 " ++ fmt.rawValue raw ++ " 与 raw_type " ++ fmt.dataType rawType ++
      " 家族不匹配")

/-! ## Reads -/

/-- A property of numbers. -/
def decodeNumeric (property : ProfileProperty) (raw : RawValue) : Except String Value :=
  let exact :=
    if Binary64.eq property.scale (Binary64.ofInt 1) ∧
      Binary64.eq property.offset (Binary64.ofInt 0) ∧ isIntegerType property.valueType then
      exactRaw property.rawType raw
    else none
  match exact with
  | some v =>
    match exactIntSemantic property.valueType v with
    | some value => .ok value
    | none =>
      .error ("原始值 " ++ fmt.rawValue raw ++ " 无法无损转换为 " ++
        fmt.dataType property.valueType)
  | none => do
    let rawNum ← numericRawToF64 fmt property.rawType raw
    let semantic := Binary64.add (Binary64.mul rawNum property.scale) property.offset
    match checkedToSemantic property.valueType semantic with
    | some value => .ok value
    | none =>
      .error ("语义值 " ++ showF64 semantic ++ " 无法无损转换为 " ++
        fmt.dataType property.valueType)

/-- The semantic value of a raw one. -/
def decodeValue (property : ProfileProperty) (raw : RawValue) : Except String Value :=
  match property.rawType, property.valueType with
  | .bool, .bool =>
    match raw with
    | .bool b => .ok (.bool b)
    | _ => .error "原始值不是 Bool"
  | .string, .string =>
    match raw with
    | .string s => .ok (.string s)
    | _ => .error "原始值不是 String"
  | .bytes, .bytes =>
    match raw with
    | .bytes b => .ok (.bytes b)
    | _ => .error "原始值不是 Bytes"
  | rawType, valueType =>
    if isNumeric rawType ∧ isNumeric valueType then decodeNumeric fmt showF64 property raw
    else .error "raw_type/value_type 不支持标量转换（校验阶段应已拦截）"

/-- A result without a value. -/
def badResult (result : RawReadResult) (reason : QualityReason) (message : String) :
    DecodedRead where
  value := none
  quality :=
    { level := .bad, reason, protocolCode := result.protocolQualityCode, message := some message }

/-- The value and the quality of a result. -/
def decodeRead (property : ProfileProperty) (result : RawReadResult) : DecodedRead :=
  match result.error, result.value with
  | some error, _ =>
    { value := none
      quality :=
        { level := .bad
          reason := .protocolError
          protocolCode := error.protocolCode.or result.protocolQualityCode
          message := some error.message } }
  | none, none => badResult result .protocolError "设备无返回值"
  | none, some raw =>
    match decodeValue fmt showF64 property raw with
    | .ok value =>
      { value := some value
        quality :=
          { level := .good
            reason := .none
            protocolCode := result.protocolQualityCode
            message := none } }
    | .error message => badResult result .configurationError message

end

/-! ## What was written -/

variable {t : DataType} {property : ProfileProperty} {raw : RawValue}

/-- The integers of a type. -/
def InType (t : DataType) (v : Int) : Prop :=
  match intBits t with
  | some (true, w) => -2 ^ (w - 1) ≤ v ∧ v < 2 ^ (w - 1)
  | some (false, w) => 0 ≤ v ∧ v < 2 ^ w
  | none => False

/-- A 64-bit integer as a semantic value. -/
def Wide : Value → Int → Prop
  | .i64 v, x => v.toInt = x
  | .u64 v, x => v.toNat = x
  | _, _ => False

theorem isNumeric_of_integer (integer : isIntegerType t = true) : isNumeric t = true := by
  cases t with
  | i8 | i16 | i32 | i64 | u8 | u16 | u32 | u64 => rfl
  | bool | f32 | f64 | string | bytes | array _ | struct _ => cases integer

/-- An integer type takes its own integers, unchanged. -/
theorem exactIntSemantic_of_inType {v : Int} (inside : InType t v) :
    ∃ w, exactIntSemantic t v = some w ∧ integerValueToI128 w = some v := by
  cases t with
  | i8 => exact ⟨_, if_pos inside, congrArg some (Int8.toInt_ofInt_of_le inside.1 inside.2)⟩
  | i16 => exact ⟨_, if_pos inside, congrArg some (Int16.toInt_ofInt_of_le inside.1 inside.2)⟩
  | i32 => exact ⟨_, if_pos inside, congrArg some (Int32.toInt_ofInt_of_le inside.1 inside.2)⟩
  | i64 => exact ⟨_, if_pos inside, congrArg some (Int64.toInt_ofInt_of_le inside.1 inside.2)⟩
  | u8 | u16 | u32 | u64 =>
    have bounds : 0 ≤ v ∧ v < _ := inside
    refine ⟨_, if_pos inside, congrArg some ?_⟩
    simp only [UInt8.toNat_ofNat', UInt16.toNat_ofNat', UInt32.toNat_ofNat', UInt64.toNat_ofNat']
    omega
  | bool | f32 | f64 | string | bytes | array _ | struct _ => cases inside

theorem inType_of_exactIntSemantic {v : Int} {w : Value}
    (semantic : exactIntSemantic t v = some w) : InType t v := by
  cases t with
  | i8 | i16 | i32 | i64 | u8 | u16 | u32 | u64 =>
    by_contra outside
    exact absurd ((if_neg outside).symm.trans semantic) nofun
  | bool | f32 | f64 | string | bytes | array _ | struct _ => cases semantic

theorem exactSigned_eq_ok {w : Nat} (bits : intBits t = some (true, w)) {x : Int}
    (encoded : exactSigned property w x = .ok raw) : ∃ v : Int64, raw = .i64 v ∧ v.toInt = x := by
  unfold exactSigned at encoded
  split at encoded
  next inside =>
    cases encoded
    refine ⟨_, rfl, ?_⟩
    rcases intBits_cases bits with rfl | rfl | rfl | rfl
    all_goals exact Int64.toInt_ofInt_of_le (by omega) (by omega)
  next => cases encoded

theorem exactUnsigned_eq_ok {w : Nat} (bits : intBits t = some (false, w)) {x : Int}
    (encoded : exactUnsigned property w x = .ok raw) :
    ∃ v : UInt64, raw = .u64 v ∧ v.toNat = x := by
  unfold exactUnsigned at encoded
  split at encoded
  next inside =>
    cases encoded
    refine ⟨_, rfl, ?_⟩
    rw [UInt64.toNat_ofNat']
    rcases intBits_cases bits with rfl | rfl | rfl | rfl
    all_goals omega
  next => cases encoded

/-- The exact path writes the integer itself. -/
theorem exactRaw_of_encodeExactInt {x : Int} (integer : isIntegerType property.rawType = true)
    (encoded : encodeExactInt property x = .ok raw) : exactRaw property.rawType raw = some x := by
  unfold encodeExactInt at encoded
  obtain ⟨_, _, encoded⟩ := bind_eq_ok.mp encoded
  split at encoded
  case h_1 type | h_2 type | h_3 type | h_4 type =>
    obtain ⟨v, rfl, rfl⟩ := exactSigned_eq_ok (congrArg intBits type) encoded
    rw [type]
    rfl
  case h_5 type | h_6 type | h_7 type | h_8 type =>
    obtain ⟨v, rfl, rfl⟩ := exactUnsigned_eq_ok (congrArg intBits type) encoded
    rw [type]
    rfl
  case h_9 type | h_10 type =>
    rw [type] at integer
    cases integer
  next => cases encoded

/-- A value of an integer property is a number. -/
theorem encodeWrite_integer {semantic : Value} (writable : property.writable = true)
    (integer : isIntegerType property.valueType = true) :
    encodeWrite property semantic = encodeNumeric property semantic := by
  unfold encodeWrite
  rw [if_neg (not_not.mpr writable)]
  revert integer
  cases property.valueType with
  | i8 | i16 | i32 | i64 | u8 | u16 | u32 | u64 => exact fun _ => rfl
  | bool | string | bytes | f32 | f64 | array _ | struct _ => exact fun integer => by cases integer

section

variable {property : ProfileProperty} {semantic : Value} {x : Int} {raw : RawValue}
  (scale : Binary64.eq property.scale (Binary64.ofInt 1) = true)
  (offset : Binary64.eq property.offset (Binary64.ofInt 0) = true)
  (rawInteger : isIntegerType property.rawType = true)
  (valueInteger : isIntegerType property.valueType = true)

include scale offset valueInteger

/-- Under the identity transform a 64-bit integer takes the exact path. -/
theorem encodeExactInt_of_encodeWrite (wide : Wide semantic x)
    (encoded : encodeWrite property semantic = .ok raw) :
    encodeExactInt property x = .ok raw := by
  have writable : property.writable = true := by
    by_contra fixed
    unfold encodeWrite at encoded
    rw [if_pos fixed] at encoded
    cases encoded
  rw [encodeWrite_integer writable valueInteger] at encoded
  unfold encodeNumeric at encoded
  rw [if_pos ⟨scale, offset⟩] at encoded
  cases semantic with
  | i64 v | u64 v =>
    cases wide
    exact encoded
  | bool _ | i8 _ | i16 _ | i32 _ | u8 _ | u16 _ | u32 _ | f32 _ | f64 _ | string _ | bytes _
  | array _ | struct _ => cases wide

include rawInteger

/-- A raw integer is decoded by the value type alone. -/
theorem decodeValue_exact (fmt : DebugFmt) (showF64 : UInt64 → String)
    (exact : exactRaw property.rawType raw = some x) {w : Value} :
    decodeValue fmt showF64 property raw = .ok w ↔
      exactIntSemantic property.valueType x = some w := by
  have path : decodeValue fmt showF64 property raw = decodeNumeric fmt showF64 property raw := by
    unfold decodeValue
    have numeric := isNumeric_of_integer rawInteger
    have numeric' := isNumeric_of_integer valueInteger
    revert rawInteger
    split
    case h_1 type _ | h_2 type _ | h_3 type _ =>
      rw [type]
      exact fun integer => by cases integer
    next => exact fun _ => if_pos ⟨numeric, numeric'⟩
  rw [path, decodeNumeric, if_pos ⟨scale, offset, valueInteger⟩, exact]
  dsimp only
  split
  next value semantic => rw [semantic, Except.ok.injEq, Option.some.injEq]
  next none => exact iff_of_false nofun (by rw [none]; exact nofun)

end

/-- A 64-bit integer that was written under the identity transform is read back with good quality
exactly when the value type of the property holds it. -/
theorem decodeRead_encodeWrite_iff {property : ProfileProperty} {semantic : Value} {x : Int}
    {raw : RawValue} {result : RawReadResult} (fmt : DebugFmt) (showF64 : UInt64 → String)
    (scale : Binary64.eq property.scale (Binary64.ofInt 1) = true)
    (offset : Binary64.eq property.offset (Binary64.ofInt 0) = true)
    (rawInteger : isIntegerType property.rawType = true)
    (valueInteger : isIntegerType property.valueType = true) (wide : Wide semantic x)
    (encoded : encodeWrite property semantic = .ok raw) (read : result.value = some raw)
    (sound : result.error = none) :
    ((decodeRead fmt showF64 property result).quality.level = .good ∧
      ∃ w, (decodeRead fmt showF64 property result).value = some w ∧
        integerValueToI128 w = some x) ↔ InType property.valueType x := by
  have exact := exactRaw_of_encodeExactInt rawInteger
    (encodeExactInt_of_encodeWrite scale offset valueInteger wide encoded)
  have decoded := fun w => decodeValue_exact scale offset rawInteger valueInteger fmt showF64
    exact (w := w)
  unfold decodeRead
  rw [sound, read]
  dsimp only
  constructor
  · rintro ⟨good, w, value, _⟩
    split at value
    next w' ok => exact inType_of_exactIntSemantic ((decoded w').mp ok)
    next => cases value
  · intro inside
    obtain ⟨w, semantic, number⟩ := exactIntSemantic_of_inType inside
    rw [(decoded w).mpr semantic]
    exact ⟨rfl, w, rfl, number⟩

/-- A property under the identity transform, without bounds. -/
def plainProperty (rawType valueType : DataType) : ProfileProperty where
  driverAddress := "D0"
  rawType
  valueType
  scale := Binary64.ofInt 1
  offset := Binary64.ofInt 0
  writeRounding := .exact
  writable := true
  min := none
  max := none

theorem encodeWrite_plain {valueType : DataType} (integer : isIntegerType valueType = true) :
    encodeWrite (plainProperty .i64 valueType) (.i64 1000) = .ok (.i64 1000) := by
  have one : Binary64.eq (Binary64.ofInt 1) (Binary64.ofInt 1) = true := by decide +kernel
  have zero : Binary64.eq (Binary64.ofInt 0) (Binary64.ofInt 0) = true := by decide +kernel
  rw [encodeWrite_integer rfl integer]
  unfold encodeNumeric
  rw [if_pos ⟨one, zero⟩]
  rfl

/-- `1000` is read back from a property of 16-bit values. -/
theorem decodeRead_encodeWrite_i16 :
    (decodeRead ⟨id, fun _ => "", fun _ => ""⟩ (fun _ => "") (plainProperty .i64 .i16)
      (RawReadResult.good 1 (.i64 1000))).quality.level = .good := by
  have written : encodeWrite (plainProperty .i64 .i16) (.i64 1000) = .ok (.i64 1000) :=
    encodeWrite_plain rfl
  refine ((decodeRead_encodeWrite_iff (x := 1000) _ _ (by decide +kernel) (by decide +kernel) rfl
    rfl ?_ written rfl rfl).mpr ?_).1
  · exact (by decide : (1000 : Int64).toInt = 1000)
  · exact (by decide : (-2 ^ 15 : Int) ≤ 1000 ∧ (1000 : Int) < 2 ^ 15)

/-- It is written to a property of 8-bit values as well, and is not read back. -/
theorem decodeRead_rejects_written :
    encodeWrite (plainProperty .i64 .i8) (.i64 1000) = .ok (.i64 1000) ∧
      ∀ fmt showF64, (decodeRead fmt showF64 (plainProperty .i64 .i8)
        (RawReadResult.good 1 (.i64 1000))).quality.level = .bad := by
  refine ⟨encodeWrite_plain rfl, fun fmt showF64 => ?_⟩
  have decoded : ∀ w, decodeValue fmt showF64 (plainProperty .i64 .i8) (.i64 1000) = .ok w ↔
      exactIntSemantic .i8 1000 = some w := fun w =>
    decodeValue_exact (by decide +kernel) (by decide +kernel) rfl rfl fmt showF64 rfl
  have outside : exactIntSemantic .i8 1000 = none := rfl
  unfold decodeRead RawReadResult.good
  dsimp only
  split
  next w ok => cases outside.symm.trans ((decoded w).mp ok)
  next => rfl

end ForgeLink.Profile
