import ForgeLink.Lib.Lines
import Mathlib.Algebra.Ring.Int.Defs
import Mathlib.Data.Nat.Log
import Mathlib.Data.UInt

/-!
# The driver ABI

`observation-model` and `driver-contract`: raw values, the items and the results
of batch reads and writes, and the error a driver reports.  `driver-abi`: the
type tags, and how a scalar crosses the ABI as bytes (`tag.rs`).  Floating-point
numbers are their bit patterns.
-/

namespace ForgeLink.Drivers

open Lib

/-! ## Items and results -/

/-- `RawValue`; an `f64` is its bit pattern. -/
inductive RawValue where
  | bool (b : Bool)
  | i64 (v : Int64)
  | u64 (v : UInt64)
  | f64 (bits : UInt64)
  | string (s : String)
  | bytes (bs : Bytes)
  | array (items : List RawValue)
  | struct (fields : List (String × RawValue))

/-- The name of the variant, as the messages of the drivers have it. -/
def typeName : RawValue → String
  | .bool _ => "Bool"
  | .i64 _ => "I64"
  | .u64 _ => "U64"
  | .f64 _ => "F64"
  | .string _ => "String"
  | .bytes _ => "Bytes"
  | .array _ => "Array"
  | .struct _ => "Struct"

/-- `DataType`; a field of a struct is a name and a type. -/
inductive DataType where
  | bool
  | i8
  | i16
  | i32
  | i64
  | u8
  | u16
  | u32
  | u64
  | f32
  | f64
  | string
  | bytes
  | array (element : DataType)
  | struct (fields : List (String × DataType))

/-- The `{:?}` form of the values that occur in messages. -/
structure DebugFmt where
  string : String → String
  dataType : DataType → String
  rawValue : RawValue → String

/-- `DriverReadItem`. -/
structure DriverReadItem where
  id : Nat
  address : String
  expectedType : Option DataType

/-- `DriverWriteItem`. -/
structure DriverWriteItem where
  id : Nat
  address : String
  value : RawValue

/-- `DriverErrorInfo`; the error types of the drivers have the same fields. -/
structure DriverErrorInfo where
  code : String
  message : String
  protocolCode : Option Int
  retryable : Bool
deriving DecidableEq, Repr

/-- `RawWriteResult`. -/
structure RawWriteResult where
  itemId : Nat
  success : Bool
  protocolCode : Option Int
  error : Option DriverErrorInfo
deriving DecidableEq, Repr

/-- `RawReadResult`, without its two time stamps. -/
structure RawReadResult where
  itemId : Nat
  value : Option RawValue
  protocolQualityCode : Option Int
  error : Option DriverErrorInfo

/-- A result with a value. -/
def RawReadResult.good (itemId : Nat) (value : RawValue) : RawReadResult :=
  { itemId, value := some value, protocolQualityCode := some 0, error := none }

/-- `error_result_with_ts` and `read_error_result`. -/
def RawReadResult.failed (itemId : Nat) (e : DriverErrorInfo) : RawReadResult :=
  { itemId, value := none, protocolQualityCode := e.protocolCode, error := some e }

/-- `write_error_result`. -/
def RawWriteResult.failed (itemId : Nat) (e : DriverErrorInfo) : RawWriteResult :=
  { itemId, success := false, protocolCode := e.protocolCode, error := some e }

/-! ## Bytes of numbers -/

/-- The `n` low bytes of a number, least significant first. -/
def leBytes (n x : Nat) : Bytes := (List.range n).map fun i => UInt8.ofNat (x >>> (8 * i))

/-- The `n` low bytes of a number, most significant first. -/
def beBytes (n x : Nat) : Bytes := (leBytes n x).reverse

/-- The number that bytes spell, least significant first. -/
def ofLeBytes : Bytes → Nat
  | [] => 0
  | b :: bs => b.toNat + 256 * ofLeBytes bs

/-- The number that bytes spell, most significant first. -/
def ofBeBytes (bs : Bytes) : Nat := ofLeBytes bs.reverse

/-- The two's complement reading of a number of `w` bits. -/
def toSigned (w n : Nat) : Int := if n < 2 ^ (w - 1) then n else (n : Int) - 2 ^ w

/-! ## Conversions between `f32` and `f64` -/

/-- `m >> k`, rounded to the nearest, ties to even. -/
def roundShift (m k : Nat) : Nat :=
  let q := m >>> k
  let r := m % 2 ^ k
  if 2 * r > 2 ^ k ∨ (2 * r = 2 ^ k ∧ q % 2 = 1) then q + 1 else q

/-- `x as f32`, on bit patterns. -/
def f64ToF32 (x : UInt64) : UInt32 :=
  let bits := x.toNat
  let sign := (bits >>> 63) * 2 ^ 31
  let exponent := bits >>> 52 % 2 ^ 11
  let fraction := bits % 2 ^ 52
  if exponent = 2047 then
    if fraction = 0 then UInt32.ofNat (sign + 0x7F800000)
    else UInt32.ofNat (sign + (0x7FC00000 ||| fraction >>> 29))
  else
    -- the value is `m * 2 ^ e`; the last place of the result is worth `2 ^ q`
    let m := if exponent = 0 then fraction else 2 ^ 52 + fraction
    let e : Int := if exponent = 0 then -1074 else (exponent : Int) - 1075
    let q : Int := max ((Nat.log2 m : Int) + e - 23) (-149)
    let r := if q ≥ e then roundShift m (q - e).toNat else m <<< (e - q).toNat
    UInt32.ofNat (sign + min ((q + 149).toNat * 2 ^ 23 + r) 0x7F800000)

/-- `is_nan` of an `f32`. -/
def isNan32 (x : UInt32) : Bool := x.toNat % 2 ^ 31 > 0x7F800000

/-- `is_finite` of an `f32`. -/
def isFinite32 (x : UInt32) : Bool := x.toNat % 2 ^ 31 < 0x7F800000

/-- `f64::from(x)`, on bit patterns. -/
def f32ToF64 (x : UInt32) : UInt64 :=
  let bits := x.toNat
  let sign := (bits >>> 31) * 2 ^ 63
  let exponent := bits >>> 23 % 2 ^ 8
  let fraction := bits % 2 ^ 23
  if exponent = 255 then
    if fraction = 0 then UInt64.ofNat (sign + 2047 * 2 ^ 52)
    else UInt64.ofNat (sign + (2047 * 2 ^ 52 ||| 2 ^ 51 ||| fraction <<< 29))
  else if exponent = 0 then
    if fraction = 0 then UInt64.ofNat sign
    else
      -- a subnormal number has its leading one at position `k`
      let k := Nat.log2 fraction
      UInt64.ofNat (sign + (k + 874) * 2 ^ 52 + (fraction - 2 ^ k) <<< (52 - k))
  else UInt64.ofNat (sign + (exponent + 896) * 2 ^ 52 + fraction <<< 29)

/-- `is_finite` of an `f64`. -/
def isFinite64 (x : UInt64) : Bool := x.toNat >>> 52 % 2 ^ 11 ≠ 2047

/-- `is_infinite` of an `f32`. -/
def isInfinite32 (x : UInt32) : Bool := x.toNat % 2 ^ 31 = 0x7F800000

/-! ## Type tags -/

/-- The type tags of the ABI. -/
inductive TypeTag where
  | bool
  | i8
  | i16
  | i32
  | i64
  | u8
  | u16
  | u32
  | u64
  | f32
  | f64
  | string
  | bytes
  | array
  | struct
deriving DecidableEq, Repr

/-- `TypeTag as u32`. -/
def TypeTag.toU32 : TypeTag → UInt32
  | .bool => 1
  | .i8 => 2
  | .i16 => 3
  | .i32 => 4
  | .i64 => 5
  | .u8 => 6
  | .u16 => 7
  | .u32 => 8
  | .u64 => 9
  | .f32 => 10
  | .f64 => 11
  | .string => 12
  | .bytes => 13
  | .array => 14
  | .struct => 15

/-- The `{:?}` form. -/
def TypeTag.debug : TypeTag → String
  | .bool => "Bool"
  | .i8 => "I8"
  | .i16 => "I16"
  | .i32 => "I32"
  | .i64 => "I64"
  | .u8 => "U8"
  | .u16 => "U16"
  | .u32 => "U32"
  | .u64 => "U64"
  | .f32 => "F32"
  | .f64 => "F64"
  | .string => "String"
  | .bytes => "Bytes"
  | .array => "Array"
  | .struct => "Struct"

/-- `TagError`. -/
inductive TagError where
  | unknownTag (tag : UInt32)
  | typeMismatch (tag : UInt32)
  | complexTypeNotEncodable
  | invalidLength (tag : UInt32) (expected actual : Nat)
  | invalidBool (byte : UInt8)
  | outOfRange (tag : UInt32)
  | invalidUtf8
deriving DecidableEq, Repr

/-- A number in hexadecimal with `width` digits. -/
def hexDigits (width n : Nat) : String :=
  let digits := Nat.toDigits 16 n
  String.ofList (List.replicate (width - digits.length) '0' ++ digits)

/-- `{:#04x}` of a byte. -/
def hex8 (b : UInt8) : String := "0x" ++ hexDigits 2 b.toNat

/-- `TagError` as text. -/
def TagError.text : TagError → String
  | .unknownTag tag => s!"未知 ABI 类型 Tag: {tag}"
  | .typeMismatch tag => s!"值变体与 Tag {tag} 不匹配"
  | .complexTypeNotEncodable =>
    "复杂类型(Array/Struct)不允许写入 value_bytes（§17.2 标量编码，ABI v1 无复杂写入通道）"
  | .invalidLength tag expected actual => s!"Tag {tag} 需要 {expected} 字节，实际 {actual} 字节"
  | .invalidBool byte => "Bool 字节必须为 0/1，实际 " ++ hex8 byte
  | .outOfRange tag => s!"数值超出 Tag {tag} 的范围"
  | .invalidUtf8 => "String 编码不是合法 UTF-8"

/-- The tag of a number. -/
def TypeTag.tryFrom (value : UInt32) : Except TagError TypeTag :=
  let all : List TypeTag :=
    [.bool, .i8, .i16, .i32, .i64, .u8, .u16, .u32, .u64, .f32, .f64, .string, .bytes, .array,
      .struct]
  match all.find? fun tag => tag.toU32 = value with
  | some tag => .ok tag
  | none => .error (.unknownTag value)

/-- The bytes of a tag have one length. -/
def exactLen (tag : TypeTag) (expected : Nat) (bytes : Bytes) : Except TagError Unit :=
  if bytes.length = expected then .ok ()
  else .error (.invalidLength tag.toU32 expected bytes.length)

/-- An `i64` as an integer of `n` bytes. -/
def encodeSigned (tag : TypeTag) (n : Nat) (v : Int64) : Except TagError Bytes :=
  if -2 ^ (8 * n - 1) ≤ v.toInt ∧ v.toInt < 2 ^ (8 * n - 1) then .ok (leBytes n v.toUInt64.toNat)
  else .error (.outOfRange tag.toU32)

/-- A `u64` as an integer of `n` bytes. -/
def encodeUnsigned (tag : TypeTag) (n : Nat) (v : UInt64) : Except TagError Bytes :=
  if v.toNat < 2 ^ (8 * n) then .ok (leBytes n v.toNat) else .error (.outOfRange tag.toU32)

/-- A value as the bytes of a tag. -/
def encodeValueBytes (tag : UInt32) (value : RawValue) : Except TagError Bytes := do
  let tag ← TypeTag.tryFrom tag
  match tag, value with
  | .bool, .bool b => .ok [if b then 1 else 0]
  | .i8, .i64 v => encodeSigned tag 1 v
  | .i16, .i64 v => encodeSigned tag 2 v
  | .i32, .i64 v => encodeSigned tag 4 v
  | .i64, .i64 v => .ok (leBytes 8 v.toUInt64.toNat)
  | .u8, .u64 v => encodeUnsigned tag 1 v
  | .u16, .u64 v => encodeUnsigned tag 2 v
  | .u32, .u64 v => encodeUnsigned tag 4 v
  | .u64, .u64 v => .ok (leBytes 8 v.toNat)
  | .f32, .f64 v =>
    if isFinite64 v ∧ isInfinite32 (f64ToF32 v) then .error (.outOfRange tag.toU32)
    else .ok (leBytes 4 (f64ToF32 v).toNat)
  | .f64, .f64 v => .ok (leBytes 8 v.toNat)
  | .string, .string s => .ok s.toUTF8.data.toList
  | .bytes, .bytes bs => .ok bs
  | .array, _ => .error .complexTypeNotEncodable
  | .struct, _ => .error .complexTypeNotEncodable
  | _, _ => .error (.typeMismatch tag.toU32)

/-- Bytes that were checked to be `n`, as a signed integer. -/
def decodeSigned (tag : TypeTag) (n : Nat) (bytes : Bytes) : Except TagError RawValue := do
  exactLen tag n bytes
  .ok (.i64 (Int64.ofInt (toSigned (8 * n) (ofLeBytes bytes))))

/-- Bytes that were checked to be `n`, as an unsigned integer. -/
def decodeUnsigned (tag : TypeTag) (n : Nat) (bytes : Bytes) : Except TagError RawValue := do
  exactLen tag n bytes
  .ok (.u64 (UInt64.ofNat (ofLeBytes bytes)))

/-- The value that the bytes of a tag hold. -/
def decodeValueBytes (tag : UInt32) (bytes : Bytes) : Except TagError RawValue := do
  let tag ← TypeTag.tryFrom tag
  match tag with
  | .bool =>
    exactLen tag 1 bytes
    match bytes with
    | [0] => .ok (.bool false)
    | [1] => .ok (.bool true)
    | b :: _ => .error (.invalidBool b)
    | [] => .error (.invalidLength tag.toU32 1 0)
  | .i8 => decodeSigned tag 1 bytes
  | .i16 => decodeSigned tag 2 bytes
  | .i32 => decodeSigned tag 4 bytes
  | .i64 => decodeSigned tag 8 bytes
  | .u8 => decodeUnsigned tag 1 bytes
  | .u16 => decodeUnsigned tag 2 bytes
  | .u32 => decodeUnsigned tag 4 bytes
  | .u64 => decodeUnsigned tag 8 bytes
  | .f32 =>
    exactLen tag 4 bytes
    .ok (.f64 (f32ToF64 (UInt32.ofNat (ofLeBytes bytes))))
  | .f64 =>
    exactLen tag 8 bytes
    .ok (.f64 (UInt64.ofNat (ofLeBytes bytes)))
  | .string =>
    match String.fromUTF8? ⟨bytes.toArray⟩ with
    | some s => .ok (.string s)
    | none => .error .invalidUtf8
  | .bytes => .ok (.bytes bytes)
  | .array => .error .complexTypeNotEncodable
  | .struct => .error .complexTypeNotEncodable

end ForgeLink.Drivers
