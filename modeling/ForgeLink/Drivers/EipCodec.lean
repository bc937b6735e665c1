import ForgeLink.Drivers.Replies

/-!
# The scalar codec of EtherNet/IP

`encode.rs`, `decode.rs` and the type table of `cip.rs`.  The type code that the
device reports decides the width and the sign.  The decoder undoes the encoder
but for two gaps: `type_width` does not know UDINT, which the encoder takes for
known, and without an expected type a large ULINT counts as one that does not fit
the signed carrier.
-/

namespace ForgeLink.Drivers.EthernetIp

open Lib

variable {w : Nat} {p : Bytes}

/-! ## The codec -/

/-- The bytes of a scalar type. -/
def typeWidth (typeCode : UInt16) : Option Nat :=
  if typeCode = 0xC1 ∨ typeCode = 0xC2 ∨ typeCode = 0xC6 then some 1
  else if typeCode = 0xC3 ∨ typeCode = 0xC7 then some 2
  else if typeCode = 0xC4 ∨ typeCode = 0xCA then some 4
  else if typeCode = 0xC5 ∨ typeCode = 0xC9 ∨ typeCode = 0xCB then some 8
  else none

/-- The check `fits` of `narrow_signed`. -/
def fitsSigned (v : Int64) (width : Nat) : Bool :=
  if width = 1 then -128 ≤ v.toInt && v.toInt ≤ 127
  else if width = 2 then -32768 ≤ v.toInt && v.toInt ≤ 32767
  else if width = 4 then -2147483648 ≤ v.toInt && v.toInt ≤ 2147483647
  else true

/-- The low bytes of a signed number that fits. -/
def narrowSigned (v : Int64) (width : Nat) : Except Stop Bytes :=
  if fitsSigned v width then slice (leBytes 8 v.toUInt64.toNat) 0 width
  else .error (.error (.invalidType s!"值 {v} 超出 {width} 字节有符号目标域（禁止静默截断）"))

/-- The check `fits` of `narrow_unsigned`. -/
def fitsUnsigned (v : UInt64) (width : Nat) : Bool :=
  if width = 1 then v.toNat ≤ 255
  else if width = 2 then v.toNat ≤ 65535
  else if width = 4 then v.toNat ≤ 4294967295
  else true

/-- The low bytes of an unsigned number that fits. -/
def narrowUnsigned (v : UInt64) (width : Nat) : Except Stop Bytes :=
  if fitsUnsigned v width then slice (leBytes 8 v.toNat) 0 width
  else .error (.error (.invalidType s!"值 {v} 超出 {width} 字节无符号目标域（禁止静默截断）"))

/-- `encode_write`; `showF64` is a double as a message has it. -/
def encodeWrite (showF64 : UInt64 → String) (typeCode : UInt16) (value : RawValue) :
    Except Stop Bytes :=
  let refused : Except Stop Bytes :=
    .error (.error (.invalidType ("设备类型码 " ++ hex16 typeCode ++ " 不接受值类型 " ++
      typeName value ++ "（映射表见模块文档）")))
  match value with
  | .bool b => if typeCode = 0xC1 then .ok [if b then 1 else 0] else refused
  | .i64 v =>
    if typeCode = 0xC2 ∨ typeCode = 0xC3 ∨ typeCode = 0xC4 ∨ typeCode = 0xC5 then
      match typeWidth typeCode with
      | some width => narrowSigned v width
      | none => .error .panic
    else refused
  | .u64 v =>
    if typeCode = 0xC6 ∨ typeCode = 0xC7 ∨ typeCode = 0xC8 ∨ typeCode = 0xC9 then
      match typeWidth typeCode with
      | some width => narrowUnsigned v width
      | none => .error .panic
    else refused
  | .f64 v =>
    if typeCode = 0xCA then
      let narrowed := f64ToF32 v
      if ¬isNan32 narrowed ∧ ¬Binary64.eq (f32ToF64 narrowed) v then
        .error (.error (.invalidType ("F64 值 " ++ showF64 v ++ " 无法无损缩窄为 REAL(f32)")))
      else .ok (leBytes 4 narrowed.toNat)
    else if typeCode = 0xCB then .ok (leBytes 8 v.toNat)
    else refused
  | _ => refused

/-- The error for a type that was not expected. -/
def incompatible (fmt : DebugFmt) (typeCode : UInt16) (expected : DataType) : DriverErrorInfo :=
  .invalidType ("CIP 类型码 " ++ hex16 typeCode ++ " 与期望类型 " ++ fmt.dataType expected ++
    " 不兼容（映射表见模块文档）")

/-- The bytes of an integer type. -/
def intTypeWidth : DataType → Option Nat
  | .i8 | .u8 => some 1
  | .i16 | .u16 => some 2
  | .i32 | .u32 => some 4
  | .i64 | .u64 => some 8
  | _ => none

/-- `signed_or_unsigned`; `raw` is the number that the bytes of the buffer spell. -/
def signedOrUnsigned (fmt : DebugFmt) (typeCode : UInt16) (expected : Option DataType)
    (width raw : Nat) : Except DriverErrorInfo RawValue := do
  let wantSigned ←
    match expected with
    | none => .ok (decide (typeCode = 0xC2 ∨ typeCode = 0xC3 ∨ typeCode = 0xC4))
    | some dt =>
      match dt with
      | .i64 => .ok true
      | .u64 => .ok false
      | .i32 | .i16 | .i8 =>
        if intTypeWidth dt = some width then .ok true else .error (incompatible fmt typeCode dt)
      | .u32 | .u16 | .u8 =>
        if intTypeWidth dt = some width then .ok false else .error (incompatible fmt typeCode dt)
      | other => .error (incompatible fmt typeCode other)
  if width = 1 ∨ width = 2 ∨ width = 4 ∨ width = 8 then
    if wantSigned then .ok (.i64 (Int64.ofInt (toSigned (8 * width) raw)))
    else .ok (.u64 (UInt64.ofNat raw))
  else .error (incompatible fmt typeCode .u8)

/-- The value of a payload with a type code. -/
def decodeRead (fmt : DebugFmt) (typeCode : UInt16) (expected : Option DataType)
    (payload : Bytes) : Except DriverErrorInfo RawValue :=
  match typeWidth typeCode with
  | none => .error (.invalidType
      ("CIP 类型码 " ++ hex16 typeCode ++ " 为复杂或未知类型（V0.3 面向标量点位）"))
  | some width =>
    let length := payload.length
    let raw := ofLeBytes payload
    if length ≠ width then
      .error (.invalidResponse s!"载荷长度 {length} 与类型宽 {width} 不符")
    else if typeCode = 0xC1 then
      match expected with
      | none | some .bool => .ok (.bool (payload.getD 0 0 &&& 1 ≠ 0))
      | some other => .error (incompatible fmt typeCode other)
    else if typeCode = 0xC2 ∨ typeCode = 0xC6 ∨ typeCode = 0xC3 ∨ typeCode = 0xC7 ∨
        typeCode = 0xC4 ∨ typeCode = 0xC8 then
      signedOrUnsigned fmt typeCode expected width raw
    else if typeCode = 0xC5 ∨ typeCode = 0xC9 then
      let isI64Domain : Bool := match expected with | none | some .i64 => true | _ => false
      let isU64Expected : Bool := match expected with | none | some .u64 => true | _ => false
      if ¬isI64Domain ∧ ¬isU64Expected then
        .error (incompatible fmt typeCode (expected.getD .bool))
      else if typeCode = 0xC5 then .ok (.i64 (Int64.ofInt (toSigned 64 raw)))
      else if isI64Domain ∧ raw > 9223372036854775807 then
        .error (.invalidType s!"ULINT 值 {raw} 超出 I64 正域且期望为 I64")
      else .ok (.u64 (UInt64.ofNat raw))
    else if typeCode = 0xCA then
      match expected with
      | some .f32 | some .f64 | none => .ok (.f64 (f32ToF64 (UInt32.ofNat raw)))
      | some other => .error (incompatible fmt typeCode other)
    else if typeCode = 0xCB then
      match expected with
      | some .f64 | none => .ok (.f64 (UInt64.ofNat raw))
      | some other => .error (incompatible fmt typeCode other)
    else .error (.invalidType ("CIP 类型码 " ++ hex16 typeCode ++ " 未支持"))

/-- A double that is no number. -/
def isNanValue : RawValue → Bool
  | .f64 v => Binary64.isNan v
  | _ => false

/-! ## Integers -/

/-- The signed types and their widths. -/
def signedTypes : List (UInt16 × Nat) := [(0xC2, 1), (0xC3, 2), (0xC4, 4), (0xC5, 8)]

/-- The unsigned types whose width is known. -/
def unsignedTypes : List (UInt16 × Nat) := [(0xC6, 1), (0xC7, 2), (0xC9, 8)]

theorem leBytes_take {n : Nat} (le : w ≤ n) (x : Nat) : (leBytes n x).take w = leBytes w x := by
  rw [leBytes, ← List.map_take, List.take_range, Nat.min_eq_left le, leBytes]

theorem slice_leBytes (le : w ≤ 8) (x : Nat) : slice (leBytes 8 x) 0 w = .ok (leBytes w x) := by
  simp [slice, le, leBytes_take le]

section

variable (showF64 : UInt64 → String) (fmt : DebugFmt) {tc : UInt16}

theorem narrowSigned_ok {v : Int64} (width : w = 1 ∨ w = 2 ∨ w = 4 ∨ w = 8)
    (ok : narrowSigned v w = .ok p) :
    p = leBytes w v.toUInt64.toNat ∧ -2 ^ (8 * w - 1) ≤ v.toInt ∧ v.toInt < 2 ^ (8 * w - 1) := by
  have low := v.le_toInt
  have high := v.toInt_lt
  rw [narrowSigned, slice_leBytes (by omega)] at ok
  split at ok
  next fits =>
    cases ok
    rcases width with rfl | rfl | rfl | rfl
    all_goals
      simp [fitsSigned] at fits
      exact ⟨rfl, by omega⟩
  next => cases ok

theorem narrowUnsigned_ok {v : UInt64} (width : w = 1 ∨ w = 2 ∨ w = 4 ∨ w = 8)
    (ok : narrowUnsigned v w = .ok p) : p = leBytes w v.toNat ∧ v.toNat < 256 ^ w := by
  have high := v.toNat_lt
  rw [narrowUnsigned, slice_leBytes (by omega)] at ok
  split at ok
  next fits =>
    cases ok
    rcases width with rfl | rfl | rfl | rfl
    all_goals
      simp [fitsUnsigned] at fits
      exact ⟨rfl, by omega⟩
  next => cases ok

theorem signedTypes_spec (signed : (tc, w) ∈ signedTypes) :
    (w = 1 ∨ w = 2 ∨ w = 4 ∨ w = 8) ∧ typeWidth tc = some w ∧
      (∀ v, encodeWrite showF64 tc (.i64 v) = narrowSigned v w) ∧
      ∀ p : Bytes, p.length = w → decodeRead fmt tc none p =
        .ok (.i64 (Int64.ofInt (toSigned (8 * w) (ofLeBytes p)))) := by
  simp only [signedTypes, List.mem_cons, List.not_mem_nil, or_false, Prod.mk.injEq] at signed
  rcases signed with ⟨rfl, rfl⟩ | ⟨rfl, rfl⟩ | ⟨rfl, rfl⟩ | ⟨rfl, rfl⟩
  all_goals
    refine ⟨by decide, rfl, fun v => rfl, fun p len => ?_⟩
    unfold decodeRead
    exact if_neg (not_not.mpr len)

/-- What the unsigned types share. -/
theorem unsignedTypes_spec (unsigned : (tc, w) ∈ unsignedTypes) :
    (w = 1 ∨ w = 2 ∨ w = 4 ∨ w = 8) ∧ typeWidth tc = some w ∧
      (∀ v, encodeWrite showF64 tc (.u64 v) = narrowUnsigned v w) ∧
      ∀ p : Bytes, p.length = w → tc ≠ 0xC9 ∨ ofLeBytes p ≤ 9223372036854775807 →
        decodeRead fmt tc none p = .ok (.u64 (UInt64.ofNat (ofLeBytes p))) := by
  simp only [unsignedTypes, List.mem_cons, List.not_mem_nil, or_false, Prod.mk.injEq] at unsigned
  rcases unsigned with ⟨rfl, rfl⟩ | ⟨rfl, rfl⟩ | ⟨rfl, rfl⟩
  iterate 2
    · refine ⟨by decide, rfl, fun v => rfl, fun p len _ => ?_⟩
      unfold decodeRead
      exact if_neg (not_not.mpr len)
  · refine ⟨by decide, rfl, fun v => rfl, fun p len small => ?_⟩
    have small : ¬ofLeBytes p > 9223372036854775807 := by
      rcases small with other | small
      · exact absurd rfl other
      · omega
    simp [decodeRead, show typeWidth 0xC9 = some 8 from rfl, len, small]

theorem decodeRead_signed (signed : (tc, w) ∈ signedTypes) {v : Int64}
    (ok : encodeWrite showF64 tc (.i64 v) = .ok p) :
    typeWidth tc = some p.length ∧ decodeRead fmt tc none p = .ok (.i64 v) := by
  obtain ⟨width, known, encode, decode⟩ := signedTypes_spec showF64 fmt signed
  rw [encode] at ok
  obtain ⟨rfl, low, high⟩ := narrowSigned_ok width ok
  refine ⟨by rw [known, length_leBytes], ?_⟩
  have bits : 256 ^ w = 2 ^ (8 * w) := (pow_mul 2 8 w).symm
  rw [decode _ (length_leBytes ..), ofLeBytes_leBytes, bits,
    toSigned_of_range (by omega) low high, Int64.ofInt_toInt]

theorem decodeRead_unsigned (unsigned : (tc, w) ∈ unsignedTypes) {v : UInt64}
    (small : tc ≠ 0xC9 ∨ v.toNat ≤ 9223372036854775807)
    (ok : encodeWrite showF64 tc (.u64 v) = .ok p) :
    typeWidth tc = some p.length ∧ decodeRead fmt tc none p = .ok (.u64 v) := by
  obtain ⟨width, known, encode, decode⟩ := unsignedTypes_spec showF64 fmt unsigned
  rw [encode] at ok
  obtain ⟨rfl, lt⟩ := narrowUnsigned_ok width ok
  have number : ofLeBytes (leBytes w v.toNat) = v.toNat := by
    rw [ofLeBytes_leBytes, Nat.mod_eq_of_lt lt]
  refine ⟨by rw [known, length_leBytes], ?_⟩
  rw [decode _ (length_leBytes ..) (by rwa [number]), number, UInt64.ofNat_toNat]

end

/-! ## All types -/

section

variable (showF64 : UInt64 → String) (fmt : DebugFmt) {tc : UInt16}

/-- A double is read back from either float type, unless it is no number. -/
theorem decodeRead_float {v : UInt64} (ok : encodeWrite showF64 tc (.f64 v) = .ok p) :
    typeWidth tc = some p.length ∧
      (Binary64.isNan v = false → decodeRead fmt tc none p = .ok (.f64 v)) := by
  simp only [encodeWrite] at ok
  split at ok
  next eq =>
    subst eq
    split at ok
    next => cases ok
    next kept =>
      cases ok
      refine ⟨rfl, fun number => ?_⟩
      have lt := (f64ToF32 v).toNat_lt
      have bits : ofLeBytes (leBytes 4 (f64ToF32 v).toNat) = (f64ToF32 v).toNat := by
        rw [ofLeBytes_leBytes]
        exact Nat.mod_eq_of_lt lt
      simp [decodeRead, show typeWidth 0xCA = some 4 from rfl, bits, f32ToF64_of_kept number kept]
  next =>
    split at ok
    next eq =>
      subst eq
      cases ok
      refine ⟨rfl, fun _ => ?_⟩
      simp [decodeRead, show typeWidth 0xCB = some 8 from rfl, ofLeBytes_word v]
    next => cases ok

/-- What is encoded has the width of its type, and is read back. -/
theorem decodeRead_encodeWrite {v : RawValue}
    (small : ∀ n, tc = 0xC9 → v = .u64 n → n.toNat ≤ 9223372036854775807)
    (ok : encodeWrite showF64 tc v = .ok p) :
    typeWidth tc = some p.length ∧ (isNanValue v = false → decodeRead fmt tc none p = .ok v) := by
  cases v with
  | bool b =>
    simp only [encodeWrite] at ok
    split at ok
    next eq =>
      cases ok
      subst eq
      exact ⟨rfl, fun _ => by cases b <;> rfl⟩
    next => cases ok
  | i64 v =>
    by_cases signed : tc = 0xC2 ∨ tc = 0xC3 ∨ tc = 0xC4 ∨ tc = 0xC5
    · obtain ⟨w, signed⟩ : ∃ w, (tc, w) ∈ signedTypes := by
        rcases signed with rfl | rfl | rfl | rfl
        · exact ⟨1, by decide⟩
        · exact ⟨2, by decide⟩
        · exact ⟨4, by decide⟩
        · exact ⟨8, by decide⟩
      exact (decodeRead_signed showF64 fmt signed ok).imp_right fun read _ => read
    · simp only [encodeWrite, if_neg signed] at ok
      cases ok
  | u64 v =>
    by_cases unsigned : tc = 0xC6 ∨ tc = 0xC7 ∨ tc = 0xC9
    · obtain ⟨w, unsigned⟩ : ∃ w, (tc, w) ∈ unsignedTypes := by
        rcases unsigned with rfl | rfl | rfl
        · exact ⟨1, by decide⟩
        · exact ⟨2, by decide⟩
        · exact ⟨8, by decide⟩
      have small : tc ≠ 0xC9 ∨ v.toNat ≤ 9223372036854775807 := by
        by_cases wide : tc = 0xC9
        · exact .inr (small v wide rfl)
        · exact .inl wide
      exact (decodeRead_unsigned showF64 fmt unsigned small ok).imp_right fun read _ => read
    · by_cases unknown : tc = 0xC8
      · subst unknown
        cases ok
      · simp only [encodeWrite] at ok
        rw [if_neg (by tauto)] at ok
        cases ok
  | f64 v => exact decodeRead_float showF64 fmt ok
  | string _ | bytes _ | array _ | struct _ => cases ok

theorem narrowSigned_ne_panic (v : Int64) (le : w ≤ 8) : narrowSigned v w ≠ .error .panic := by
  rw [narrowSigned, slice_leBytes le]
  split <;> nofun

theorem narrowUnsigned_ne_panic (v : UInt64) (le : w ≤ 8) : narrowUnsigned v w ≠ .error .panic := by
  rw [narrowUnsigned, slice_leBytes le]
  split <;> nofun

theorem typeWidth_le (known : typeWidth tc = some w) : w ≤ 8 := by
  unfold typeWidth at known
  split at known
  · cases known
    decide
  split at known
  · cases known
    decide
  split at known
  · cases known
    decide
  split at known
  · cases known
    decide
  · cases known

/-- The encoder panics for just the values of UDINT. -/
theorem encodeWrite_panic_iff {v : RawValue} :
    encodeWrite showF64 tc v = .error .panic ↔ tc = 0xC8 ∧ ∃ n, v = .u64 n := by
  constructor
  · intro panics
    cases v with
    | bool b =>
      simp only [encodeWrite] at panics
      split at panics <;> cases panics
    | i64 v =>
      simp only [encodeWrite] at panics
      split at panics
      next signed =>
        split at panics
        next w known => exact absurd panics (narrowSigned_ne_panic v (typeWidth_le known))
        next unknown => rcases signed with rfl | rfl | rfl | rfl <;> cases unknown
      next => cases panics
    | u64 v =>
      simp only [encodeWrite] at panics
      split at panics
      next unsigned =>
        split at panics
        next w known => exact absurd panics (narrowUnsigned_ne_panic v (typeWidth_le known))
        next unknown =>
          rcases unsigned with rfl | rfl | rfl | rfl
          · cases unknown
          · cases unknown
          · exact ⟨rfl, v, rfl⟩
          · cases unknown
      next => cases panics
    | f64 v =>
      simp only [encodeWrite] at panics
      split at panics
      · split at panics <;> cases panics
      · split at panics <;> cases panics
    | string _ | bytes _ | array _ | struct _ => cases panics
  · rintro ⟨rfl, n, rfl⟩
    rfl

/-- The codec round-trips every value for every type code, but for the values of
UDINT, on which the encoder panics, and the values of ULINT that the signed carrier
does not hold, which are not read back. -/
theorem encodeWrite_decodeRead_iff (tc : UInt16) (v : RawValue) :
    (encodeWrite showF64 tc v ≠ .error .panic ∧ ∀ p, encodeWrite showF64 tc v = .ok p →
      typeWidth tc = some p.length ∧
        (isNanValue v = false → decodeRead fmt tc none p = .ok v)) ↔
      ∀ n, v = .u64 n → tc ≠ 0xC8 ∧ (tc = 0xC9 → n.toNat < 2 ^ 63) := by
  constructor
  · rintro ⟨total, inverse⟩ n rfl
    refine ⟨fun udint => total ((encodeWrite_panic_iff showF64).mpr ⟨udint, n, rfl⟩), ?_⟩
    rintro rfl
    by_contra large
    have bits := ofLeBytes_word n
    have large : n.toNat > 9223372036854775807 := by omega
    have read := (inverse (leBytes 8 n.toNat) rfl).2 rfl
    simp [decodeRead, show typeWidth 0xC9 = some 8 from rfl, bits, large] at read
  · intro small
    refine ⟨fun panics => ?_, fun p ok => decodeRead_encodeWrite showF64 fmt ?_ ok⟩
    · obtain ⟨udint, n, eq⟩ := (encodeWrite_panic_iff showF64).mp panics
      exact (small n eq).1 udint
    · intro n ulint eq
      exact Nat.le_of_lt_succ ((small n eq).2 ulint)

end

/-- A value of UDINT panics, and a large ULINT is encoded but not read back. -/
theorem encodeWrite_gaps :
    encodeWrite (fun _ => "") 0xC8 (.u64 1) = .error .panic ∧
      encodeWrite (fun _ => "") 0xC9 (.u64 0x8000000000000000) =
        .ok [0, 0, 0, 0, 0, 0, 0, 0x80] ∧
      decodeRead plainDebug 0xC9 none [0, 0, 0, 0, 0, 0, 0, 0x80] ≠
        .ok (.u64 0x8000000000000000) := by
  refine ⟨rfl, rfl, ?_⟩
  simp [decodeRead, show typeWidth 0xC9 = some 8 from rfl]

end ForgeLink.Drivers.EthernetIp
