import ForgeLink.Drivers.Numbers

/-!
# Scalars across the ABI

`encode_value_bytes` and `decode_value_bytes` are inverse to one another.  A single is
written from a double and loses what does not fit, so there only the bytes come back, and
only those of numbers: a NaN that signals is made quiet on the way.

The decoder indexes its bytes and converts them to arrays, behind a check of their length.
`Indexed.decodeValueBytes` is the decoder with these operations, and `none` is its panic;
the encoder has no operation that can panic.
-/

namespace ForgeLink.Drivers

open Lib

/-! ## Tags -/

variable {code : UInt32} {bytes : Bytes}
variable {tag : TypeTag} {n : Nat} {value : RawValue}

theorem tryFrom_toU32 (tag : TypeTag) : TypeTag.tryFrom tag.toU32 = .ok tag := by
  cases tag <;> rfl

theorem toU32_of_tryFrom (known : TypeTag.tryFrom code = .ok tag) : tag.toU32 = code := by
  simp only [TypeTag.tryFrom] at known
  split at known
  next found =>
    obtain rfl := Except.ok.inj known
    simpa using List.find?_some found
  next => cases known

/-- The bytes of a tag's scalar. -/
theorem tag_of_encode (ok : encodeValueBytes code value = .ok bytes) :
    ∃ tag : TypeTag, code = tag.toU32 := by
  unfold encodeValueBytes at ok
  cases known : TypeTag.tryFrom code with
  | error e =>
    rw [known] at ok
    cases ok
  | ok tag => exact ⟨tag, (toU32_of_tryFrom known).symm⟩

theorem tag_of_decode (ok : decodeValueBytes code bytes = .ok value) :
    ∃ tag : TypeTag, code = tag.toU32 := by
  unfold decodeValueBytes at ok
  cases known : TypeTag.tryFrom code with
  | error e =>
    rw [known] at ok
    cases ok
  | ok tag => exact ⟨tag, (toU32_of_tryFrom known).symm⟩

/-- A value behind a check of the length. -/
theorem exactLen_bind (tag : TypeTag) {read : RawValue} :
    ((exactLen tag n bytes).bind fun _ => .ok read) = .ok value ↔
      bytes.length = n ∧ read = value := by
  rw [exactLen]
  split
  next len => exact ⟨fun ok => ⟨len, Except.ok.inj ok⟩, fun ⟨_, eq⟩ => congrArg Except.ok eq⟩
  next len => exact iff_of_false (by rintro ⟨⟩) fun ⟨here, _⟩ => len here

/-! ## Integers -/

section
variable {bytes : Bytes}

theorem decodeSigned_of_encode {v : Int64} (width : n = 1 ∨ n = 2 ∨ n = 4 ∨ n = 8)
    (ok : encodeSigned tag n v = .ok bytes) : decodeSigned tag n bytes = .ok (.i64 v) := by
  rw [encodeSigned] at ok
  split at ok
  next range =>
    obtain rfl := Except.ok.inj ok
    refine (exactLen_bind tag).mpr ⟨length_leBytes .., congrArg RawValue.i64 ?_⟩
    rw [ofLeBytes_leBytes, show 256 = 2 ^ 8 from rfl, ← Nat.pow_mul,
      toSigned_of_range (by omega) range.1 range.2, Int64.ofInt_toInt]
  next => cases ok

theorem decodeUnsigned_of_encode {v : UInt64} (ok : encodeUnsigned tag n v = .ok bytes) :
    decodeUnsigned tag n bytes = .ok (.u64 v) := by
  rw [encodeUnsigned] at ok
  split at ok
  next small =>
    obtain rfl := Except.ok.inj ok
    rw [Nat.pow_mul] at small
    refine (exactLen_bind tag).mpr ⟨length_leBytes .., congrArg RawValue.u64 ?_⟩
    rw [ofLeBytes_leBytes, Nat.mod_eq_of_lt small, UInt64.ofNat_toNat]
  next => cases ok

/-- The number that bytes spell has their bits. -/
theorem ofLeBytes_lt_bits (len : bytes.length = n) : ofLeBytes bytes < 2 ^ (8 * n) := by
  rw [Nat.pow_mul, ← len]
  exact ofLeBytes_lt bytes

theorem encodeSigned_of_decode (width : n = 1 ∨ n = 2 ∨ n = 4 ∨ n = 8)
    (ok : decodeSigned tag n bytes = .ok value) :
    ∃ v, value = .i64 v ∧ encodeSigned tag n v = .ok bytes := by
  obtain ⟨len, rfl⟩ := (exactLen_bind _).mp ok
  obtain ⟨range, low⟩ := ofInt_toSigned (by omega) (ofLeBytes_lt_bits len)
  refine ⟨_, rfl, ?_⟩
  rw [encodeSigned, if_pos range, ← leBytes_mod, show 256 = 2 ^ 8 from rfl, ← Nat.pow_mul, low,
    ← len, leBytes_ofLeBytes]

theorem encodeUnsigned_of_decode (width : n ≤ 8) (ok : decodeUnsigned tag n bytes = .ok value) :
    ∃ v, value = .u64 v ∧ encodeUnsigned tag n v = .ok bytes := by
  obtain ⟨len, rfl⟩ := (exactLen_bind _).mp ok
  have lt := ofLeBytes_lt_bits len
  have exact : (UInt64.ofNat (ofLeBytes bytes)).toNat = ofLeBytes bytes := by
    rw [UInt64.toNat_ofNat']
    exact Nat.mod_eq_of_lt (Nat.lt_of_lt_of_le lt (Nat.pow_le_pow_right (by decide) (by omega)))
  refine ⟨_, rfl, ?_⟩
  rw [encodeUnsigned, exact, if_pos lt, ← len, leBytes_ofLeBytes]

end

theorem encodeSigned_eight (tag : TypeTag) (v : Int64) :
    encodeSigned tag 8 v = .ok (leBytes 8 v.toUInt64.toNat) := if_pos ⟨v.le_toInt, v.toInt_lt⟩

theorem encodeUnsigned_eight (tag : TypeTag) (v : UInt64) :
    encodeUnsigned tag 8 v = .ok (leBytes 8 v.toNat) := if_pos v.toNat_lt

/-! ## Singles -/

/-- A single that is a number, as a double and back. -/
theorem f64ToF32_of_number {x : UInt32} (number : isNan32 x = false) :
    f64ToF32 (f32ToF64 x) = x ∧ ¬(isFinite64 (f32ToF64 x) ∧ isInfinite32 x) := by
  have bound : x.toNat % 2 ^ 31 ≤ 0x7F800000 := by simpa [isNan32] using number
  rcases Nat.lt_or_eq_of_le bound with finite | infinite
  · refine ⟨f64ToF32_f32ToF64 finite, ?_⟩
    rintro ⟨_, infinite⟩
    exact Nat.ne_of_lt finite (of_decide_eq_true infinite)
  · have lt := x.toNat_lt
    have cases : x = 0x7F800000 ∨ x = 0xFF800000 := by
      rw [← UInt32.toNat_inj, ← UInt32.toNat_inj]
      simp only [UInt32.reduceToNat]
      omega
    rcases cases with rfl | rfl
    · decide
    · decide

/-! ## What is encoded is decoded -/

/-- Decoding undoes encoding. -/
theorem decodeValueBytes_of_encode {code : UInt32} {bytes : Bytes}
    (ok : encodeValueBytes code value = .ok bytes) (double : code ≠ TypeTag.f32.toU32) :
    decodeValueBytes code bytes = .ok value := by
  obtain ⟨tag, rfl⟩ := tag_of_encode ok
  unfold encodeValueBytes at ok
  unfold decodeValueBytes
  rw [tryFrom_toU32] at ok ⊢
  simp only [bind, Except.bind] at ok ⊢
  split at ok
  next b =>
    obtain rfl := Except.ok.inj ok
    cases b <;> rfl
  next => exact decodeSigned_of_encode (by decide) ok
  next => exact decodeSigned_of_encode (by decide) ok
  next => exact decodeSigned_of_encode (by decide) ok
  next => exact decodeSigned_of_encode (by decide) ((encodeSigned_eight ..).trans ok)
  next => exact decodeUnsigned_of_encode ok
  next => exact decodeUnsigned_of_encode ok
  next => exact decodeUnsigned_of_encode ok
  next => exact decodeUnsigned_of_encode ((encodeUnsigned_eight ..).trans ok)
  next => exact absurd rfl double
  next v =>
    obtain rfl := Except.ok.inj ok
    have word : UInt64.ofNat (ofLeBytes (leBytes 8 v.toNat)) = v := by
      rw [ofLeBytes_word, UInt64.ofNat_toNat]
    exact (exactLen_bind .f64).mpr ⟨length_leBytes 8 v.toNat, congrArg RawValue.f64 word⟩
  next s =>
    obtain rfl := Except.ok.inj ok
    have read : String.fromUTF8? ⟨s.toUTF8.data.toList.toArray⟩ = some s :=
      Bytes.fromUTF8?_toByteArray s
    simp only [read]
  next => exact congrArg (Except.ok ∘ RawValue.bytes) (Except.ok.inj ok).symm
  all_goals cases ok

/-! ## What is decoded is encoded -/

/-- Encoding undoes decoding. -/
theorem encodeValueBytes_of_decode {code : UInt32} {bytes : Bytes}
    (ok : decodeValueBytes code bytes = .ok value)
    (number : code = TypeTag.f32.toU32 → isNan32 (UInt32.ofNat (ofLeBytes bytes)) = false) :
    encodeValueBytes code value = .ok bytes := by
  obtain ⟨tag, rfl⟩ := tag_of_decode ok
  unfold decodeValueBytes at ok
  unfold encodeValueBytes
  rw [tryFrom_toU32] at ok ⊢
  simp only [bind, Except.bind] at ok ⊢
  cases tag with
  | bool =>
    dsimp only at ok
    split at ok
    · cases ok
    · split at ok
      · obtain rfl := Except.ok.inj ok
        rfl
      · obtain rfl := Except.ok.inj ok
        rfl
      · cases ok
      · cases ok
  | i8 | i16 | i32 =>
    obtain ⟨v, rfl, back⟩ := encodeSigned_of_decode (by decide) ok
    exact back
  | i64 =>
    obtain ⟨v, rfl, back⟩ := encodeSigned_of_decode (by decide) ok
    exact (encodeSigned_eight ..).symm.trans back
  | u8 | u16 | u32 =>
    obtain ⟨v, rfl, back⟩ := encodeUnsigned_of_decode (by decide) ok
    exact back
  | u64 =>
    obtain ⟨v, rfl, back⟩ := encodeUnsigned_of_decode (by decide) ok
    exact (encodeUnsigned_eight ..).symm.trans back
  | f32 =>
    obtain ⟨len, rfl⟩ := (exactLen_bind _).mp ok
    obtain ⟨back, fits⟩ := f64ToF32_of_number (number rfl)
    have word : (UInt32.ofNat (ofLeBytes bytes)).toNat = ofLeBytes bytes :=
      (UInt32.toNat_ofNat' ..).trans (Nat.mod_eq_of_lt (ofLeBytes_lt_bits len))
    dsimp only
    rw [back, if_neg fits, word, ← len, leBytes_ofLeBytes]
  | f64 =>
    obtain ⟨len, rfl⟩ := (exactLen_bind _).mp ok
    have word : (UInt64.ofNat (ofLeBytes bytes)).toNat = ofLeBytes bytes :=
      (UInt64.toNat_ofNat' ..).trans (Nat.mod_eq_of_lt (ofLeBytes_lt_bits len))
    dsimp only
    rw [word, ← len, leBytes_ofLeBytes]
  | string =>
    dsimp only at ok
    split at ok
    next s read =>
      obtain rfl := Except.ok.inj ok
      exact congrArg Except.ok (Bytes.toByteArray_of_fromUTF8? read)
    next => cases ok
  | bytes =>
    dsimp only at ok
    obtain rfl := Except.ok.inj ok
    rfl
  | array | struct => cases ok

/-! ## No panic -/

namespace Indexed

variable {bytes : Bytes}

/-- `[bytes[0], .., bytes[n - 1]]`. -/
def firstBytes (n : Nat) (bytes : Bytes) : Option Bytes := (List.range n).mapM fun i => bytes[i]?

/-- `bytes.try_into().expect(..)`. -/
def allBytes (n : Nat) (bytes : Bytes) : Option Bytes :=
  if bytes.length = n then some bytes else none

/-- A check of the length, and what is read behind it. -/
def checked (tag : TypeTag) (n : Nat) (bytes : Bytes) (read : Option (Except TagError RawValue)) :
    Option (Except TagError RawValue) :=
  match exactLen tag n bytes with
  | .ok () => read
  | .error e => some (.error e)

/-- A byte as a truth value. -/
def ofBool : UInt8 → Except TagError RawValue
  | 0 => .ok (.bool false)
  | 1 => .ok (.bool true)
  | b => .error (.invalidBool b)

/-- Bytes as a signed number. -/
def signed (n : Nat) (bytes : Bytes) : Except TagError RawValue :=
  .ok (.i64 (Int64.ofInt (toSigned (8 * n) (ofLeBytes bytes))))

/-- Bytes as an unsigned number. -/
def unsigned (bytes : Bytes) : Except TagError RawValue :=
  .ok (.u64 (UInt64.ofNat (ofLeBytes bytes)))

/-- `decode_value_bytes` with its indexing. -/
def decodeValueBytes (tag : UInt32) (bytes : Bytes) : Option (Except TagError RawValue) :=
  match TypeTag.tryFrom tag with
  | .error e => some (.error e)
  | .ok tag =>
    match tag with
    | .bool => checked tag 1 bytes (bytes[0]?.map ofBool)
    | .i8 => checked tag 1 bytes ((firstBytes 1 bytes).map (signed 1))
    | .i16 => checked tag 2 bytes ((firstBytes 2 bytes).map (signed 2))
    | .i32 => checked tag 4 bytes ((firstBytes 4 bytes).map (signed 4))
    | .i64 => checked tag 8 bytes ((allBytes 8 bytes).map (signed 8))
    | .u8 => checked tag 1 bytes ((firstBytes 1 bytes).map unsigned)
    | .u16 => checked tag 2 bytes ((firstBytes 2 bytes).map unsigned)
    | .u32 => checked tag 4 bytes ((firstBytes 4 bytes).map unsigned)
    | .u64 => checked tag 8 bytes ((allBytes 8 bytes).map unsigned)
    | .f32 =>
      checked tag 4 bytes ((firstBytes 4 bytes).map fun bytes =>
        .ok (.f64 (f32ToF64 (UInt32.ofNat (ofLeBytes bytes)))))
    | .f64 =>
      checked tag 8 bytes ((allBytes 8 bytes).map fun bytes =>
        .ok (.f64 (UInt64.ofNat (ofLeBytes bytes))))
    | .string =>
      some (match String.fromUTF8? ⟨bytes.toArray⟩ with
        | some s => .ok (.string s)
        | none => .error .invalidUtf8)
    | .bytes => some (.ok (.bytes bytes))
    | .array | .struct => some (.error .complexTypeNotEncodable)

theorem firstBytes_of_le (le : n ≤ bytes.length) : firstBytes n bytes = some (bytes.take n) := by
  induction n with
  | zero => rfl
  | succ n ih =>
    have here : bytes[n]? = some bytes[n] := List.getElem?_eq_getElem le
    have front := ih (Nat.le_of_lt le)
    rw [firstBytes] at front
    rw [firstBytes, List.range_succ, List.mapM_append, front]
    rw [List.mapM_cons, List.mapM_nil, here, List.take_add_one, here]
    rfl

theorem firstBytes_eq (len : bytes.length = n) : firstBytes n bytes = some bytes := by
  rw [firstBytes_of_le (Nat.le_of_eq len.symm), List.take_of_length_le (Nat.le_of_eq len)]

/-- What is read behind a check of the length is there. -/
theorem checked_eq {read : Option (Except TagError RawValue)} {value : Except TagError RawValue}
    (here : bytes.length = n → read = some value) :
    checked tag n bytes read = some ((exactLen tag n bytes).bind fun _ => value) := by
  unfold checked exactLen
  by_cases len : bytes.length = n
  · rw [if_pos len]
    exact here len
  · rw [if_neg len]
    rfl

/-- A number of `n` bytes that are indexed or taken as a whole. -/
theorem checked_map {taken : Option Bytes} {f : Bytes → Except TagError RawValue}
    (here : bytes.length = n → taken = some bytes) :
    checked tag n bytes (taken.map f) = some ((exactLen tag n bytes).bind fun _ => f bytes) :=
  checked_eq fun len => by rw [here len, Option.map_some]

/-- Decoding stays inside the bytes. -/
theorem decodeValueBytes_eq (tag : UInt32) (bytes : Bytes) :
    decodeValueBytes tag bytes = some (Drivers.decodeValueBytes tag bytes) := by
  unfold decodeValueBytes Drivers.decodeValueBytes
  cases known : TypeTag.tryFrom tag with
  | error e => rfl
  | ok tag =>
    cases tag with
    | bool =>
      refine checked_eq fun len => ?_
      obtain ⟨b, rfl⟩ := List.length_eq_one_iff.mp len
      refine congrArg some ?_
      unfold ofBool
      split
      · rfl
      · rfl
      next zero one =>
        split
        next eq => exact absurd (List.head_eq_of_cons_eq eq) zero
        next eq => exact absurd (List.head_eq_of_cons_eq eq) one
        next eq => exact congrArg (Except.error ∘ TagError.invalidBool) (List.head_eq_of_cons_eq eq)
        next eq => cases eq
    | i8 | i16 | i32 | u8 | u16 | u32 | f32 => exact checked_map firstBytes_eq
    | i64 | u64 | f64 => exact checked_map fun len => if_pos len
    | string =>
      dsimp only
      cases String.fromUTF8? ⟨bytes.toArray⟩ <;> rfl
    | bytes | array | struct => rfl

end Indexed

/-- The encoder and the decoder are inverse, singles apart in the one direction and NaNs of
single precision in the other, and the decoder does not panic. -/
theorem valueBytes_inverse :
    (∀ tag value bytes, tag ≠ TypeTag.f32.toU32 → encodeValueBytes tag value = .ok bytes →
      decodeValueBytes tag bytes = .ok value) ∧
    (∀ tag bytes value,
      (tag = TypeTag.f32.toU32 → isNan32 (UInt32.ofNat (ofLeBytes bytes)) = false) →
      decodeValueBytes tag bytes = .ok value → encodeValueBytes tag value = .ok bytes) ∧
    ∀ tag bytes, Indexed.decodeValueBytes tag bytes = some (decodeValueBytes tag bytes) :=
  ⟨fun _ _ _ double ok => decodeValueBytes_of_encode ok double,
    fun _ _ _ number ok => encodeValueBytes_of_decode ok number, Indexed.decodeValueBytes_eq⟩

/-- A negative number of two bytes, and a single. -/
theorem valueBytes_inverse_samples :
    (encodeValueBytes 3 (.i64 (-2)) = .ok [0xFE, 0xFF] ∧
      decodeValueBytes 3 [0xFE, 0xFF] = .ok (.i64 (-2))) ∧
    (decodeValueBytes 10 [0, 0, 0xC0, 0x3F] = .ok (.f64 (f32ToF64 0x3FC00000)) ∧
      encodeValueBytes 10 (.f64 (f32ToF64 0x3FC00000)) = .ok [0, 0, 0xC0, 0x3F]) :=
  ⟨⟨rfl, valueBytes_inverse.1 3 _ _ (by decide) rfl⟩,
    ⟨rfl, valueBytes_inverse.2.1 10 _ _ (fun _ => by decide) rfl⟩⟩

end ForgeLink.Drivers
