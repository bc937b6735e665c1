import ForgeLink.Drivers.ModbusWriteBatch

/-!
# The Modbus codec

A value that is written with a narrow tag takes the registers of its type, and
the decoder reads it back from them in the same order of words.  The bits of a
frame of coils are read back at their own offsets.
-/

namespace ForgeLink.Drivers.Modbus

open Lib

/-- The tag that writes a type in its own width. -/
def narrowTag : DataType → Option TypeTag
  | .u8 => some .u8
  | .i8 => some .i8
  | .u16 => some .u16
  | .i16 => some .i16
  | .u32 => some .u32
  | .i32 => some .i32
  | _ => none

theorem intValue_signed {x : Int64} {w n : Nat} (width : w = 8 ∨ w = 16 ∨ w = 32 ∨ w = 64)
    (low : -2 ^ (w - 1) ≤ x.toInt) (high : x.toInt < 2 ^ (w - 1))
    (same : n % 2 ^ w = x.toUInt64.toNat % 2 ^ w) : intValue true w n = .i64 x := by
  rw [intValue, if_pos rfl, same, toSigned_of_range width low high, Int64.ofInt_toInt]

theorem intValue_unsigned {x : UInt64} {w n : Nat} (high : x.toNat < 2 ^ w)
    (same : n % 2 ^ w = x.toNat % 2 ^ w) : intValue false w n = .u64 x := by
  rw [intValue, if_neg (by simp), same, Nat.mod_eq_of_lt high, UInt64.ofNat_toNat]

/-- With a narrow tag, a value is written in the registers of its type. -/
theorem registerBytes_narrow {t : DataType} {tag : TypeTag} {v : RawValue}
    (narrow : narrowTag t = some tag) (h : ValueOf t v) :
    ∃ signed w bytes, intBits t = some (signed, w) ∧ registerBytes tag v = .ok bytes ∧
      bytes.length = typeWords t * 2 ∧ intValue signed w (ofBeBytes bytes) = v := by
  rcases h.cases with ⟨w, x, bits, rfl, low, high⟩ | ⟨w, x, bits, rfl, high⟩
  · have width := intBits_cases bits
    cases t <;> cases narrow <;> cases bits
    · exact ⟨_, _, _, rfl, rfl, rfl, intValue_signed width low high (by simp [ofBeBytes])⟩
    · exact ⟨_, _, _, rfl, rfl, by simp [typeWords, registerWidth],
        intValue_signed width low high (by rw [ofBeBytes_beBytes]; omega)⟩
    · exact ⟨_, _, _, rfl, rfl, by simp [typeWords, registerWidth],
        intValue_signed width low high (by rw [ofBeBytes_beBytes]; omega)⟩
  · cases t <;> cases narrow <;> cases bits
    · exact ⟨_, _, _, rfl, rfl, rfl, intValue_unsigned high (by simp [ofBeBytes])⟩
    · exact ⟨_, _, _, rfl, rfl, by simp [typeWords, registerWidth],
        intValue_unsigned high (by rw [ofBeBytes_beBytes]; omega)⟩
    · exact ⟨_, _, _, rfl, rfl, by simp [typeWords, registerWidth],
        intValue_unsigned high (by rw [ofBeBytes_beBytes]; omega)⟩

/-- What is encoded is decoded from the start of the same data, if the type has registers. -/
theorem decodeRegisterValue_zero (fmt : DebugFmt) (order : WordOrder) {t : DataType} {words : Nat}
    (registers : registerWidth t = some words) (number : t ≠ .bool) {data : Bytes}
    (len : data.length = words * 2) :
    decodeRegisterValue fmt .holdingRegister data 0 (some t) order =
      decodeSlice fmt t data order := by
  have whole : data.take (words * 2) = data := List.take_of_length_le len.le
  cases t <;> cases registers
  case bool => exact absurd rfl number
  all_goals
    show (if data.length < 0 * 2 + _ then _ else decodeSlice fmt _ (data.take _) order) = _
    rw [if_neg (by omega), whole]

theorem decodeBit_packBits (bits : List Bool) (i : Nat) (inside : i < bits.length) :
    decodeBit (packBits bits) i = .ok bits[i] := by
  have here : i / 8 < (packBits bits).length := by
    rw [length_packBits]
    omega
  have bit := bitOf_packBits bits inside
  simp only [List.getD_eq_getElem?_getD, List.getElem?_eq_getElem here,
    List.getElem?_eq_getElem inside, Option.getD_some] at bit
  rw [decodeBit, List.getElem?_eq_getElem here, ← bit]
  rfl

/-- The decoder undoes the encoder: for the narrow integers, for singles and for bits. -/
theorem decode_encode (fmt : DebugFmt) (order : WordOrder) :
    (∀ t tag v, narrowTag t = some tag → ValueOf t v →
      ∃ data, encodeWriteValue fmt .holdingRegister tag.toU32 v order = .ok (.registers data) ∧
        decodeRegisterValue fmt .holdingRegister data 0 (some t) order = .ok v) ∧
    (∀ pattern : UInt32, ∃ data,
      encodeWriteValue fmt .holdingRegister TypeTag.f32.toU32 (.f64 (f32ToF64 pattern)) order =
          .ok (.registers data) ∧
        decodeRegisterValue fmt .holdingRegister data 0 (some .f32) order =
          .ok (.f64 (f32ToF64 pattern))) ∧
    (∀ (bits : List Bool) (i : Nat) (_ : i < bits.length),
      decodeBit (packBits bits) i = .ok bits[i]) := by
  refine ⟨?_, ?_, decodeBit_packBits⟩
  · intro t tag v narrow h
    obtain ⟨signed, w, bytes, bits, raw, len, value⟩ := registerBytes_narrow narrow h
    have tagged : TypeTag.tryFrom tag.toU32 = .ok tag := tryFrom_toU32 tag
    have registers : registerWidth t = some (typeWords t) ∧ t ≠ .bool := by
      cases t <;> cases bits <;> exact ⟨rfl, by simp⟩
    obtain ⟨data, ordered⟩ : ∃ data, orderWords order bytes = .ok data := by
      unfold orderWords
      cases t <;> cases narrow <;> rw [len] <;> exact ⟨_, rfl⟩
    have same := unordered_orderWords ordered
    have length : data.length = typeWords t * 2 := by
      rw [← len, ← same, length_unordered]
    refine ⟨data, by simp [encodeWriteValue, encodeRegisterData, tagged, raw, ordered, bind,
      Except.bind], ?_⟩
    rw [decodeRegisterValue_zero fmt order registers.1 registers.2 length,
      decodeSlice_int fmt order bits length, same, value]
  · intro pattern
    obtain ⟨bytes, raw⟩ : ∃ bytes, beBytes 4 (f64ToF32 (f32ToF64 pattern)).toNat = bytes := ⟨_, rfl⟩
    have len : bytes.length = 4 := by rw [← raw, length_beBytes]
    have number : ofBeBytes bytes = (f64ToF32 (f32ToF64 pattern)).toNat := by
      have lt := (f64ToF32 (f32ToF64 pattern)).toNat_lt
      rw [← raw, ofBeBytes_beBytes]
      exact Nat.mod_eq_of_lt lt
    refine ⟨reorderWords4 bytes order, ?_, ?_⟩
    · have tagged : TypeTag.tryFrom TypeTag.f32.toU32 = .ok .f32 := rfl
      simp [encodeWriteValue, encodeRegisterData, tagged, registerBytes, raw, orderWords, len,
        bind, Except.bind]
    · rw [decodeRegisterValue_zero fmt order rfl (by simp) (length_reorderWords4 order len)]
      simp [decodeSlice, reorderWords4_reorderWords4 order len, number,
        f32ToF64_f64ToF32_f32ToF64]

/-- A negative number of two registers, words exchanged; a signalling single; the ninth coil. -/
theorem decode_encode_samples :
    (∃ data, encodeWriteValue plainDebug .holdingRegister TypeTag.i32.toU32 (.i64 (-2)) .cdab =
        .ok (.registers data) ∧
      decodeRegisterValue plainDebug .holdingRegister data 0 (some .i32) .cdab = .ok (.i64 (-2))) ∧
    (∃ data, encodeWriteValue plainDebug .holdingRegister TypeTag.f32.toU32
        (.f64 (f32ToF64 0x7F800001)) .cdab = .ok (.registers data) ∧
      decodeRegisterValue plainDebug .holdingRegister data 0 (some .f32) .cdab =
        .ok (.f64 (f32ToF64 0x7F800001))) ∧
    decodeBit (packBits [false, true, false, true, true, false, false, true, true]) 8 = .ok true :=
  have h := decode_encode plainDebug .cdab
  ⟨h.1 .i32 .i32 (.i64 (-2)) rfl ⟨by decide, by decide⟩, h.2.1 0x7F800001, h.2.2 _ 8 (by decide)⟩

end ForgeLink.Drivers.Modbus
