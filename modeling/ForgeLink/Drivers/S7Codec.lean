import ForgeLink.Drivers.Replies
import ForgeLink.Drivers.S7Write

/-!
# The S7 codec

The same bytes of a width are read as a signed number, as an unsigned one and, if
they are four, as a real.  Each reading undoes the encoder for the values of its
kind, and the encoder undoes the two integer readings.
-/

namespace ForgeLink.Drivers.S7comm

open Lib

variable (showF64 : UInt64 → String) (fmt : DebugFmt)
variable {payload : Bytes} {e : EncodedWrite}

/-- The type of 64 bits that reads a value of this kind; a NaN has none. -/
def expectedOf : RawValue → Option DataType
  | .bool _ => some .bool
  | .i64 _ => some .i64
  | .u64 _ => some .u64
  | .f64 v => if Binary64.isNan v then none else some .f64
  | _ => none

section

variable {ty : S7Type} (wide : ty ≠ .bit)

include wide

theorem bits_cases : ty.bits = 8 ∨ ty.bits = 16 ∨ ty.bits = 32 ∨ ty.bits = 64 := by
  cases ty with
  | bit => exact absurd rfl wide
  | byte => exact .inl rfl
  | word => exact .inr (.inl rfl)
  | dword => exact .inr (.inr (.inl rfl))

theorem encodeWrite_i64 (v : Int64) : encodeWrite showF64 ty (.i64 v) = signedWrite ty v := by
  cases ty with
  | bit => exact absurd rfl wide
  | byte | word | dword => rfl

theorem encodeWrite_u64 (v : UInt64) : encodeWrite showF64 ty (.u64 v) = unsignedWrite ty v := by
  cases ty with
  | bit => exact absurd rfl wide
  | byte | word | dword => rfl

theorem decodeRead_i64 (len : payload.length = ty.widthBytes) :
    decodeRead fmt ty (some .i64) payload =
      .ok (.i64 (Int64.ofInt (toSigned ty.bits (ofBeBytes payload)))) := by
  cases ty with
  | bit => exact absurd rfl wide
  | byte | word | dword => simp [decodeRead, len, S7Type.bits, S7Type.widthBytes]

theorem decodeRead_u64 (len : payload.length = ty.widthBytes) :
    decodeRead fmt ty (some .u64) payload = .ok (.u64 (UInt64.ofNat (ofBeBytes payload))) := by
  cases ty with
  | bit => exact absurd rfl wide
  | byte | word | dword => simp [decodeRead, len]

theorem pow_widthBytes : (256 : Nat) ^ ty.widthBytes = 2 ^ ty.bits := by
  cases ty with
  | bit => exact absurd rfl wide
  | byte | word | dword => rfl

theorem ofBeBytes_lt_bits (len : payload.length = ty.widthBytes) :
    ofBeBytes payload < 2 ^ ty.bits := by
  have lt := ofLeBytes_lt payload.reverse
  rwa [List.length_reverse, len, pow_widthBytes wide] at lt

theorem decodeRead_signedWrite {v : Int64} (ok : signedWrite ty v = .ok e) :
    e.payload.length = ty.widthBytes ∧
      decodeRead fmt ty (some .i64) e.payload = .ok (.i64 v) := by
  unfold signedWrite at ok
  split at ok
  next range =>
    cases ok
    have len := length_beBytes ty.widthBytes v.toUInt64.toNat
    refine ⟨len, ?_⟩
    rw [wideWrite, decodeRead_i64 fmt wide len, ofBeBytes_beBytes, pow_widthBytes wide,
      toSigned_of_range (bits_cases wide) range.1 range.2, Int64.ofInt_toInt]
  next => cases ok

theorem decodeRead_unsignedWrite {v : UInt64} (ok : unsignedWrite ty v = .ok e) :
    e.payload.length = ty.widthBytes ∧
      decodeRead fmt ty (some .u64) e.payload = .ok (.u64 v) := by
  unfold unsignedWrite at ok
  split at ok
  next range =>
    cases ok
    have len := length_beBytes ty.widthBytes v.toNat
    refine ⟨len, ?_⟩
    rw [wideWrite, decodeRead_u64 fmt wide len, ofBeBytes_beBytes, pow_widthBytes wide,
      Nat.mod_eq_of_lt range, UInt64.ofNat_toNat]
  next => cases ok

end

/-- What is encoded has the width of its address and is read back. -/
theorem decodeRead_encodeWrite {ty : S7Type} {v : RawValue}
    (ok : encodeWrite showF64 ty v = .ok e) :
    e.payload.length = ty.widthBytes ∧
      ∀ t, expectedOf v = some t → decodeRead fmt ty (some t) e.payload = .ok v := by
  cases v with
  | bool b =>
    cases ty with
    | bit =>
      cases ok
      refine ⟨rfl, fun t expected => ?_⟩
      cases expected
      cases b <;> rfl
    | byte | word | dword => cases ok
  | i64 v =>
    cases ty with
    | bit => cases ok
    | byte | word | dword =>
      obtain ⟨len, read⟩ := decodeRead_signedWrite fmt (by decide) ok
      refine ⟨len, fun t expected => ?_⟩
      cases expected
      exact read
  | u64 v =>
    cases ty with
    | bit => cases ok
    | byte | word | dword =>
      obtain ⟨len, read⟩ := decodeRead_unsignedWrite fmt (by decide) ok
      refine ⟨len, fun t expected => ?_⟩
      cases expected
      exact read
  | f64 v =>
    cases ty with
    | bit | byte | word => cases ok
    | dword =>
      simp only [encodeWrite] at ok
      split at ok
      next => cases ok
      next kept =>
        cases ok
        have len := length_beBytes 4 (f64ToF32 v).toNat
        refine ⟨len, fun t expected => ?_⟩
        simp only [expectedOf] at expected
        split at expected
        next => cases expected
        next number =>
          cases expected
          have same := f32ToF64_of_kept (by simpa using number) kept
          have lt := (f64ToF32 v).toNat_lt
          have number : ofBeBytes (beBytes 4 (f64ToF32 v).toNat) = (f64ToF32 v).toNat := by
            rw [ofBeBytes_beBytes]
            exact Nat.mod_eq_of_lt lt
          simp [decodeRead, wideWrite, S7Type.widthBytes, number, same]
  | string _ | bytes _ | array _ | struct _ => cases ty <;> cases ok

/-- Bytes of a width are the encoding of what they are read as, signed and unsigned. -/
theorem encodeWrite_decodeRead {ty : S7Type} (wide : ty ≠ .bit)
    (len : payload.length = ty.widthBytes) {t : DataType} (integer : t = .i64 ∨ t = .u64) :
    ∃ v e, decodeRead fmt ty (some t) payload = .ok v ∧ encodeWrite showF64 ty v = .ok e ∧
      e.payload = payload := by
  have lt := ofBeBytes_lt_bits wide len
  have bits := bits_cases wide
  have back := beBytes_ofBeBytes payload
  rw [len] at back
  generalize number : ofBeBytes payload = n at lt back
  rcases integer with rfl | rfl
  · have value := decodeRead_i64 fmt wide len
    rw [number] at value
    refine ⟨_, wideWrite ty payload, value, ?_, rfl⟩
    obtain ⟨range, low⟩ := ofInt_toSigned bits lt
    rw [encodeWrite_i64 showF64 wide, signedWrite, if_pos range, ← beBytes_mod,
      pow_widthBytes wide, low, back]
  · have value := decodeRead_u64 fmt wide len
    rw [number] at value
    refine ⟨_, wideWrite ty payload, value, ?_, rfl⟩
    have exact : (UInt64.ofNat n).toNat = n := by
      rw [UInt64.toNat_ofNat']
      refine Nat.mod_eq_of_lt ?_
      rcases bits with eq | eq | eq | eq
      all_goals
        rw [eq] at lt
        omega
    rw [encodeWrite_u64 showF64 wide, unsignedWrite, exact, if_pos lt, back]

/-- The encoder and the decoder are inverse in every reading, and the encoder takes an integer
just if it lies in the range of the width. -/
theorem encodeWrite_decodeRead_inverse :
    (∀ ty v e, encodeWrite showF64 ty v = .ok e → e.payload.length = ty.widthBytes ∧
      ∀ t, expectedOf v = some t → decodeRead fmt ty (some t) e.payload = .ok v) ∧
    (∀ ty : S7Type, ty ≠ .bit →
      (∀ x, (∃ e, encodeWrite showF64 ty (.i64 x) = .ok e) ↔
        -2 ^ (8 * ty.widthBytes - 1) ≤ x.toInt ∧ x.toInt < 2 ^ (8 * ty.widthBytes - 1)) ∧
      (∀ x, (∃ e, encodeWrite showF64 ty (.u64 x) = .ok e) ↔ x.toNat < 2 ^ (8 * ty.widthBytes)) ∧
      ∀ payload t, payload.length = ty.widthBytes → t = .i64 ∨ t = .u64 →
        ∃ v e, decodeRead fmt ty (some t) payload = .ok v ∧ encodeWrite showF64 ty v = .ok e ∧
          e.payload = payload) := by
  refine ⟨fun ty v e ok => decodeRead_encodeWrite showF64 fmt ok, fun ty wide => ⟨?_, ?_, ?_⟩⟩
  · intro x
    rw [encodeWrite_i64 showF64 wide, signedWrite]
    split
    next range => exact ⟨fun _ => range, fun _ => ⟨_, rfl⟩⟩
    next range => exact ⟨nofun, fun inside => absurd inside range⟩
  · intro x
    rw [encodeWrite_u64 showF64 wide, unsignedWrite]
    split
    next range => exact ⟨fun _ => range, fun _ => ⟨_, rfl⟩⟩
    next range => exact ⟨nofun, fun inside => absurd inside range⟩
  · exact fun payload t len integer => encodeWrite_decodeRead showF64 fmt wide len integer

/-- A negative word, a real, and a double word of arbitrary bytes. -/
theorem encodeWrite_decodeRead_samples :
    (∃ e, encodeWrite (fun _ => "") .word (.i64 (-2)) = .ok e ∧ e.payload = [0xFF, 0xFE] ∧
      decodeRead plainDebug .word (some .i64) e.payload = .ok (.i64 (-2))) ∧
    (∃ e, encodeWrite (fun _ => "") .dword (.f64 0xBFF8000000000000) = .ok e ∧
      decodeRead plainDebug .dword (some .f64) e.payload = .ok (.f64 0xBFF8000000000000)) ∧
    ∃ v e, decodeRead plainDebug .dword (some .u64) [1, 2, 3, 4] = .ok v ∧
      encodeWrite (fun _ => "") .dword v = .ok e ∧ e.payload = [1, 2, 3, 4] := by
  have h := encodeWrite_decodeRead_inverse (fun _ => "") plainDebug
  have lossless :
      Binary64.eq (f32ToF64 (f64ToF32 0xBFF8000000000000)) 0xBFF8000000000000 = true := by
    decide +kernel
  obtain ⟨e, real⟩ : ∃ e, encodeWrite (fun _ => "") .dword (.f64 0xBFF8000000000000) = .ok e := by
    simp only [encodeWrite, lossless]
    exact ⟨_, if_neg (by simp)⟩
  have number : Binary64.isNan 0xBFF8000000000000 = false := by decide
  refine ⟨⟨_, rfl, rfl, (h.1 .word (.i64 (-2)) _ rfl).2 .i64 rfl⟩,
    ⟨e, real, (h.1 .dword _ e real).2 .f64 ?_⟩,
    (h.2 .dword (by decide)).2.2 [1, 2, 3, 4] .u64 rfl (.inr rfl)⟩
  simp [expectedOf, number]

end ForgeLink.Drivers.S7comm
