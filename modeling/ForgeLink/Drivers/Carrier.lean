import ForgeLink.Drivers.AbiCodec
import ForgeLink.Drivers.Executor

/-!
# A number on its way to a driver

The executor sends every number as 64 bits, with the tag of its carrier; it
crosses the ABI unchanged.  `ValueOf` are the carried values of an integer type.
-/

namespace ForgeLink.Drivers

/-- The tag that a number is sent with. -/
def carrierTag : RawValue → Option TypeTag
  | .i64 _ => some .i64
  | .u64 _ => some .u64
  | .f64 _ => some .f64
  | _ => none

/-- A number crosses the ABI unchanged. -/
theorem decodeItems_encodeItems {item : DriverWriteItem} {tag : TypeTag}
    (carried : carrierTag item.value = some tag) {ρ : Type} (request : FfiWriteItem →
      RawValue → ρ) :
    ∃ ffiItem, encodeItems [item] = .ok [ffiItem] ∧ ffiItem.id = item.id ∧
      ffiItem.address = item.address ∧ ffiItem.valueType = tag.toU32 ∧
      decodeItems request [ffiItem] = .ok [request ffiItem item.value] := by
  obtain ⟨id, address, value⟩ := item
  cases value with
  | i64 v =>
    cases carried
    refine ⟨⟨id, address, 5, leBytes 8 v.toUInt64.toNat⟩, rfl, rfl, rfl, rfl, ?_⟩
    have decoded : decodeValueBytes 5 (leBytes 8 v.toUInt64.toNat) = .ok (.i64 v) :=
      decodeValueBytes_of_encode rfl (by decide)
    simp [decodeItems, decoded, bind, Except.bind]
  | u64 v =>
    cases carried
    refine ⟨⟨id, address, 9, leBytes 8 v.toNat⟩, rfl, rfl, rfl, rfl, ?_⟩
    have decoded : decodeValueBytes 9 (leBytes 8 v.toNat) = .ok (.u64 v) :=
      decodeValueBytes_of_encode rfl (by decide)
    simp [decodeItems, decoded, bind, Except.bind]
  | f64 v =>
    cases carried
    refine ⟨⟨id, address, 11, leBytes 8 v.toNat⟩, rfl, rfl, rfl, rfl, ?_⟩
    have decoded : decodeValueBytes 11 (leBytes 8 v.toNat) = .ok (.f64 v) :=
      decodeValueBytes_of_encode rfl (by decide)
    simp [decodeItems, decoded, bind, Except.bind]
  | bool _ | string _ | bytes _ | array _ | struct _ => cases carried

/-! ## Integer types -/

/-- The integer types: whether they have a sign, and their bits. -/
def intBits : DataType → Option (Bool × Nat)
  | .i8 => some (true, 8)
  | .i16 => some (true, 16)
  | .i32 => some (true, 32)
  | .i64 => some (true, 64)
  | .u8 => some (false, 8)
  | .u16 => some (false, 16)
  | .u32 => some (false, 32)
  | .u64 => some (false, 64)
  | _ => none

/-- A value of an integer type. -/
def ValueOf (t : DataType) (v : RawValue) : Prop :=
  match intBits t, v with
  | some (true, w), .i64 x => -2 ^ (w - 1) ≤ x.toInt ∧ x.toInt < 2 ^ (w - 1)
  | some (false, w), .u64 x => x.toNat < 2 ^ w
  | _, _ => False

theorem intBits_cases {t : DataType} {signed : Bool} {w : Nat}
    (bits : intBits t = some (signed, w)) : w = 8 ∨ w = 16 ∨ w = 32 ∨ w = 64 := by
  cases t <;> cases bits <;> decide

/-- A value of an integer type is signed or not, and fits its bits. -/
theorem ValueOf.cases {t : DataType} {v : RawValue} (h : ValueOf t v) :
    (∃ w x, intBits t = some (true, w) ∧ v = .i64 x ∧ -2 ^ (w - 1) ≤ x.toInt ∧
      x.toInt < 2 ^ (w - 1)) ∨
    (∃ w x, intBits t = some (false, w) ∧ v = .u64 x ∧ x.toNat < 2 ^ w) := by
  unfold ValueOf at h
  split at h
  next w x bits => exact .inl ⟨w, x, bits, rfl, h⟩
  next w x bits => exact .inr ⟨w, x, bits, rfl, h⟩
  next => exact h.elim

theorem ValueOf.carried {t : DataType} {v : RawValue} (h : ValueOf t v) :
    ∃ tag, carrierTag v = some tag := by
  rcases h.cases with ⟨_, _, _, rfl, _⟩ | ⟨_, _, _, rfl, _⟩
  · exact ⟨_, rfl⟩
  · exact ⟨_, rfl⟩

end ForgeLink.Drivers
