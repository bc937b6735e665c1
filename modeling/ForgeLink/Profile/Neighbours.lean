import ForgeLink.Drivers.McReadBatch
import ForgeLink.Drivers.McWrite
import ForgeLink.Drivers.ModbusWriteRead
import ForgeLink.Profile.Convert

/-!
# A property write keeps to its registers

The width of a write is decided from the value in the driver, and the range of
the value from the raw type in the profile engine.  What `encode_write` encodes
is a value of the raw type, so the driver never writes more registers or words
than it reads for that type (`encodeWrite_spares`).
-/

namespace ForgeLink.Profile

open Drivers
open Lib

variable {t : DataType} {raw : RawValue}

/-! ## Widths -/

theorem RawOf.carried (h : RawOf t raw) : ∃ tag, carrierTag raw = some tag := by
  rcases h with integer | ⟨_, _, _, rfl⟩ | ⟨_, _, rfl⟩
  · exact integer.carried
  · exact ⟨_, rfl⟩
  · exact ⟨_, rfl⟩

/-- A number is not a NaN, and equal to itself. -/
theorem eq_self {x : UInt64} (number : x.toNat % 2 ^ 63 ≤ 2047 * 2 ^ 52) :
    Binary64.isNan x = false ∧ Binary64.eq x x = true := by
  have nan : Binary64.isNan x = false := decide_eq_false (by unfold Binary64.body; omega)
  exact ⟨nan, by simp [Binary64.eq, nan]⟩

/-- The Modbus driver writes a value of a type to no more registers than it reads. -/
theorem carrierWords_le (h : RawOf t raw) : Modbus.carrierWords raw ≤ Modbus.typeWords t := by
  rcases h with integer | ⟨rfl, x, finite, rfl⟩ | ⟨rfl, x, rfl⟩
  · exact Modbus.carrierWords_le integer
  · have number := eq_self (f32ToF64_body_le finite)
    have lossless : Modbus.f32Lossless (f32ToF64 x) = true := by
      simp [Modbus.f32Lossless, number, f64ToF32_f32ToF64 finite]
    simp [Modbus.carrierWords, lossless, Modbus.typeWords, Modbus.registerWidth]
  · simp only [Modbus.carrierWords]
    split <;> simp [Modbus.typeWords, Modbus.registerWidth]

theorem typeWords_le (h : RawOf t raw) : Modbus.typeWords t ≤ MitsubishiMc.wordWidth (some t) := by
  rcases h with integer | ⟨rfl, _⟩ | ⟨rfl, _⟩
  · rcases integer.cases with ⟨_, _, bits, _⟩ | ⟨_, _, bits, _⟩
    all_goals cases t <;> cases bits <;> decide
  · decide
  · decide

/-- The MC driver writes a value of a type to no more words than it reads. -/
theorem encodeWrite_points_le (h : RawOf t raw) {kind : MitsubishiMc.DeviceKind}
    (word : kind.isBit = false) {encoded : MitsubishiMc.EncodedWrite}
    (ok : MitsubishiMc.encodeWrite kind raw = .ok encoded) :
    encoded.points ≤ MitsubishiMc.wordWidth (some t) := by
  unfold MitsubishiMc.encodeWrite at ok
  rw [if_neg (by simp [word])] at ok
  split at ok
  next v _ =>
    cases ok
    have le := carrierWords_le h
    have points : (MitsubishiMc.narrowSignedI v).points = Modbus.minimalSignedWords v := by
      unfold MitsubishiMc.narrowSignedI Modbus.minimalSignedWords
      split
      · rfl
      · split <;> rfl
    rw [points]
    exact le.trans (typeWords_le h)
  next v _ =>
    cases ok
    have le := carrierWords_le h
    have points : (MitsubishiMc.narrowUnsignedU v).points = Modbus.minimalUnsignedWords v := by
      unfold MitsubishiMc.narrowUnsignedU Modbus.minimalUnsignedWords
      split
      · rfl
      · split <;> rfl
    rw [points]
    exact le.trans (typeWords_le h)
  next v _ =>
    cases ok
    rcases h with integer | ⟨rfl, x, finite, eq⟩ | ⟨rfl, _⟩
    · rcases integer.cases with ⟨_, _, _, eq, _⟩ | ⟨_, _, _, eq, _⟩ <;> cases eq
    · cases eq
      have number := f32ToF64_body_le finite
      have nan : isNan32 x = false := decide_eq_false (by omega)
      simp [MitsubishiMc.narrowFloat, f64ToF32_f32ToF64 finite, nan, (eq_self number).2,
        MitsubishiMc.wordWidth, MitsubishiMc.wordLayout]
    · unfold MitsubishiMc.narrowFloat
      dsimp only
      split <;> simp [MitsubishiMc.wordWidth, MitsubishiMc.wordLayout]
  next => cases ok

/-! ## Writes -/

/-- The Modbus frames of one number write from its register on, as many registers as the
driver writes for it. -/
theorem modbus_writes (fmt : DebugFmt) (config : Modbus.ModbusConfig) (item : DriverWriteItem)
    {tag : TypeTag} (carried : carrierTag item.value = some tag) {a : Modbus.ModbusAddress}
    (parsed : Modbus.parseAddress fmt item.address config.unitId = .ok a)
    (holding : a.kind = .holdingRegister) {plans : List Modbus.WritePlan}
    {failed : List RawWriteResult}
    (sent : Modbus.sentPlans fmt config [item] = .ok (plans, failed)) :
    ∀ plan ∈ plans, ∀ unit kind n, plan.Writes unit kind n →
      unit = a.unitId ∧ kind = .holdingRegister ∧ a.offset ≤ n ∧
        n < a.offset + Modbus.carrierWords item.value := by
  obtain ⟨data, len, _, fits, large⟩ :=
    Modbus.sentPlans_carrier fmt config item carried parsed holding
  by_cases inside : a.offset + Modbus.carrierWords item.value ≤ 65536
  · rw [fits inside] at sent
    cases sent
    intro plan one unit kind n writes
    cases List.mem_singleton.mp one
    have small : Modbus.carrierWords item.value ≤ 4 := by
      have cases := Modbus.carrierWords_cases carried
      omega
    exact (Modbus.writes_singleton (e := ⟨item.id, a, .registers data⟩) holding rfl len small).mp
      writes
  · obtain ⟨e, refused⟩ := large (by omega)
    rw [refused] at sent
    cases sent

/-- The MC requests of one number write from its word on, as many words as it is encoded in. -/
theorem mc_writes (config : MitsubishiMc.McConfig) (item : DriverWriteItem) {tag : TypeTag}
    (carried : carrierTag item.value = some tag) {a : MitsubishiMc.DeviceAddress}
    (parsed : MitsubishiMc.parse item.address = .ok a) {plans : List MitsubishiMc.WritePlan}
    {failed : List (Nat × DriverErrorInfo)}
    (sent : MitsubishiMc.sentPlans config [item] = .ok (plans, failed)) {width : Nat}
    (bound : ∀ encoded, MitsubishiMc.encodeWrite a.kind item.value = .ok encoded →
      encoded.points ≤ width) :
    ∀ plan ∈ plans, ∀ kind n, plan.Writes kind n →
      kind = a.kind ∧ a.number ≤ n ∧ n < a.number + width := by
  obtain ⟨ffiItem, encodes, id, address, valueType, received⟩ := decodeItems_encodeItems carried
    fun item value => (⟨item.id, item.address, value⟩ : WriteRequest)
  have planned : MitsubishiMc.planWriteBatch [⟨ffiItem.id, ffiItem.address, item.value⟩]
      config.maxWordPointsPerAccess config.maxBitPointsPerAccess = .ok (plans, failed) := by
    simpa [MitsubishiMc.sentPlans, encodes, received, bind, Except.bind] using sent
  rw [← address] at parsed
  rcases MitsubishiMc.planWriteBatch_singleton ⟨ffiItem.id, ffiItem.address, item.value⟩ parsed _ _
    planned with rfl | ⟨encoded, ok, rfl⟩
  · intro plan none
    cases none
  · intro plan one kind n writes
    cases List.mem_singleton.mp one
    have number_le := a.number_le
    have points_le := bound encoded ok
    have four : encoded.points ≤ 4 := (MitsubishiMc.encodeWrite_shape ok).1.2
    have start : (UInt32.ofNat a.number).toNat = a.number := by
      rw [UInt32.toNat_ofNat']
      omega
    have points : (UInt16.ofNat encoded.points).toNat = encoded.points := by
      rw [UInt16.toNat_ofNat']
      omega
    simp only [MitsubishiMc.WritePlan.Writes, MitsubishiMc.flushWrite, List.head?_cons,
      Option.map_some,
      Option.getD_some, start, List.map_cons, List.map_nil, List.sum_singleton, points] at writes
    exact ⟨writes.1, writes.2.1, by omega⟩

/-- A property write keeps to its registers: what `encode_write` encodes for a property of
numbers is written by the Modbus driver to holding registers, and by the MC driver to words,
that the driver reads for the raw type of the property; all others are spared. -/
theorem encodeWrite_spares (fmt : DebugFmt) {property : ProfileProperty} {semantic : Value}
    (numeric : isNumeric property.valueType = true)
    (encoded : encodeWrite property semantic = .ok raw) (id : Nat) :
    (∀ (config : Modbus.ModbusConfig) a plans failed,
      Modbus.parseAddress fmt property.driverAddress config.unitId = .ok a →
      a.kind = .holdingRegister →
      Modbus.sentPlans fmt config [⟨id, property.driverAddress, raw⟩] = .ok (plans, failed) →
      ∀ unit kind n,
        ¬(unit = a.unitId ∧ kind = .holdingRegister ∧ a.offset ≤ n ∧
          n < a.offset + Modbus.typeWords property.rawType) →
        (∀ plan ∈ plans, ¬plan.Writes unit kind n) ∧
          ∀ memory : Modbus.Memory,
            (memory.performAll plans).bit unit kind n = memory.bit unit kind n ∧
            (memory.performAll plans).register unit kind n = memory.register unit kind n) ∧
    (∀ (config : MitsubishiMc.McConfig) a plans failed,
      MitsubishiMc.parse property.driverAddress = .ok a → a.kind.isBit = false →
      MitsubishiMc.sentPlans config [⟨id, property.driverAddress, raw⟩] = .ok (plans, failed) →
      ∀ kind n,
        ¬(kind = a.kind ∧ a.number ≤ n ∧
          n < a.number + MitsubishiMc.wordWidth (some property.rawType)) →
        (∀ plan ∈ plans, ¬plan.Writes kind n) ∧
          ∀ memory : MitsubishiMc.Memory,
            (memory.performAll plans).bit kind n = memory.bit kind n ∧
            (memory.performAll plans).word kind n = memory.word kind n) := by
  have rawOf := encodeWrite_rawOf numeric encoded
  obtain ⟨tag, carried⟩ := rawOf.carried
  constructor
  · intro config a plans failed parsed holding sent unit kind n outside
    have words := carrierWords_le rawOf
    have spared : ∀ plan ∈ plans, ¬plan.Writes unit kind n := by
      intro plan inside writes
      obtain ⟨same, segment, low, high⟩ :=
        modbus_writes fmt config ⟨id, _, raw⟩ carried parsed holding sent plan inside _ _ _ writes
      exact outside ⟨same, segment, low, by dsimp only at high; omega⟩
    exact ⟨spared, Modbus.performAll_of_not_writes spared⟩
  · intro config a plans failed parsed word sent kind n outside
    have spared : ∀ plan ∈ plans, ¬plan.Writes kind n := by
      intro plan inside writes
      exact outside (mc_writes config ⟨id, _, raw⟩ carried parsed sent
        (fun _ ok => encodeWrite_points_le rawOf word ok) plan inside _ _ writes)
    exact ⟨spared, MitsubishiMc.performAll_of_not_writes spared⟩

/-- Hundredths in a register of 16 bits. -/
def hundredths (address : String) : ProfileProperty where
  driverAddress := address
  rawType := .u16
  valueType := .f64
  scale := 0x3F847AE147AE147B
  offset := 0
  writeRounding := .nearest
  writable := true
  min := some (.f64 0)
  max := none

/-- The number that was encoded as an unsigned integer. -/
def encodedNumber : Except ConversionError RawValue → Option UInt64
  | .ok (.u64 v) => some v
  | _ => none

theorem encodeWrite_hundredths (address : String) (one : address ∈ ["1!40001", "D100"]) :
    encodeWrite (hundredths address) (.i32 50) = .ok (.u64 5000) := by
  have number : ∀ address ∈ ["1!40001", "D100"],
      encodedNumber (encodeWrite (hundredths address) (.i32 50)) = some 5000 := by decide +kernel
  have here := number address one
  unfold encodedNumber at here
  split at here
  next v eq => rw [eq, Option.some.inj here]
  next => cases here

/-- 50 is written as 5000 to one register, and to one word. -/
theorem encodeWrite_spares_hundredths :
    (∃ plans, Modbus.sentPlans plainDebug Modbus.tcpConfig [⟨1, "1!40001", .u64 5000⟩] =
        .ok (plans, []) ∧
      ∀ memory : Modbus.Memory, (memory.performAll plans).register 1 .holdingRegister 1 =
        memory.register 1 .holdingRegister 1) ∧
    ∃ plans, MitsubishiMc.sentPlans MitsubishiMc.plcConfig.toMcConfig [⟨1, "D100", .u64 5000⟩] =
        .ok (plans, []) ∧
      ∀ memory : MitsubishiMc.Memory, (memory.performAll plans).word .d 101 = memory.word .d 101 :=
  ⟨⟨_, rfl, fun memory =>
      (((encodeWrite_spares plainDebug rfl (encodeWrite_hundredths "1!40001" (by decide)) 1).1
        Modbus.tcpConfig _ _ _
        rfl rfl rfl 1 .holdingRegister 1 (by decide)).2 memory).2⟩,
    ⟨_, rfl, fun memory =>
      (((encodeWrite_spares plainDebug rfl (encodeWrite_hundredths "D100" (by decide)) 1).2
        MitsubishiMc.plcConfig.toMcConfig _ _ _ rfl rfl rfl .d 101 (by decide)).2 memory).2⟩⟩

end ForgeLink.Profile
