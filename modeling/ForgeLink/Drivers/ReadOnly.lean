import ForgeLink.Drivers.McWriteBatch
import ForgeLink.Drivers.ModbusWriteBatch
import ForgeLink.Drivers.S7WriteBatch

/-!
# Read-only areas

The drivers for Modbus, S7 and MC know areas that cannot be written.
`validate_address` reports them, the planners refuse them, and the encoders
refuse what they have no encoding for.  No plan writes such an area.  What is
reported and what can be written agree for every address but one kind: a special
register of MC is reported writable, although no value can be written to it.
-/

namespace ForgeLink.Drivers

open Lib

/-- What the driver says of an address. -/
structure AddressMetadata where
  canonicalAddress : String
  rawType : Option DataType
  readable : Bool
  writable : Bool

namespace Modbus

/-- `validate_address` of the Modbus driver. -/
def validateAddress (fmt : DebugFmt) (config : ModbusConfig) (address : String) :
    Except DriverErrorInfo AddressMetadata :=
  match parseAddress fmt address config.unitId with
  | .error e => .error (.invalidAddress (e.text fmt))
  | .ok parsed => .ok ⟨parsed.canonical, none, true, parsed.kind.writable⟩

/-- Some value that is written to this address gets a plan. -/
def CanWrite (fmt : DebugFmt) (config : ModbusConfig) (address : String) : Prop :=
  ∃ id valueType value plans errors,
    planWriteBatch fmt [⟨id, address, valueType, value⟩] config.unitId config.wordOrder =
      .ok (plans, errors) ∧ plans ≠ []

theorem canWrite_iff {fmt : DebugFmt} {config : ModbusConfig} {address : String} {a : ModbusAddress}
    (parsed : parseAddress fmt address config.unitId = .ok a) :
    CanWrite fmt config address ↔ a.kind.writable = true := by
  constructor
  · rintro ⟨id, valueType, value, plans, errors, planned, some⟩
    by_contra refused
    simp [planWriteBatch, admitItem, parsed, refused, bind, Except.bind] at planned
  · intro writable
    have fits := a.offset_lt
    -- a coil takes a bit, and a holding register one word
    obtain ⟨valueType, value, encoded, ok, units⟩ : ∃ valueType value encoded,
        encodeWriteValue fmt a.kind valueType value config.wordOrder = .ok encoded ∧
          encoded.units = 1 := by
      cases kind : a.kind with
      | coil => exact ⟨0, .bool true, _, rfl, rfl⟩
      | holdingRegister => exact ⟨TypeTag.u16.toU32, .u64 0, _, rfl, rfl⟩
      | discreteInput | inputRegister => simp [kind, RegisterKind.writable] at writable
    have admitted : admitItem fmt config.unitId config.wordOrder ⟨0, address, valueType, value⟩ =
        .ok (.inl ⟨0, a, encoded⟩) := by
      simp only [admitItem, parsed, writable, ok, units]
      rw [if_neg (by simp), if_neg (by omega)]
    have planned : planWriteBatch fmt [⟨0, address, valueType, value⟩] config.unitId
        config.wordOrder = .ok ([emitWritePlan (a.unitId, a.kind) [⟨0, a, encoded⟩]], []) := by
      simp [planWriteBatch, admitted, bind, Except.bind, pure, Except.pure,
        writeChunksOf_singleton, WriteGroupEntry.key]
    exact ⟨0, valueType, value, _, _, planned, List.cons_ne_nil _ []⟩

end Modbus

namespace S7comm

/-- `validate_address` of the S7 driver. -/
def validateAddress (address : String) : Except Stop AddressMetadata :=
  let wrapped (text : String) : Stop := .error (.invalidAddress (address ++ ": " ++ text))
  match parse address with
  | .error (.invalidSyntax text) => .error (wrapped text)
  | .error (.outOfRange text) => .error (wrapped text)
  | .error .panic => .error .panic
  | .ok parsed => .ok ⟨parsed.canonical, none, true, parsed.writable⟩

/-- Some value that is written to this address gets a plan. -/
def CanWrite (showF64 : UInt64 → String) (pdu : UInt16) (maxItems : Nat) (address : String) :
    Prop :=
  ∃ id value plans failed,
    planWriteBatch showF64 [⟨id, address, value⟩] pdu maxItems = .ok (plans, failed) ∧ plans ≠ []

theorem writeChunksOf_singleton (pdu : UInt16) (maxItems : Nat) (e : WriteEntry) :
    writeChunksOf pdu maxItems [e] = [(e.key, [e])] := by
  have cut : cutWriteGroup pdu maxItems e.key [e] = [[e]] := by
    unfold cutWriteGroup
    split <;> simp [runs, runsFrom]
  simp [writeChunksOf, batches, groups, sortByKey, cut]

theorem canWrite_iff (showF64 : UInt64 → String) (pdu : UInt16) (maxItems : Nat) {address : String}
    {a : S7Address} (parsed : parse address = .ok a) :
    CanWrite showF64 pdu maxItems address ↔ a.writable = true := by
  constructor
  · rintro ⟨id, value, plans, failed, planned, some⟩
    by_contra refused
    simp [planWriteBatch, admitItem, parsed, refused, bind, Except.bind, pure, Except.pure,
      writeChunksOf, batches, groups] at planned
    exact some planned.1.symm
  · intro writable
    obtain ⟨value, encoded, ok⟩ :
        ∃ value encoded, encodeWrite showF64 a.ty value = .ok encoded := by
      cases a.ty with
      | bit => exact ⟨.bool true, _, rfl⟩
      | byte | word | dword => exact ⟨.u64 0, _, rfl⟩
    have planned : planWriteBatch showF64 [⟨0, address, value⟩] pdu maxItems =
        .ok ([emitWritePlan (WriteEntry.key ⟨a, 0, encoded.payload⟩) [⟨a, 0, encoded.payload⟩]],
          []) := by
      simp [planWriteBatch, admitItem, parsed, writable, ok, bind, Except.bind, pure, Except.pure,
        writeChunksOf_singleton]
    exact ⟨0, value, _, _, planned, List.cons_ne_nil _ []⟩

/-- No plan covers a byte of the inputs. -/
theorem covers_not_input {showF64 : UInt64 → String} {items : List WriteRequest} {pdu : UInt16}
    {maxItems : Nat} {plans : List WritePlan} {failed : List (Nat × DriverErrorInfo)}
    (planned : planWriteBatch showF64 items pdu maxItems = .ok (plans, failed)) {plan : WritePlan}
    (inside : plan ∈ plans) {block : UInt8 × Nat} {n bit : Nat}
    (covers : plan.anyItem.Writes block n bit) : block.1 ≠ Area.input.code := by
  obtain ⟨admitted, parsed, planned⟩ := bind_eq_ok.mp planned
  cases planned
  obtain ⟨c, here, rfl⟩ := List.mem_map.mp inside
  obtain ⟨e, entry, own⟩ := exists_of_mem_batches here
  rw [(filterMap_of_admits ((forall₂_of_mapM parsed).imp fun _ _ => admits_admitItem)).1] at entry
  obtain ⟨item, _, asked⟩ := List.mem_filterMap.mp entry
  have area := (writeEntry_asks asked).writable
  have code : block.1 = e.address.area.code := by
    rw [covers.1]
    exact (congrArg WriteKey.areaCode own).symm
  rw [code]
  cases kind : e.address.area with
  | input => exact absurd kind area
  | db | marker | output => decide

end S7comm

namespace MitsubishiMc

/-- The prefix of a device. -/
def DeviceKind.canonicalPrefix : DeviceKind → String
  | .x => "X"
  | .y => "Y"
  | .m => "M"
  | .b => "B"
  | .s => "S"
  | .sm => "SM"
  | .d => "D"
  | .w => "W"
  | .r => "R"
  | .zr => "ZR"
  | .sd => "SD"

/-- The full form of an address. -/
def DeviceAddress.canonical (a : DeviceAddress) : String :=
  a.kind.canonicalPrefix ++ toString a.number

/-- `validate_address` of the MC driver. -/
def validateAddress (address : String) : Except DriverErrorInfo AddressMetadata :=
  match parse address with
  | .error e => .error (.invalidAddress (address ++ ": " ++ e.code ++ ": " ++ e.message))
  | .ok parsed => .ok ⟨parsed.canonical, none, true, parsed.kind.writable⟩

/-- Some value that is written to this address gets a plan. -/
def CanWrite (maxWordPoints maxBitPoints : UInt16) (address : String) : Prop :=
  ∃ id value plans failed,
    planWriteBatch [⟨id, address, value⟩] maxWordPoints maxBitPoints = .ok (plans, failed) ∧
      plans ≠ []

theorem canWrite_iff (maxWordPoints maxBitPoints : UInt16) {address : String} {a : DeviceAddress}
    (parsed : parse address = .ok a) :
    CanWrite maxWordPoints maxBitPoints address ↔ a.kind.writable = true ∧ a.kind ≠ .sd := by
  constructor
  · rintro ⟨id, value, plans, failed, planned, some⟩
    by_cases writable : a.kind.writable = true
    · refine ⟨writable, fun special => ?_⟩
      rcases planWriteBatch_singleton ⟨id, address, value⟩ parsed _ _ planned with none | ⟨e, ok, _⟩
      · exact some none
      · rw [special] at ok
        exact encodeWrite_sd value e ok
    · simp [planWriteBatch, admitItem, parsed, writable, bind, Except.bind, pure, Except.pure,
        writeChunksOf, batches, groups] at planned
      exact absurd planned.1.symm some
  · rintro ⟨writable, number⟩
    obtain ⟨value, encoded, ok⟩ : ∃ value encoded, encodeWrite a.kind value = .ok encoded := by
      cases kind : a.kind with
      | sd => exact absurd kind number
      | d | w | r | zr => exact ⟨.u64 0, _, rfl⟩
      | x | y | m | b | s | sm => exact ⟨.bool true, _, rfl⟩
    have planned : planWriteBatch [⟨0, address, value⟩] maxWordPoints maxBitPoints =
        .ok ([flushWrite a.kind [⟨a.kind, a.number, encoded.points, 0, encoded.data⟩]], []) := by
      simp [planWriteBatch, admitItem, parsed, writable, ok, bind, Except.bind, pure, Except.pure,
        writeChunksOf_singleton]
    exact ⟨0, value, _, _, planned, List.cons_ne_nil _ []⟩

/-- No plan writes a point of a read-only device. -/
theorem writes_not_readOnly {items : List WriteRequest} {maxWordPoints maxBitPoints : UInt16}
    {plans : List WritePlan} {failed : List (Nat × DriverErrorInfo)}
    (planned : planWriteBatch items maxWordPoints maxBitPoints = .ok (plans, failed))
    {plan : WritePlan} (inside : plan ∈ plans) {kind : DeviceKind} {n : Nat}
    (writes : plan.Writes kind n) : kind ≠ .x ∧ kind ≠ .sm ∧ kind ≠ .sd := by
  obtain ⟨admitted, parsed, planned⟩ := bind_eq_ok.mp planned
  cases planned
  obtain ⟨c, here, rfl⟩ := List.mem_map.mp inside
  obtain ⟨e, entry, own⟩ := exists_of_mem_batches here
  rw [(filterMap_of_admits ((forall₂_of_mapM parsed).imp fun _ _ => admits_admitItem)).1] at entry
  obtain ⟨item, _, asked⟩ := List.mem_filterMap.mp entry
  have same : kind = e.kind := writes.1.trans own.symm
  rw [same]
  exact (writeEntry_asks asked).sound.writable

end MitsubishiMc

/-- No plan writes a read-only area.  `validate_address` reports that an address is writable
just if some value can be written there, for every address of Modbus and S7, and for one
of MC just if it is no special register. -/
theorem writable_iff_canWrite (fmt : DebugFmt) (showF64 : UInt64 → String) :
    (∀ items unitId order plans errors,
      Modbus.planWriteBatch fmt items unitId order = .ok (plans, errors) →
      ∀ plan ∈ plans, ∀ unit kind n, plan.Writes unit kind n →
        kind ≠ .discreteInput ∧ kind ≠ .inputRegister) ∧
    (∀ config address a, Modbus.parseAddress fmt address config.unitId = .ok a →
      ∃ m, Modbus.validateAddress fmt config address = .ok m ∧
        (m.writable = true ↔ Modbus.CanWrite fmt config address)) ∧
    (∀ items pdu maxItems plans failed,
      S7comm.planWriteBatch showF64 items pdu maxItems = .ok (plans, failed) →
      ∀ plan ∈ plans, ∀ block n bit, plan.anyItem.Writes block n bit →
        block.1 ≠ S7comm.Area.input.code) ∧
    (∀ pdu maxItems address a, S7comm.parse address = .ok a →
      ∃ m, S7comm.validateAddress address = .ok m ∧
        (m.writable = true ↔ S7comm.CanWrite showF64 pdu maxItems address)) ∧
    (∀ items maxWordPoints maxBitPoints plans failed,
      MitsubishiMc.planWriteBatch items maxWordPoints maxBitPoints = .ok (plans, failed) →
      ∀ plan ∈ plans, ∀ kind n, plan.Writes kind n → kind ≠ .x ∧ kind ≠ .sm ∧ kind ≠ .sd) ∧
    ∀ maxWordPoints maxBitPoints address a, MitsubishiMc.parse address = .ok a →
      ∃ m, MitsubishiMc.validateAddress address = .ok m ∧
        ((m.writable = true ↔ MitsubishiMc.CanWrite maxWordPoints maxBitPoints address) ↔
          a.kind ≠ .sd) := by
  refine ⟨?_, ?_, ?_, ?_, ?_, ?_⟩
  · intro items unitId order plans errors planned plan inside unit kind n writes
    rw [writes.2.1, Modbus.WritePlan.segment]
    split <;> decide
  · intro config address a parsed
    refine ⟨⟨a.canonical, none, true, a.kind.writable⟩, ?_, (Modbus.canWrite_iff parsed).symm⟩
    simp [Modbus.validateAddress, parsed]
  · intro items pdu maxItems plans failed planned plan inside block n bit covers
    exact S7comm.covers_not_input planned inside covers
  · intro pdu maxItems address a parsed
    refine ⟨⟨a.canonical, none, true, a.writable⟩, ?_,
      (S7comm.canWrite_iff showF64 pdu maxItems parsed).symm⟩
    simp [S7comm.validateAddress, parsed]
  · intro items maxWordPoints maxBitPoints plans failed planned plan inside kind n writes
    exact MitsubishiMc.writes_not_readOnly planned inside writes
  · intro maxWordPoints maxBitPoints address a parsed
    refine ⟨⟨a.canonical, none, true, a.kind.writable⟩, by
      simp [MitsubishiMc.validateAddress, parsed], ?_⟩
    rw [MitsubishiMc.canWrite_iff maxWordPoints maxBitPoints parsed]
    by_cases special : a.kind = .sd
    · simp [special, MitsubishiMc.DeviceKind.writable]
    · simp [special]

/-- An input register of Modbus, an input of S7 and a data register of MC. -/
theorem writable_iff_canWrite_samples :
    (∃ m, Modbus.validateAddress plainDebug Modbus.tcpConfig "30001" = .ok m ∧
      (m.writable = true ↔ Modbus.CanWrite plainDebug Modbus.tcpConfig "30001")) ∧
    (∃ m, S7comm.validateAddress "ib0" = .ok m ∧
      (m.writable = true ↔ S7comm.CanWrite (fun _ => "") 240 20 "ib0")) ∧
    ∃ m, MitsubishiMc.validateAddress "D100" = .ok m ∧
      (m.writable = true ↔ MitsubishiMc.CanWrite 960 720 "D100") := by
  obtain ⟨_, modbus, _, s7, _, mc⟩ := writable_iff_canWrite plainDebug fun _ => ""
  obtain ⟨m, valid, agrees⟩ := mc 960 720 "D100" _ rfl
  exact ⟨modbus Modbus.tcpConfig "30001" _ rfl, s7 240 20 "ib0" _ rfl, m, valid,
    agrees.mpr (by decide)⟩

/-- A special register of MC is reported writable, and no value can be written to it. -/
theorem sd_reported_writable :
    (∃ m, MitsubishiMc.validateAddress "SD0" = .ok m ∧ m.writable = true) ∧
      ∀ maxWordPoints maxBitPoints, ¬MitsubishiMc.CanWrite maxWordPoints maxBitPoints "SD0" := by
  refine ⟨⟨_, rfl, rfl⟩, fun maxWordPoints maxBitPoints can => ?_⟩
  have parsed : MitsubishiMc.parse "SD0" = .ok ⟨.sd, 0, by decide⟩ := rfl
  exact ((MitsubishiMc.canWrite_iff maxWordPoints maxBitPoints parsed).mp can).2 rfl

end ForgeLink.Drivers
