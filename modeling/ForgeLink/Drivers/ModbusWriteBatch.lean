import ForgeLink.Drivers.ModbusWriteRead
import ForgeLink.Lib.Stores

/-!
# The Modbus driver: what the frames of a batch write

The planner of writes merges items that follow each other exactly, cuts long runs
at the limit of the protocol, and sends single values with other function codes.
A device that takes all the frames ends up with the memory that it would have if
the items of a unit and a segment were written one by one, in the order of their
addresses and for one address in the order they came (`planWriteBatch_writes`).
-/

namespace ForgeLink.Drivers.Modbus

open Lib

/-! ## Packed coils -/

variable {order : WordOrder} {bytes : Bytes} {fmt : DebugFmt}
variable {chunk : List WriteGroupEntry}

theorem bitOf_eq_testBit (byte : UInt8) {k : Nat} (small : k < 8) :
    bitOf byte k = byte.toNat.testBit k := by
  have value : (byte >>> UInt8.ofNat k &&& 1).toNat = (byte.toNat >>> k) &&& 1 := by
    simp [UInt8.toNat_and, UInt8.toNat_shiftRight, Nat.mod_eq_of_lt (show k < 256 by omega),
      Nat.mod_eq_of_lt small]
  rw [bitOf, Nat.testBit, Nat.and_comm, ← value]
  generalize byte >>> UInt8.ofNat k &&& 1 = last
  by_cases zero : last = 0
  · simp [zero]
  · have other : last.toNat ≠ 0 := fun eq => zero (UInt8.toNat_inj.mp eq)
    simp [zero, other]

theorem bitOf_or_shift (byte : UInt8) {i k : Nat} (i_lt : i < 8) (k_lt : k < 8) :
    bitOf (byte ||| (1 <<< UInt8.ofNat i)) k = (bitOf byte k || decide (i = k)) := by
  have power : (1 <<< UInt8.ofNat i : UInt8).toNat = 2 ^ i := by
    have small : 2 ^ i < 2 ^ 8 := Nat.pow_lt_pow_right (by decide) i_lt
    simp only [UInt8.toNat_shiftLeft, UInt8.toNat_one, UInt8.toNat_ofNat', Nat.one_shiftLeft]
    rw [Nat.mod_eq_of_lt (show i < 2 ^ 8 by omega), Nat.mod_eq_of_lt i_lt, Nat.mod_eq_of_lt small]
  rw [bitOf_eq_testBit _ k_lt, bitOf_eq_testBit _ k_lt, UInt8.toNat_or, Nat.testBit_or, power,
    Nat.testBit_two_pow]

/-- A step of the loop of `pack_bits` sets one bit. -/
theorem bitOf_modify {i j : Nat} (inside : i / 8 < bytes.length) :
    bitOf ((bytes.modify (i / 8) (· ||| (1 <<< UInt8.ofNat (i % 8)))).getD (j / 8) 0) (j % 8) =
      (bitOf (bytes.getD (j / 8) 0) (j % 8) || decide (i = j)) := by
  simp only [List.getD_eq_getElem?_getD, List.getElem?_modify]
  by_cases same : i / 8 = j / 8
  · have here : bytes[j / 8]? = some bytes[j / 8] := List.getElem?_eq_getElem (same ▸ inside)
    have bit : decide (i % 8 = j % 8) = decide (i = j) := by
      rw [decide_eq_decide]
      omega
    rw [← bit, ← bitOf_or_shift _ (Nat.mod_lt i (by decide)) (Nat.mod_lt j (by decide))]
    simp [same, here]
  · have other : i ≠ j := fun eq => same (by rw [eq])
    simp [same, other]

/-- The loop of `pack_bits`: a bit is set if it was set or one of the places is its own. -/
theorem bitOf_foldl {places : List (Bool × Nat)} (inside : ∀ p ∈ places, p.2 / 8 < bytes.length)
    (j : Nat) :
    bitOf ((places.foldl (fun bytes p => if p.1 then
        bytes.modify (p.2 / 8) (· ||| (1 <<< UInt8.ofNat (p.2 % 8))) else bytes) bytes).getD
          (j / 8) 0) (j % 8) =
      (bitOf (bytes.getD (j / 8) 0) (j % 8) || places.any fun p => p.1 && decide (p.2 = j)) := by
  induction places generalizing bytes with
  | nil => simp
  | cons p places ih =>
    obtain ⟨here, later⟩ := List.forall_mem_cons.mp inside
    rw [List.foldl_cons, List.any_cons]
    cases set : p.1 with
    | true =>
      rw [if_pos rfl, ih (by simpa using later), bitOf_modify here, Bool.true_and,
        Bool.or_assoc]
    | false => simpa using ih later

theorem bitOf_packBits (bits : List Bool) {j : Nat} (inside : j < bits.length) :
    bitOf ((packBits bits).getD (j / 8) 0) (j % 8) = bits.getD j false := by
  have clear : bitOf ((List.replicate ((bits.length + 7) / 8) (0 : UInt8)).getD (j / 8) 0)
      (j % 8) = false := by
    have zero : (List.replicate ((bits.length + 7) / 8) (0 : UInt8)).getD (j / 8) 0 = 0 := by
      rw [List.getD_eq_getElem?_getD, List.getElem?_replicate]
      split <;> rfl
    rw [zero, bitOf_eq_testBit _ (Nat.mod_lt j (by decide))]
    exact Nat.zero_testBit _
  rw [packBits, bitOf_foldl, clear, Bool.false_or, Bool.eq_iff_iff, List.any_eq_true]
  · simp [List.mem_zipIdx_iff_getElem?, inside]
  · rintro ⟨bit, i⟩ here
    have small := List.snd_lt_of_mem_zipIdx here
    simp only [List.length_replicate, Nat.add_zero] at small ⊢
    omega

theorem length_packBits (bits : List Bool) : (packBits bits).length = (bits.length + 7) / 8 := by
  have kept : ∀ (places : List (Bool × Nat)) (bytes : Bytes),
      (places.foldl (fun bytes p => if p.1 then
        bytes.modify (p.2 / 8) (· ||| (1 <<< UInt8.ofNat (p.2 % 8))) else bytes) bytes).length =
        bytes.length := by
    intro places
    induction places with
    | nil => exact fun _ => rfl
    | cons p places ih =>
      intro bytes
      rw [List.foldl_cons, ih]
      split <;> simp
  rw [packBits, kept, List.length_replicate]

/-! ## Writes one behind the other -/

/-- The words of register data. -/
def registersOf (data : Bytes) : List UInt16 :=
  pairs (fun pair => UInt16.ofNat (ofBeBytes pair)) (data.length / 2) data

theorem setRegisters_eq (memory : Memory) (unitId : UInt8) (start : Nat) (data : Bytes) :
    memory.setRegisters unitId start data =
      { memory with
        register := fun unit kind =>
          if unit = unitId ∧ kind = .holdingRegister then
            storeAt start (registersOf data) (memory.register unit kind)
          else memory.register unit kind } := by
  simp only [Memory.setRegisters, Memory.mk.injEq, true_and]
  funext unit kind n
  by_cases own : unit = unitId ∧ kind = .holdingRegister
  · simp [own, registersOf, pairs, storeAt_range]
  · rw [if_neg own, if_neg fun h => own ⟨h.1, h.2.1⟩]

theorem setCoils_eq (memory : Memory) (unitId : UInt8) (start : Nat) (bits : List Bool) :
    memory.setCoils unitId start bits =
      { memory with
        bit := fun unit kind =>
          if unit = unitId ∧ kind = .coil then storeAt start bits (memory.bit unit kind)
          else memory.bit unit kind } := by
  simp only [Memory.setCoils, Memory.mk.injEq, and_true]
  funext unit kind n
  by_cases own : unit = unitId ∧ kind = .coil
  · simp [own, storeAt_eq_ite start bits _ false]
  · rw [if_neg own, if_neg fun h => own ⟨h.1, h.2.1⟩]

theorem setRegisters_nil (memory : Memory) (unitId : UInt8) (start : Nat) :
    memory.setRegisters unitId start [] = memory := by
  simp [setRegisters_eq, registersOf, pairs, storeAt_nil]

theorem setCoils_nil (memory : Memory) (unitId : UInt8) (start : Nat) :
    memory.setCoils unitId start [] = memory := by
  simp [setCoils_eq, storeAt_nil]

theorem setRegisters_append (memory : Memory) (unitId : UInt8) (start : Nat) {data data' : Bytes}
    {words : Nat} (len : data.length = words * 2) :
    memory.setRegisters unitId start (data ++ data') =
      (memory.setRegisters unitId start data).setRegisters unitId (start + words) data' := by
  have count : (registersOf data).length = words := by
    simp [registersOf, pairs, len]
  have joined : registersOf (data ++ data') = registersOf data ++ registersOf data' := by
    have half : data.length / 2 = words := by omega
    have both : (data ++ data').length / 2 = words + data'.length / 2 := by
      rw [List.length_append]
      omega
    rw [registersOf, registersOf, half, both]
    exact pairs_append _ (by omega) _ _
  simp only [setRegisters_eq, joined, storeAt_append, count, Memory.mk.injEq, true_and]
  funext unit kind
  split <;> rfl

theorem setCoils_append (memory : Memory) (unitId : UInt8) (start : Nat) (bits bits' : List Bool) :
    memory.setCoils unitId start (bits ++ bits') =
      (memory.setCoils unitId start bits).setCoils unitId (start + bits.length) bits' := by
  simp only [setCoils_eq, storeAt_append, Memory.mk.injEq, and_true]
  funext unit kind
  split <;> rfl

/-! ## Entries -/

/-- The contents after one item is written. -/
def Memory.store (memory : Memory) (e : WriteGroupEntry) : Memory :=
  match e.encoded with
  | .coil bit => memory.setCoils e.address.unitId e.address.offset [bit]
  | .registers data => memory.setRegisters e.address.unitId e.address.offset data

/-- The unit, segment and place that an item writes. -/
def WriteGroupEntry.Covers (e : WriteGroupEntry) (unitId : UInt8) (kind : RegisterKind) (n : Nat) :
    Prop :=
  e.key = (unitId, kind) ∧ e.address.offset ≤ n ∧ n < e.address.offset + e.units

/-- What an entry is: a bit for a coil, or one, two or four words for registers. -/
inductive WriteGroupEntry.Typed (e : WriteGroupEntry) : Prop where
  | coil {bit} : e.address.kind = .coil → e.encoded = .coil bit → e.Typed
  | registers {data words} :
      e.address.kind = .holdingRegister → e.encoded = .registers data →
      data.length = words * 2 → words = 1 ∨ words = 2 ∨ words = 4 → e.Typed

theorem length_orderWords {data : Bytes} (ordered : orderWords order bytes = .ok data) :
    ∃ words, data.length = words * 2 ∧ (words = 1 ∨ words = 2 ∨ words = 4) := by
  unfold orderWords at ordered
  split at ordered
  next len =>
    cases ordered
    exact ⟨1, len, .inl rfl⟩
  next len =>
    cases ordered
    exact ⟨2, length_reorderWords4 order len, .inr (.inl rfl)⟩
  next len =>
    cases ordered
    exact ⟨4, length_reorderWords8 order len, .inr (.inr rfl)⟩
  next => cases ordered

theorem encodeWriteValue_typed {itemId : Nat} {address : ModbusAddress} {valueType : UInt32}
    {value : RawValue} {encoded : EncodedWrite}
    (ok : encodeWriteValue fmt address.kind valueType value order = .ok encoded) :
    WriteGroupEntry.Typed ⟨itemId, address, encoded⟩ := by
  unfold encodeWriteValue at ok
  split at ok
  next coil =>
    split at ok
    · cases ok
      exact .coil coil rfl
    · cases ok
  next holding =>
    unfold encodeRegisterData at ok
    split at ok
    · cases ok
    next tag _ =>
      obtain ⟨data, encodes, ok⟩ := bind_eq_ok.mp ok
      obtain ⟨bytes, _, ordered⟩ := bind_eq_ok.mp encodes
      obtain ⟨words, len, few⟩ := length_orderWords ordered
      exact .registers holding (Except.ok.inj ok).symm len few
  next => cases ok

/-- What the planner knows of an entry. -/
structure WriteGroupEntry.Sound (e : WriteGroupEntry) : Prop where
  typed : e.Typed
  fits : e.address.offset + e.units ≤ 65536

/-- What an item asks for, if its value can be encoded. -/
def writeEntry (fmt : DebugFmt) (unitId : UInt8) (order : WordOrder) (item : WriteRequest) :
    Option WriteGroupEntry :=
  match parseAddress fmt item.address unitId with
  | .error _ => none
  | .ok address =>
    match encodeWriteValue fmt address.kind item.valueType item.value order with
    | .error _ => none
    | .ok encoded => some ⟨item.id, address, encoded⟩

/-- The loop of the planner admits what is asked for. -/
theorem admits_admitItem {unitId : UInt8} {item : WriteRequest}
    {r : WriteGroupEntry ⊕ RawWriteResult} (ok : admitItem fmt unitId order item = .ok r) :
    Admits RawWriteResult.itemId item.id (writeEntry fmt unitId order item) r ∧
      ∀ e, r = .inl e → e.Sound := by
  unfold admitItem at ok
  split at ok
  · cases ok
  next address parsed =>
    rw [writeEntry, parsed]
    dsimp only at ok ⊢
    split at ok
    · cases ok
    · cases value : encodeWriteValue fmt address.kind item.valueType item.value order with
      | error message =>
        rw [value] at ok
        cases ok
        exact ⟨.refused rfl, nofun⟩
      | ok encoded =>
        rw [value] at ok
        dsimp only at ok
        split at ok
        · cases ok
        next inside =>
          cases ok
          refine ⟨.entry, fun e eq => ?_⟩
          cases eq
          exact ⟨encodeWriteValue_typed value, Nat.le_of_not_lt inside⟩

namespace WriteGroupEntry

variable {e : WriteGroupEntry}

theorem Typed.units_pos (h : e.Typed) : 1 ≤ e.units ∧ e.units ≤ 4 := by
  cases h with
  | coil _ eq => simp [units, eq, EncodedWrite.units]
  | @registers bytes words _ eq len few =>
    have value : e.units = words := by
      rw [units, eq, EncodedWrite.units, len, Nat.mul_div_cancel _ (by decide : 0 < 2)]
    omega

theorem Typed.of_coil (h : e.Typed) (coil : e.address.kind = .coil) :
    e.encoded = .coil e.bit ∧ e.units = 1 := by
  cases h with
  | coil _ eq => simp [bit, units, eq, EncodedWrite.units]
  | registers holding =>
    rw [coil] at holding
    cases holding

theorem Typed.of_not_coil (h : e.Typed) (other : e.address.kind ≠ .coil) :
    e.address.kind = .holdingRegister ∧ e.encoded = .registers e.data ∧
      e.data.length = e.units * 2 := by
  cases h with
  | coil coil => exact absurd coil other
  | registers holding eq len =>
    refine ⟨holding, by simp [data, eq], ?_⟩
    rw [data, units, eq, EncodedWrite.units, len, Nat.mul_div_cancel _ (by decide : 0 < 2)]

end WriteGroupEntry

/-! ## Chunks -/

/-- Entries of one unit and segment that follow each other exactly. -/
def InLine (key : GroupKey) : Nat → List WriteGroupEntry → Prop
  | _, [] => True
  | start, e :: chunk =>
    e.key = key ∧ e.Typed ∧ e.address.offset = start ∧ InLine key (start + e.units) chunk

/-- The units of a chunk. -/
def unitsOf (chunk : List WriteGroupEntry) : Nat := (chunk.map WriteGroupEntry.units).sum

section

variable {key : GroupKey} {unitId : UInt8} {start : Nat}

theorem InLine.units_coils (line : InLine (unitId, .coil) start chunk) :
    unitsOf chunk = chunk.length := by
  induction chunk generalizing start with
  | nil => rfl
  | cons e chunk ih =>
    obtain ⟨own, typed, _, rest⟩ := line
    have one := (typed.of_coil (congrArg Prod.snd own)).2
    rw [unitsOf, List.map_cons, List.sum_cons, ← unitsOf, ih rest, one, List.length_cons,
      Nat.add_comm]

/-- The bits of a chunk are what its entries write. -/
theorem InLine.foldl_coils (line : InLine (unitId, .coil) start chunk) (memory : Memory) :
    chunk.foldl Memory.store memory =
      memory.setCoils unitId start (chunk.map WriteGroupEntry.bit) := by
  induction chunk generalizing start memory with
  | nil => exact (setCoils_nil ..).symm
  | cons e chunk ih =>
    obtain ⟨own, typed, rfl, rest⟩ := line
    obtain ⟨encoded, one⟩ := typed.of_coil (congrArg Prod.snd own)
    have unit : e.address.unitId = unitId := congrArg Prod.fst own
    rw [List.foldl_cons, ih rest, Memory.store, encoded, List.map_cons, ← List.singleton_append,
      setCoils_append, one, unit]
    rfl

theorem InLine.length_data (line : InLine (unitId, .holdingRegister) start chunk) :
    (chunk.flatMap WriteGroupEntry.data).length = unitsOf chunk * 2 := by
  induction chunk generalizing start with
  | nil => rfl
  | cons e chunk ih =>
    obtain ⟨own, typed, _, rest⟩ := line
    have kind : e.address.kind = .holdingRegister := congrArg Prod.snd own
    have words := (typed.of_not_coil (by rw [kind]; decide)).2.2
    rw [List.flatMap_cons, List.length_append, ih rest, words, unitsOf, unitsOf, List.map_cons,
      List.sum_cons, Nat.add_mul]

/-- The bytes of a chunk are what its entries write. -/
theorem InLine.foldl_registers (line : InLine (unitId, .holdingRegister) start chunk)
    (memory : Memory) :
    chunk.foldl Memory.store memory =
      memory.setRegisters unitId start (chunk.flatMap WriteGroupEntry.data) := by
  induction chunk generalizing start memory with
  | nil => exact (setRegisters_nil ..).symm
  | cons e chunk ih =>
    obtain ⟨own, typed, rfl, rest⟩ := line
    have kind : e.address.kind = .holdingRegister := congrArg Prod.snd own
    obtain ⟨_, encoded, words⟩ := typed.of_not_coil (by rw [kind]; decide)
    have unit : e.address.unitId = unitId := congrArg Prod.fst own
    rw [List.foldl_cons, ih rest, Memory.store, encoded, List.flatMap_cons,
      setRegisters_append _ _ _ words, unit]

theorem InLine.row (line : InLine key start chunk) :
    (∀ e ∈ chunk, e.key = key) ∧
      InRow (fun e => e.address.offset) WriteGroupEntry.units start chunk := by
  induction chunk generalizing start with
  | nil => exact ⟨nofun, trivial⟩
  | cons e chunk ih =>
    obtain ⟨own, _, here, rest⟩ := line
    exact ⟨List.forall_mem_cons.mpr ⟨own, (ih rest).1⟩, here, (ih rest).2⟩

end

/-! ## Frames -/

section

variable {key : GroupKey} {start : Nat}

/-- What a chunk of the planner is. -/
structure IsChunk (key : GroupKey) (start : Nat) (chunk : List WriteGroupEntry) : Prop where
  nonempty : chunk ≠ []
  small : start < 65536
  writable : key.2 = .coil ∨ key.2 = .holdingRegister
  line : InLine key start chunk
  limit : unitsOf chunk ≤ writeLimit key.2

theorem emitWritePlan_start (h : IsChunk key start chunk) :
    (emitWritePlan key chunk).unitId = key.1 ∧
      (emitWritePlan key chunk).startOffset.toNat = start := by
  cases chunk with
  | nil => exact absurd rfl h.nonempty
  | cons e chunk =>
    obtain ⟨_, _, here, _⟩ := h.line
    refine ⟨rfl, ?_⟩
    show (UInt16.ofNat e.address.offset).toNat = start
    rw [here, UInt16.toNat_ofNat', Nat.mod_eq_of_lt h.small]

/-- The frame of a chunk of one coil, of several coils, of one register, and of several. -/
inductive FrameOf (key : GroupKey) (chunk : List WriteGroupEntry) : Prop where
  | coil {e} :
      key.2 = .coil → chunk = [e] → (emitWritePlan key chunk).function = 0x05 →
      (emitWritePlan key chunk).payload = coilPayload e.bit → FrameOf key chunk
  | coils :
      key.2 = .coil → (emitWritePlan key chunk).function = 0x0F →
      (emitWritePlan key chunk).payload = beBytes 2 (unitsOf chunk) ++
        [UInt8.ofNat (packBits (chunk.map WriteGroupEntry.bit)).length] ++
        packBits (chunk.map WriteGroupEntry.bit) → FrameOf key chunk
  | register {e} :
      key.2 ≠ .coil → chunk = [e] → e.units = 1 → (emitWritePlan key chunk).function = 0x06 →
      (emitWritePlan key chunk).payload = e.data → FrameOf key chunk
  | registers :
      key.2 ≠ .coil → (emitWritePlan key chunk).function = 0x10 →
      (emitWritePlan key chunk).payload = beBytes 2 (unitsOf chunk) ++
        [UInt8.ofNat (chunk.flatMap WriteGroupEntry.data).length] ++
        chunk.flatMap WriteGroupEntry.data → FrameOf key chunk

/-- Every plan has one of the frames. -/
theorem frameOf (key : GroupKey) (chunk : List WriteGroupEntry) : FrameOf key chunk := by
  by_cases coil : key.2 = .coil
  · match chunk with
    | [] => exact .coils coil (by simp [emitWritePlan, buildWritePayload, coil]) (by
        simp [emitWritePlan, buildWritePayload, coil, unitsOf])
    | [e] => exact .coil coil rfl (by simp [emitWritePlan, buildWritePayload, coil]) (by
        simp [emitWritePlan, buildWritePayload, coil])
    | e :: e' :: chunk => exact .coils coil (by simp [emitWritePlan, buildWritePayload, coil]) (by
        simp [emitWritePlan, buildWritePayload, coil, unitsOf])
  · match chunk with
    | [] => exact .registers coil (by simp [emitWritePlan, buildWritePayload, coil]) (by
        simp [emitWritePlan, buildWritePayload, coil, unitsOf])
    | [e] =>
      by_cases one : e.units = 1
      · exact .register coil rfl one (by simp [emitWritePlan, buildWritePayload, coil, one]) (by
          simp [emitWritePlan, buildWritePayload, coil, one])
      · exact .registers coil (by simp [emitWritePlan, buildWritePayload, coil, one]) (by
          simp [emitWritePlan, buildWritePayload, coil, one, unitsOf])
    | e :: e' :: chunk =>
      exact .registers coil (by simp [emitWritePlan, buildWritePayload, coil]) (by
        simp [emitWritePlan, buildWritePayload, coil, unitsOf])

theorem ofBeBytes_quantity {n : Nat} (small : n < 65536) {rest : Bytes} :
    ofBeBytes ((beBytes 2 n ++ rest).take 2) = n := by
  have two : (beBytes 2 n).length = 2 := length_beBytes 2 n
  rw [List.take_append_of_le_length (by omega), List.take_of_length_le (by omega),
    ofBeBytes_beBytes]
  exact Nat.mod_eq_of_lt (by omega)

theorem drop_header (n : Nat) (count : UInt8) (data : Bytes) :
    (beBytes 2 n ++ [count] ++ data).drop 3 = data := by
  have three : (beBytes 2 n ++ [count]).length = 3 := by simp
  rw [← three, List.drop_left]

theorem writeLimit_le (kind : RegisterKind) : writeLimit kind ≤ 1968 := by
  unfold writeLimit
  split <;> omega

/-- The device does with the frame of a chunk what its entries ask for. -/
theorem perform_emitWritePlan (h : IsChunk key start chunk) (memory : Memory) :
    memory.perform (emitWritePlan key chunk) = chunk.foldl Memory.store memory := by
  obtain ⟨unit, begins⟩ := emitWritePlan_start h
  have small : unitsOf chunk < 65536 := by
    have limit := h.limit
    have bound := writeLimit_le key.2
    omega
  obtain ⟨unitId, kind⟩ := key
  cases frameOf (unitId, kind) chunk with
  | @coil e isCoil eq function payload =>
    obtain rfl : kind = .coil := isCoil
    have bit : decide (coilPayload e.bit = [0xFF, 0x00]) = e.bit := by
      cases e.bit <;> decide
    simp only [Memory.perform, function, if_true, unit, begins, payload, bit]
    rw [h.line.foldl_coils, eq]
    rfl
  | coils isCoil function payload =>
    obtain rfl : kind = .coil := isCoil
    have quantity : ofBeBytes ((emitWritePlan (unitId, .coil) chunk).payload.take 2) =
        unitsOf chunk := by
      rw [payload, List.append_assoc]
      exact ofBeBytes_quantity small
    have data : (emitWritePlan (unitId, .coil) chunk).payload.drop 3 =
        packBits (chunk.map WriteGroupEntry.bit) := by
      rw [payload]
      exact drop_header ..
    have bits : ((List.range (unitsOf chunk)).map fun i =>
        bitOf ((packBits (chunk.map WriteGroupEntry.bit)).getD (i / 8) 0) (i % 8)) =
        chunk.map WriteGroupEntry.bit := by
      rw [h.line.units_coils]
      refine List.ext_getElem (by simp) fun i here here' => ?_
      rw [List.getElem_map, List.getElem_range, bitOf_packBits _ here',
        List.getD_eq_getElem?_getD,
        List.getElem?_eq_getElem here', Option.getD_some]
    simp only [Memory.perform, function, unit, begins, quantity, data, bits]
    rw [h.line.foldl_coils]
    rfl
  | @register e notCoil eq one function payload =>
    obtain rfl : kind = .holdingRegister := h.writable.resolve_left notCoil
    simp only [Memory.perform, function, unit, begins, payload]
    rw [h.line.foldl_registers, eq]
    simp
  | registers notCoil function payload =>
    obtain rfl : kind = .holdingRegister := h.writable.resolve_left notCoil
    have quantity : ofBeBytes ((emitWritePlan (unitId, .holdingRegister) chunk).payload.take 2) =
        unitsOf chunk := by
      rw [payload, List.append_assoc]
      exact ofBeBytes_quantity small
    have data : (emitWritePlan (unitId, .holdingRegister) chunk).payload.drop 3 =
        chunk.flatMap WriteGroupEntry.data := by
      rw [payload]
      exact drop_header ..
    have whole : (chunk.flatMap WriteGroupEntry.data).take (2 * unitsOf chunk) =
        chunk.flatMap WriteGroupEntry.data :=
      List.take_of_length_le (by rw [h.line.length_data, Nat.mul_comm])
    simp only [Memory.perform, function, unit, begins, quantity, data, whole]
    rw [h.line.foldl_registers]
    rfl

end

/-! ## Batches -/

theorem flatten_cutWriteGroup (key : GroupKey) (group : List WriteGroupEntry) :
    (cutWriteGroup key group).flatten = group := by
  simp [cutWriteGroup]

/-- Entries that adjoin each other, in the order of their addresses, are in line. -/
theorem inLine_of_isChain {key : GroupKey} {e : WriteGroupEntry}
    (own : ∀ x ∈ e :: chunk, x.key = key ∧ x.Typed)
    (chain : List.IsChain (fun x y : WriteGroupEntry => y.address.offset = x.address.offset +
      x.units) (e :: chunk)) : InLine key e.address.offset (e :: chunk) := by
  induction chunk generalizing e with
  | nil =>
    obtain ⟨here, typed⟩ := own e List.mem_cons_self
    exact ⟨here, typed, rfl, trivial⟩
  | cons e' chunk ih =>
    obtain ⟨here, typed⟩ := own e List.mem_cons_self
    obtain ⟨next, rest⟩ := List.isChain_cons_cons.mp chain
    have later := ih (fun x inside => own x (List.mem_cons_of_mem e inside)) rest
    rw [next] at later
    exact ⟨here, typed, rfl, later⟩

theorem four_le_writeLimit (kind : RegisterKind) : 4 ≤ writeLimit kind := by
  unfold writeLimit
  split <;> omega

theorem unitsOf_le {kind : RegisterKind} (typed : ∀ e ∈ chunk, e.Typed)
    (chained : Chained (fitsWrite (writeLimit kind)) chunk) : unitsOf chunk ≤ writeLimit kind := by
  rcases List.eq_nil_or_concat chunk with rfl | ⟨front, last, rfl⟩
  · exact Nat.zero_le _
  · cases front with
    | nil =>
      have few := (typed last (by simp)).units_pos.2
      exact Nat.le_trans (by simpa [unitsOf] using few) (four_le_writeLimit kind)
    | cons e front =>
      have fitting := chained (e :: front) last [] (by simp) (by simp)
      simp only [fitsWrite, decide_eq_true_eq] at fitting
      simpa [unitsOf, Nat.add_assoc] using fitting

/-- What the planner cuts off is a chunk. -/
theorem isChunk {entries : List WriteGroupEntry} {key : GroupKey} (sound : ∀ e ∈ entries, e.Sound)
    (inside : (key, chunk) ∈ writeChunksOf entries) :
    (∀ e ∈ chunk, e ∈ entries) ∧ ∃ start, IsChunk key start chunk := by
  have entry : ∀ e ∈ chunk, e ∈ entries ∧ e.key = key := fun e here =>
    key_of_mem_batches flatten_cutWriteGroup inside here
  have typed : ∀ e ∈ chunk, e.Typed := fun e here => (sound e (entry e here).1).typed
  obtain ⟨group, _, cut⟩ := mem_batches.mp inside
  obtain ⟨run, run_inside, chunk_inside⟩ := List.mem_flatMap.mp cut
  have adjoined : List.IsChain (fun x y : WriteGroupEntry =>
      y.address.offset = (x.address.offset + x.units) % 65536) chunk :=
    isChain_of_mem_pieces run_inside chunk_inside fun front x y joined => by
      simpa [adjoins] using joined
  have sorted : chunk.Pairwise fun x y => x.address.address ≤ y.address.address :=
    pairwise_of_mem_runs (pairwise_of_mem_runs (sortByKey_sorted _ group) run_inside) chunk_inside
  -- The sum does not wrap: the entries are in the order of their addresses.
  have chain : List.IsChain (fun x y : WriteGroupEntry =>
      y.address.offset = x.address.offset + x.units) chunk := by
    rw [List.isChain_iff_forall_rel_of_append_cons_cons] at adjoined ⊢
    intro x y front back eq
    have next := adjoined eq
    have x_mem : x ∈ chunk := eq ▸ by simp
    have y_mem : y ∈ chunk := eq ▸ by simp
    have fits := (sound x (entry x x_mem).1).fits
    have few := (typed x x_mem).units_pos
    have kinds : x.address.kind = y.address.kind :=
      congrArg Prod.snd ((entry x x_mem).2.trans (entry y y_mem).2.symm)
    have order : x.address.offset ≤ y.address.offset := by
      rw [eq, List.pairwise_append, List.pairwise_cons] at sorted
      have le := sorted.2.1.1 y List.mem_cons_self
      rw [ModbusAddress.offset, ModbusAddress.offset, kinds]
      omega
    omega
  cases chunk with
  | nil => exact absurd rfl (ne_nil_of_mem_runs chunk_inside)
  | cons e chunk =>
    refine ⟨fun e here => (entry e here).1, e.address.offset, by simp, e.address.offset_lt, ?_,
      inLine_of_isChain (fun x here => ⟨(entry x here).2, typed x here⟩) chain,
      unitsOf_le typed (chained_of_mem_runs chunk_inside)⟩
    have kind : e.address.kind = key.2 := congrArg Prod.snd (entry e List.mem_cons_self).2
    rw [← kind]
    cases typed e List.mem_cons_self with
    | coil coil => exact .inl coil
    | registers holding => exact .inr holding

/-! ## One unit and segment -/

/-- Two memories have the same contents of a unit and segment. -/
def Memory.SameAt (key : GroupKey) (memory memory' : Memory) : Prop :=
  ∀ n, memory.bit key.1 key.2 n = memory'.bit key.1 key.2 n ∧
    memory.register key.1 key.2 n = memory'.register key.1 key.2 n

theorem Memory.SameAt.store {key : GroupKey} {memory memory' : Memory}
    (same : memory.SameAt key memory') (e : WriteGroupEntry) :
    (memory.store e).SameAt key (memory'.store e) := by
  intro n
  obtain ⟨bit, register⟩ := same n
  unfold Memory.store
  split
  · refine ⟨?_, register⟩
    simp only [Memory.setCoils]
    split
    · rfl
    · exact bit
  · refine ⟨bit, ?_⟩
    simp only [Memory.setRegisters]
    split
    · rfl
    · exact register

theorem writeEntry_id {fmt : DebugFmt} {unitId : UInt8} {order : WordOrder} {item : WriteRequest}
    {e : WriteGroupEntry} (asked : writeEntry fmt unitId order item = some e) :
    e.itemId = item.id := by
  unfold writeEntry at asked
  split at asked
  · cases asked
  · split at asked
    · cases asked
    · cases asked
      rfl

/-- Each item is planned or refused, not both. -/
theorem admitted_entries {fmt : DebugFmt} {unitId : UInt8} {order : WordOrder}
    {items : List WriteRequest} {admitted : List (WriteGroupEntry ⊕ RawWriteResult)}
    (each : List.Forall₂ (fun item a => admitItem fmt unitId order item = .ok a) items admitted) :
    admitted.filterMap Sum.getLeft? = items.filterMap (writeEntry fmt unitId order) ∧
      (∀ e ∈ admitted.filterMap Sum.getLeft?, e.Sound) ∧
      ((admitted.filterMap Sum.getLeft?).map WriteGroupEntry.itemId ++
        (admitted.filterMap Sum.getRight?).map RawWriteResult.itemId).Perm
        (items.map WriteRequest.id) := by
  obtain ⟨left, right⟩ := filterMap_of_admits (each.imp fun _ _ ok => (admits_admitItem ok).1)
  refine ⟨left, fun e inside => ?_, ?_⟩
  · obtain ⟨r, here, eq⟩ := List.mem_filterMap.mp inside
    obtain ⟨item, _, ok⟩ := exists_left_of_forall₂ each here
    exact (admits_admitItem ok).2 e (Sum.getLeft?_eq_some_iff.mp eq)
  · rw [left, right]
    exact perm_entries (fun _ _ => writeEntry_id) items

/-- Two coils in a row, two registers that a later item overlaps, and a value that cannot be
encoded. -/
def sampleWrites : List WriteRequest :=
  [⟨1, "1!coil:00001", TypeTag.bool.toU32, .bool true⟩,
    ⟨2, "1!40002", TypeTag.u16.toU32, .u64 5⟩,
    ⟨3, "1!40001", TypeTag.u32.toU32, .u64 70000⟩,
    ⟨4, "1!coil:00002", TypeTag.bool.toU32, .bool false⟩,
    ⟨5, "1!40005", TypeTag.bool.toU32, .bool true⟩]

end ForgeLink.Drivers.Modbus
