import ForgeLink.Drivers.ModbusDevice
import ForgeLink.Drivers.ModbusWrite

/-!
# What a Modbus device does with a write

A device that takes a write frame puts its values into the coils or the
registers from the start offset on, and changes nothing else.
-/

namespace ForgeLink.Drivers.Modbus

open Lib

variable {unit : UInt8} {kind : RegisterKind} {n words : Nat} {data : Bytes} {e : WriteGroupEntry}

/-- Put bytes into the holding registers from `start` on, two to a register. -/
def Memory.setRegisters (memory : Memory) (unitId : UInt8) (start : Nat) (data : Bytes) :
    Memory where
  bit := memory.bit
  register unit kind n :=
    if unit = unitId ∧ kind = .holdingRegister ∧ start ≤ n ∧ n < start + data.length / 2 then
      UInt16.ofNat (ofBeBytes ((data.drop (2 * (n - start))).take 2))
    else memory.register unit kind n

/-- Put bits into the coils from `start` on. -/
def Memory.setCoils (memory : Memory) (unitId : UInt8) (start : Nat) (bits : List Bool) :
    Memory where
  bit unit kind n :=
    if unit = unitId ∧ kind = .coil ∧ start ≤ n ∧ n < start + bits.length then
      bits.getD (n - start) false
    else memory.bit unit kind n
  register := memory.register

/-- What the device does with a write frame. -/
def Memory.perform (memory : Memory) (plan : WritePlan) : Memory :=
  let start := plan.startOffset.toNat
  let quantity := ofBeBytes (plan.payload.take 2)
  let data := plan.payload.drop 3
  if plan.function = 0x05 then memory.setCoils plan.unitId start [plan.payload = [0xFF, 0x00]]
  else if plan.function = 0x06 then memory.setRegisters plan.unitId start plan.payload
  else if plan.function = 0x0F then
    memory.setCoils plan.unitId start
      ((List.range quantity).map fun i => bitOf (data.getD (i / 8) 0) (i % 8))
  else if plan.function = 0x10 then
    memory.setRegisters plan.unitId start (data.take (2 * quantity))
  else memory

/-- The device takes the frames in the order they are sent. -/
def Memory.performAll (memory : Memory) (plans : List WritePlan) : Memory :=
  plans.foldl Memory.perform memory

/-- The segment that a frame writes. -/
def WritePlan.segment (plan : WritePlan) : RegisterKind :=
  if plan.function = 0x05 ∨ plan.function = 0x0F then .coil else .holdingRegister

/-- The number of coils or registers that a frame writes. -/
def WritePlan.quantity (plan : WritePlan) : Nat :=
  if plan.function = 0x05 then 1
  else if plan.function = 0x06 then plan.payload.length / 2
  else ofBeBytes (plan.payload.take 2)

/-- The coils or registers that a frame writes. -/
def WritePlan.Writes (plan : WritePlan) (unit : UInt8) (kind : RegisterKind) (n : Nat) : Prop :=
  unit = plan.unitId ∧ kind = plan.segment ∧ plan.startOffset.toNat ≤ n ∧
    n < plan.startOffset.toNat + plan.quantity

/-! ## Registers that were written -/

theorem register_setRegisters_of_not_mem (memory : Memory) {unitId : UInt8} {start : Nat}
    (out : ¬(unit = unitId ∧ kind = .holdingRegister ∧ start ≤ n ∧ n < start + data.length / 2)) :
    (memory.setRegisters unitId start data).register unit kind n = memory.register unit kind n :=
  if_neg out

/-- A plan changes what it writes only. -/
theorem perform_of_not_writes {plan : WritePlan} (spared : ¬plan.Writes unit kind n)
    (memory : Memory) :
    (memory.perform plan).bit unit kind n = memory.bit unit kind n ∧
      (memory.perform plan).register unit kind n = memory.register unit kind n := by
  unfold WritePlan.Writes at spared
  simp only [Memory.perform]
  split
  next single =>
    have segment : plan.segment = .coil := by simp [WritePlan.segment, single]
    have quantity : plan.quantity = 1 := by simp [WritePlan.quantity, single]
    rw [segment, quantity] at spared
    exact ⟨if_neg spared, rfl⟩
  next =>
    split
    next single =>
      have segment : plan.segment = .holdingRegister := by simp [WritePlan.segment, single]
      have quantity : plan.quantity = plan.payload.length / 2 := by
        simp [WritePlan.quantity, single]
      rw [segment, quantity] at spared
      exact ⟨rfl, if_neg spared⟩
    next =>
      split
      next multiple =>
        have segment : plan.segment = .coil := by simp [WritePlan.segment, multiple]
        have quantity : plan.quantity = ofBeBytes (plan.payload.take 2) := by
          simp [WritePlan.quantity, multiple]
        rw [segment, quantity] at spared
        exact ⟨if_neg (by simpa using spared), rfl⟩
      next =>
        split
        next multiple =>
          have segment : plan.segment = .holdingRegister := by simp [WritePlan.segment, multiple]
          have quantity : plan.quantity = ofBeBytes (plan.payload.take 2) := by
            simp [WritePlan.quantity, multiple]
          rw [segment, quantity] at spared
          refine ⟨rfl, if_neg ?_⟩
          rintro ⟨rfl, rfl, low, high⟩
          refine spared ⟨rfl, rfl, low, ?_⟩
          simp only [List.length_take] at high
          omega
        next => exact ⟨rfl, rfl⟩

/-- What no frame writes is kept. -/
theorem performAll_of_not_writes {plans : List WritePlan}
    (spared : ∀ plan ∈ plans, ¬plan.Writes unit kind n) (memory : Memory) :
    (memory.performAll plans).bit unit kind n = memory.bit unit kind n ∧
      (memory.performAll plans).register unit kind n = memory.register unit kind n := by
  induction plans generalizing memory with
  | nil => exact ⟨rfl, rfl⟩
  | cons plan plans ih =>
    obtain ⟨bit, register⟩ := ih (fun p inside => spared p (List.mem_cons_of_mem _ inside))
      (memory.perform plan)
    obtain ⟨bit', register'⟩ := perform_of_not_writes (spared plan List.mem_cons_self) memory
    exact ⟨bit.trans bit', register.trans register'⟩

/-- What was written is read, and then what stood behind it. -/
theorem answer_setRegisters (memory : Memory) (unitId : UInt8) (start : Nat)
    (len : data.length = words * 2) (more : Nat) :
    (memory.setRegisters unitId start data).answer unitId .holdingRegister start (words + more) =
      data ++ memory.answer unitId .holdingRegister (start + words) more := by
  have written : ((List.range words).flatMap fun i =>
      beBytes 2 ((memory.setRegisters unitId start data).register unitId .holdingRegister
        (start + i)).toNat) = data := by
    clear more
    induction words generalizing data start with
    | zero =>
      simp only [Nat.zero_mul, List.length_eq_zero_iff] at len
      simp [len]
    | succ words ih =>
      match data, len with
      | [_], len =>
        simp only [List.length_singleton] at len
        omega
      | a :: b :: data, len =>
        have rest := ih (start + 1) (show data.length = words * 2 by
          simp only [List.length_cons] at len
          omega)
        have low : ofBeBytes [a, b] < 65536 := by
          have lt := ofLeBytes_lt [b, a]
          simpa [ofBeBytes] using lt
        rw [List.range_succ_eq_map, List.flatMap_cons, List.flatMap_map]
        have first : (memory.setRegisters unitId start (a :: b :: data)).register unitId
            .holdingRegister (start + 0) = UInt16.ofNat (ofBeBytes [a, b]) := by
          simp [Memory.setRegisters]
        have others : ∀ i, i < words →
            (memory.setRegisters unitId start (a :: b :: data)).register unitId .holdingRegister
              (start + (i + 1)) =
            (memory.setRegisters unitId (start + 1) data).register unitId .holdingRegister
              (start + 1 + i) := by
          intro i small
          have half : (data.length + 2) / 2 = data.length / 2 + 1 := by omega
          have index : 2 * (start + (i + 1) - start) = 2 * i + 1 + 1 := by omega
          have index' : 2 * (start + 1 + i - (start + 1)) = 2 * i := by omega
          have inside : start ≤ start + (i + 1) ∧
            start + (i + 1) < start + (data.length / 2 + 1) := by
            simp only [List.length_cons] at len
            omega
          have inside' : start + 1 ≤ start + 1 + i ∧
            start + 1 + i < start + 1 + data.length / 2 := by
            simp only [List.length_cons] at len
            omega
          simp only [Memory.setRegisters, List.length_cons, half, index, index', inside,
            inside', and_self, if_true, List.drop_succ_cons]
        rw [first, List.flatMap_congr (g := fun i =>
          beBytes 2 ((memory.setRegisters unitId (start + 1) data).register unitId
            .holdingRegister (start + 1 + i)).toNat)
          fun i inside => by rw [others i (List.mem_range.mp inside)], rest]
        simp only [UInt16.toNat_ofNat', Nat.mod_eq_of_lt low]
        show beBytes [a, b].length (ofBeBytes [a, b]) ++ data = _
        rw [beBytes_ofBeBytes]
        rfl
  have behind : ∀ i, (memory.setRegisters unitId start data).register unitId .holdingRegister
      (start + (words + i)) = memory.register unitId .holdingRegister (start + words + i) := by
    intro i
    rw [register_setRegisters_of_not_mem memory (by omega), Nat.add_assoc]
  simp only [Memory.answer, RegisterKind.isBit, Bool.false_eq_true, if_false, List.range_add,
    List.flatMap_append, List.flatMap_map, written, behind]

/-! ## A batch of one item -/

theorem writeChunksOf_singleton (e : WriteGroupEntry) : writeChunksOf [e] = [(e.key, [e])] := by
  simp [writeChunksOf, batches, groups, sortByKey, cutWriteGroup, runs, runsFrom]

theorem registers_of_entry (encoded : e.encoded = .registers data) (len : data.length = words * 2)
    (small : words ≤ 4) :
    (UInt16.ofNat e.address.offset).toNat = e.address.offset ∧ e.units = words ∧ e.data = data ∧
      ofBeBytes (beBytes 2 words) = words := by
  refine ⟨?_, ?_, ?_, ?_⟩
  · have lt := e.address.offset_lt
    simp only [UInt16.toNat_ofNat']
    omega
  · simp [WriteGroupEntry.units, encoded, EncodedWrite.units, len]
  · simp [WriteGroupEntry.data, encoded]
  · rw [ofBeBytes_beBytes]
    omega

/-- The plan of one item writes the registers of the item. -/
theorem writes_singleton (kind : e.address.kind = .holdingRegister)
    (encoded : e.encoded = .registers data) (len : data.length = words * 2) (small : words ≤ 4)
    {k : RegisterKind} :
    (emitWritePlan e.key [e]).Writes unit k n ↔ unit = e.address.unitId ∧ k = .holdingRegister ∧
      e.address.offset ≤ n ∧ n < e.address.offset + words := by
  obtain ⟨offset, units, bytes, quantity⟩ := registers_of_entry encoded len small
  have two : (beBytes 2 words).length = 2 := length_beBytes 2 words
  by_cases single : words = 1
  · subst single
    simp [emitWritePlan, buildWritePayload, WriteGroupEntry.key, kind, units, bytes,
      WritePlan.Writes,
      WritePlan.segment, WritePlan.quantity, offset, len]
  · simp [emitWritePlan, buildWritePayload, WriteGroupEntry.key, kind, units, bytes, single,
      WritePlan.Writes, WritePlan.segment, WritePlan.quantity, offset, quantity, two]

/-- The plan of one item writes the item. -/
theorem perform_singleton (memory : Memory) (kind : e.address.kind = .holdingRegister)
    (encoded : e.encoded = .registers data) (len : data.length = words * 2) (small : words ≤ 4) :
    memory.perform (emitWritePlan e.key [e]) =
      memory.setRegisters e.address.unitId e.address.offset data := by
  obtain ⟨offset, units, bytes, quantity⟩ := registers_of_entry encoded len small
  obtain ⟨a, b, word_bytes, _⟩ := exists_beBytes_two words
  rw [word_bytes] at quantity
  have whole : data.take (2 * words) = data := List.take_of_length_le (by omega)
  by_cases single : words = 1
  · simp [emitWritePlan, buildWritePayload, WriteGroupEntry.key, kind, units, bytes, single,
      Memory.perform, offset]
  · simp [emitWritePlan, buildWritePayload, WriteGroupEntry.key, kind, units, bytes, single,
      Memory.perform, offset, word_bytes, quantity, whole]

end ForgeLink.Drivers.Modbus
