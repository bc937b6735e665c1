import ForgeLink.Drivers.Carrier
import ForgeLink.Drivers.ModbusReadBatch
import ForgeLink.Drivers.ModbusStore

/-!
# Writing a Modbus register and reading it back

An integer is sent as 64 bits, whatever the type of its property, and the driver
writes it in the least width that loses nothing; it is read in the width of the
type.  What was written is read back, for every content that the registers had
before, just if the two widths are the same (`write_read_iff`).
-/

namespace ForgeLink.Drivers.Modbus

open Lib

/-! ## What is sent -/

variable {bytes : Bytes} {t : DataType} {tag : TypeTag} {v : RawValue} {signed : Bool}
variable {w : Nat} {data d' : Bytes}

/-- The plans that the driver makes of the items of `NativeDriver::write`. -/
def sentPlans (fmt : DebugFmt) (config : ModbusConfig) (items : List DriverWriteItem) :
    Except DriverErrorInfo (List WritePlan × List RawWriteResult) :=
  match encodeItems items with
  | .error e => .error (mapLoaderError e)
  | .ok ffiItems => do
    let requests ← decodeItems
      (fun item value => (⟨item.id, item.address, item.valueType, value⟩ : WriteRequest)) ffiItems
    planWriteBatch fmt requests config.unitId config.wordOrder

/-- The registers that are written for a number that was sent with such a tag. -/
def carrierWords : RawValue → Nat
  | .i64 v => minimalSignedWords v
  | .u64 v => minimalUnsignedWords v
  | .f64 v => if f32Lossless v then 2 else 4
  | _ => 0

theorem carrierWords_cases (carried : carrierTag v = some tag) :
    carrierWords v = 1 ∨ carrierWords v = 2 ∨ carrierWords v = 4 := by
  cases v with
  | i64 v =>
    simp only [carrierWords, minimalSignedWords]
    split
    · exact .inl rfl
    · split
      · exact .inr (.inl rfl)
      · exact .inr (.inr rfl)
  | u64 v =>
    simp only [carrierWords, minimalUnsignedWords]
    split
    · exact .inl rfl
    · split
      · exact .inr (.inl rfl)
      · exact .inr (.inr rfl)
  | f64 v =>
    simp only [carrierWords]
    split
    · exact .inr (.inl rfl)
    · exact .inr (.inr rfl)
  | bool _ | string _ | bytes _ | array _ | struct _ => cases carried

/-! ## Orders of words -/

theorem length_reorderWords4 (order : WordOrder) (len : bytes.length = 4) :
    (reorderWords4 bytes order).length = 4 := by
  cases order <;> simp [reorderWords4, len]

theorem length_reorderWords8 (order : WordOrder) (len : bytes.length = 8) :
    (reorderWords8 bytes order).length = 8 := by
  cases order <;> simp [reorderWords8, len]

/-- Putting two words in order twice changes nothing. -/
theorem reorderWords4_reorderWords4 (order : WordOrder) (len : bytes.length = 4) :
    reorderWords4 (reorderWords4 bytes order) order = bytes := by
  match bytes, len with
  | [_, _, _, _], _ => cases order <;> rfl

/-- Putting four words in order twice changes nothing. -/
theorem reorderWords8_reorderWords8 (order : WordOrder) (len : bytes.length = 8) :
    reorderWords8 (reorderWords8 bytes order) order = bytes := by
  match bytes, len with
  | [_, _, _, _, _, _, _, _], _ => cases order <;> rfl

/-- The bytes of a number that was sent with such a tag. -/
theorem encode_carrier (v : RawValue) (carried : carrierTag v = some tag) (order : WordOrder) :
    ∃ bytes data, registerBytes tag v = .ok bytes ∧ bytes.length = carrierWords v * 2 ∧
      orderWords order bytes = .ok data ∧ data.length = carrierWords v * 2 ∧
      encodeRegisterData tag.toU32 v order = .ok data := by
  obtain ⟨bytes, raw, len⟩ : ∃ bytes, registerBytes tag v = .ok bytes ∧
      bytes.length = carrierWords v * 2 := by
    cases v with
    | i64 v =>
      cases carried
      exact ⟨_, rfl, by simp [signedBe, carrierWords]⟩
    | u64 v =>
      cases carried
      exact ⟨_, rfl, by simp [unsignedBe, carrierWords]⟩
    | f64 v =>
      cases carried
      simp only [registerBytes, carrierWords]
      split
      · exact ⟨_, rfl, by simp⟩
      · exact ⟨_, rfl, by simp⟩
    | bool _ | string _ | bytes _ | array _ | struct _ => cases carried
  have tagged : TypeTag.tryFrom tag.toU32 = .ok tag := tryFrom_toU32 tag
  have encoded : encodeRegisterData tag.toU32 v order = orderWords order bytes := by
    simp [encodeRegisterData, tagged, raw, bind, Except.bind]
  rw [encoded]
  rcases carrierWords_cases carried with one | two | four
  · rw [one] at len
    exact ⟨bytes, bytes, raw, by rw [len, one], by simp [orderWords, len], by rw [len, one],
      by simp [orderWords, len]⟩
  · rw [two] at len
    exact ⟨bytes, reorderWords4 bytes order, raw, by rw [len, two], by simp [orderWords, len],
      by rw [length_reorderWords4 order len, two], by simp [orderWords, len]⟩
  · rw [four] at len
    exact ⟨bytes, reorderWords8 bytes order, raw, by rw [len, four], by simp [orderWords, len],
      by rw [length_reorderWords8 order len, four], by simp [orderWords, len]⟩

/-- What is sent for one number to a holding register: one plan, or an error if the registers
would lie behind the last one. -/
theorem sentPlans_carrier (fmt : DebugFmt) (config : ModbusConfig) (item : DriverWriteItem)
    (carried : carrierTag item.value = some tag) {a : ModbusAddress}
    (parsed : parseAddress fmt item.address config.unitId = .ok a)
    (holding : a.kind = .holdingRegister) :
    ∃ data, data.length = carrierWords item.value * 2 ∧
      (∃ bytes, registerBytes tag item.value = .ok bytes ∧
        bytes.length = carrierWords item.value * 2 ∧
        orderWords config.wordOrder bytes = .ok data) ∧
      (a.offset + carrierWords item.value ≤ 65536 →
        sentPlans fmt config [item] =
          .ok ([emitWritePlan (a.unitId, a.kind) [⟨item.id, a, .registers data⟩]], [])) ∧
      (65536 < a.offset + carrierWords item.value →
        ∃ e, sentPlans fmt config [item] = .error e) := by
  obtain ⟨bytes, data, raw, bytes_len, ordered, len, encoded⟩ :=
    encode_carrier item.value carried config.wordOrder
  obtain ⟨ffiItem, sent, id, address, valueType, received⟩ := decodeItems_encodeItems carried
    fun item value => (⟨item.id, item.address, item.valueType, value⟩ : WriteRequest)
  have units : (EncodedWrite.registers data).units = carrierWords item.value := by
    simp [EncodedWrite.units, len]
  have value : encodeWriteValue fmt a.kind tag.toU32 item.value config.wordOrder =
      .ok (.registers data) := by
    simp [encodeWriteValue, holding, encoded, bind, Except.bind]
  have writable : a.kind.writable = true := by rw [holding]; rfl
  refine ⟨data, len, ⟨bytes, raw, bytes_len, ordered⟩, ?_, ?_⟩
  · intro small
    have admitted : admitItem fmt config.unitId config.wordOrder
        ⟨ffiItem.id, ffiItem.address, ffiItem.valueType, item.value⟩ =
        .ok (.inl ⟨item.id, a, .registers data⟩) := by
      simp only [admitItem, address, parsed, writable, valueType, value, units, id]
      rw [if_neg (by simp), if_neg (by omega)]
    simp [sentPlans, sent, received, bind, Except.bind, planWriteBatch, admitted, pure, Except.pure,
      writeChunksOf_singleton, WriteGroupEntry.key]
  · intro large
    have refused : ∃ e, admitItem fmt config.unitId config.wordOrder
        ⟨ffiItem.id, ffiItem.address, ffiItem.valueType, item.value⟩ = .error e := by
      simp only [admitItem, address, parsed, writable, valueType, value, units, id]
      rw [if_neg (by simp), if_pos (by omega)]
      exact ⟨_, rfl⟩
    obtain ⟨e, refused⟩ := refused
    exact ⟨e, by simp [sentPlans, sent, received, bind, Except.bind, planWriteBatch, refused]⟩

/-! ## Integer types -/

/-- The registers of an integer type. -/
def typeWords (t : DataType) : Nat := (registerWidth t).getD 0

theorem typeWords_of_intBits (bits : intBits t = some (signed, w)) :
    typeWords t = (w + 15) / 16 := by
  cases t <;> cases bits <;> decide

theorem carrierWords_le (h : ValueOf t v) : carrierWords v ≤ typeWords t := by
  rcases h.cases with ⟨w, x, bits, rfl, low, high⟩ | ⟨w, x, bits, rfl, high⟩
  · have width := intBits_cases bits
    have words := typeWords_of_intBits bits
    simp only [carrierWords, minimalSignedWords, words]
    rcases width with rfl | rfl | rfl | rfl
    all_goals
      simp only [Nat.reduceSub, Int.reducePow, Int.reduceNeg] at low high
      split
      · omega
      · split <;> omega
  · have width := intBits_cases bits
    have words := typeWords_of_intBits bits
    simp only [carrierWords, minimalUnsignedWords, words]
    rcases width with rfl | rfl | rfl | rfl
    all_goals
      simp only [Nat.reducePow] at high
      split
      · omega
      · split <;> omega

/-! ## Reading back -/

/-- The bytes of a value, most significant first. -/
def unordered (order : WordOrder) (data : Bytes) : Bytes :=
  if data.length = 4 then reorderWords4 data order
  else if data.length = 8 then reorderWords8 data order
  else data

theorem unordered_orderWords {order : WordOrder} (ordered : orderWords order bytes = .ok data) :
    unordered order data = bytes := by
  unfold orderWords at ordered
  split at ordered
  next len =>
    cases ordered
    simp [unordered, len]
  next len =>
    cases ordered
    rw [unordered, if_pos (length_reorderWords4 order len), reorderWords4_reorderWords4 order len]
  next len =>
    cases ordered
    have len' := length_reorderWords8 order len
    rw [unordered, if_neg (by omega), if_pos len', reorderWords8_reorderWords8 order len]
  next => cases ordered

theorem length_unordered (order : WordOrder) (data : Bytes) :
    (unordered order data).length = data.length := by
  unfold unordered
  split
  next len => rw [length_reorderWords4 order len, len]
  next =>
    split
    next len => rw [length_reorderWords8 order len, len]
    next => rfl

theorem unordered_injective (order : WordOrder) {d : Bytes} (len : d.length = d'.length)
    (eq : unordered order d = unordered order d') : d = d' := by
  unfold unordered at eq
  rw [len] at eq
  split at eq
  next four =>
    rw [← reorderWords4_reorderWords4 order (len.trans four), eq,
      reorderWords4_reorderWords4 order four]
  next =>
    split at eq
    next eight =>
      rw [← reorderWords8_reorderWords8 order (len.trans eight), eq,
        reorderWords8_reorderWords8 order eight]
    next => exact eq

/-- The integer of `w` bits that a number stands for. -/
def intValue (signed : Bool) (w n : Nat) : RawValue :=
  if signed then .i64 (Int64.ofInt (toSigned w (n % 2 ^ w))) else .u64 (UInt64.ofNat (n % 2 ^ w))

/-- An integer type is read from the number in its registers. -/
theorem decodeSlice_int (fmt : DebugFmt) (order : WordOrder) (bits : intBits t = some (signed, w))
    (len : data.length = typeWords t * 2) :
    decodeSlice fmt t data order = .ok (intValue signed w (ofBeBytes (unordered order data))) := by
  have number_lt : ofBeBytes (unordered order data) < 256 ^ data.length := by
    have lt := ofLeBytes_lt (unordered order data).reverse
    rwa [List.length_reverse, length_unordered] at lt
  cases t
  case i8 | u8 =>
    cases bits
    obtain ⟨a, b, rfl⟩ := List.length_eq_two.mp len
    have low : ofBeBytes (unordered order [a, b]) % 256 = b.toNat := by
      simp [unordered, ofBeBytes]
    simp [decodeSlice, intValue, low]
  case i16 | u16 =>
    cases bits
    have two : data.length = 2 := len
    rw [two] at number_lt
    have same : unordered order data = data := by simp [unordered, two]
    rw [same] at number_lt
    have low : ofBeBytes data % 65536 = ofBeBytes data := Nat.mod_eq_of_lt number_lt
    simp [decodeSlice, intValue, same, low]
  case i32 | u32 =>
    cases bits
    have four : data.length = 4 := len
    rw [four] at number_lt
    have same : unordered order data = reorderWords4 data order := by simp [unordered, four]
    rw [same] at number_lt
    have low : ofBeBytes (reorderWords4 data order) % 4294967296 = ofBeBytes
      (reorderWords4 data order) := Nat.mod_eq_of_lt number_lt
    simp [decodeSlice, intValue, same, low]
  case i64 | u64 =>
    cases bits
    have eight : data.length = 8 := len
    rw [eight] at number_lt
    have same : unordered order data = reorderWords8 data order := by simp [unordered, eight]
    rw [same] at number_lt
    have low : ofBeBytes (reorderWords8 data order) % 18446744073709551616 = ofBeBytes
      (reorderWords8 data order) := Nat.mod_eq_of_lt number_lt
    simp [decodeSlice, intValue, same, low]
  all_goals cases bits

/-- A value is what the low bits of its bytes stand for. -/
theorem intValue_registerBytes (h : ValueOf t v) (same : carrierWords v = typeWords t)
    (carried : carrierTag v = some tag) (raw : registerBytes tag v = .ok bytes) :
    ∃ signed w, intBits t = some (signed, w) ∧ intValue signed w (ofBeBytes bytes) = v := by
  rcases h.cases with ⟨w, x, bits, rfl, low, high⟩ | ⟨w, x, bits, rfl, high⟩
  · cases carried
    cases raw
    have width := intBits_cases bits
    have words := typeWords_of_intBits bits
    refine ⟨true, w, bits, ?_⟩
    have cut : x.toUInt64.toNat % 256 ^ (minimalSignedWords x * 2) % 2 ^ w =
        x.toUInt64.toNat % 2 ^ w := by
      simp only [carrierWords] at same
      rw [same, words]
      rcases width with rfl | rfl | rfl | rfl
      all_goals
        simp only [Nat.reduceAdd, Nat.reduceDiv, Nat.reduceMul, Nat.reducePow]
        omega
    rw [intValue, if_pos rfl, signedBe, ofBeBytes_beBytes, cut, toSigned_of_range width low high,
      Int64.ofInt_toInt]
  · cases carried
    cases raw
    have width := intBits_cases bits
    have words := typeWords_of_intBits bits
    refine ⟨false, w, bits, ?_⟩
    have cut : x.toNat % 256 ^ (minimalUnsignedWords x * 2) % 2 ^ w = x.toNat := by
      simp only [carrierWords] at same
      rw [same, words]
      rcases width with rfl | rfl | rfl | rfl
      all_goals
        simp only [Nat.reduceAdd, Nat.reduceDiv, Nat.reduceMul, Nat.reducePow] at high ⊢
        omega
    rw [intValue, if_neg (by simp), unsignedBe, ofBeBytes_beBytes, cut, UInt64.ofNat_toNat]

/-- In the width of its type, a value is read back from its bytes. -/
theorem decodeSlice_written (fmt : DebugFmt) (order : WordOrder) (h : ValueOf t v)
    (same : carrierWords v = typeWords t) (carried : carrierTag v = some tag)
    (raw : registerBytes tag v = .ok bytes) (ordered : orderWords order bytes = .ok data)
    (len : data.length = carrierWords v * 2) : decodeSlice fmt t data order = .ok v := by
  obtain ⟨signed, w, bits, value⟩ := intValue_registerBytes h same carried raw
  rw [decodeSlice_int fmt order bits (by rw [len, same]), unordered_orderWords ordered, value]

/-- Different bits are different numbers. -/
theorem intValue_injective {m n : Nat} (width : 1 ≤ w ∧ w ≤ 64) (m_lt : m < 2 ^ w)
    (n_lt : n < 2 ^ w) (eq : intValue signed w m = intValue signed w n) : m = n := by
  have le : (2 : Nat) ^ w ≤ 2 ^ 64 := Nat.pow_le_pow_right (by decide) width.2
  unfold intValue at eq
  rw [Nat.mod_eq_of_lt m_lt, Nat.mod_eq_of_lt n_lt] at eq
  cases signed with
  | false =>
    simp only [Bool.false_eq_true, if_false, RawValue.u64.injEq] at eq
    have nats := congrArg UInt64.toNat eq
    simp only [UInt64.toNat_ofNat'] at nats
    rwa [Nat.mod_eq_of_lt (by omega), Nat.mod_eq_of_lt (by omega)] at nats
  | true =>
    simp only [if_true, RawValue.i64.injEq] at eq
    have ints := congrArg Int64.toInt eq
    have bounds : ∀ k, k < 2 ^ w → -2 ^ 63 ≤ toSigned w k ∧ toSigned w k < 2 ^ 63 := by
      intro k k_lt
      have double : 2 ^ w = 2 * 2 ^ (w - 1) := by
        rw [← Nat.pow_succ']
        congr 1
        omega
      have half : (2 : Nat) ^ (w - 1) ≤ 2 ^ 63 := Nat.pow_le_pow_right (by decide) (by omega)
      have cast : ((2 : Int) ^ w) = 2 * 2 ^ (w - 1) := by exact_mod_cast double
      have cast' : ((2 ^ (w - 1) : Nat) : Int) = 2 ^ (w - 1) := by push_cast; rfl
      unfold toSigned
      rw [cast]
      split <;> omega
    have m_bounds := bounds m m_lt
    have n_bounds := bounds n n_lt
    rw [Int64.toInt_ofInt_of_le m_bounds.1 m_bounds.2,
      Int64.toInt_ofInt_of_le n_bounds.1 n_bounds.2] at ints
    exact toSigned_injective width.1 m_lt n_lt ints

theorem ofBeBytes_injective {d : Bytes} (len : d.length = d'.length)
    (eq : ofBeBytes d = ofBeBytes d') : d = d' := by
  rw [← beBytes_ofBeBytes d, ← beBytes_ofBeBytes d', len, eq]

/-- Two registers or more: different bytes are different values. -/
theorem decodeSlice_injective (fmt : DebugFmt) (order : WordOrder)
    (bits : intBits t = some (signed, w)) (wide : 2 ≤ typeWords t) {d : Bytes}
    (len : d.length = typeWords t * 2) (len' : d'.length = typeWords t * 2)
    (eq : decodeSlice fmt t d order = decodeSlice fmt t d' order) : d = d' := by
  have width := intBits_cases bits
  have words := typeWords_of_intBits bits
  rw [decodeSlice_int fmt order bits len, decodeSlice_int fmt order bits len'] at eq
  have whole : (256 : Nat) ^ (typeWords t * 2) = 2 ^ w := by
    rw [words] at wide ⊢
    rcases width with rfl | rfl | rfl | rfl
    · omega
    · omega
    · rfl
    · rfl
  have number_lt : ∀ d : Bytes, d.length = typeWords t * 2 →
    ofBeBytes (unordered order d) < 2 ^ w := by
    intro d len
    have lt := ofLeBytes_lt (unordered order d).reverse
    rwa [List.length_reverse, length_unordered, len, whole] at lt
  have numbers := intValue_injective (by omega) (number_lt d len) (number_lt d' len')
    (Except.ok.inj eq)
  refine unordered_injective order (len.trans len'.symm) (ofBeBytes_injective ?_ numbers)
  rw [length_unordered, length_unordered, len, len']

/-! ## Write, then read -/

section

variable {fmt : DebugFmt} {config : ModbusConfig} {t : DataType} (id : Nat) {address : String}
  {a : ModbusAddress}

/-- Reading an integer type at a holding register. -/
theorem readBatch_int {peer : Peer} {memory : Memory} {idle : Session Own → Prop}
    (serves : Serves peer config memory idle) {signed : Bool}
    (bits : intBits t = some (signed, w))
    (parsed : parseAddress fmt address config.unitId = .ok a)
    (holding : a.kind = .holdingRegister) (inside : a.offset + typeWords t ≤ 65536)
    {s : Session Own} (quiet : idle s) :
    ∃ value s', decodeSlice fmt t (memory.answer a.unitId .holdingRegister a.offset (typeWords t))
        config.wordOrder = .ok value ∧
      readBatch peer fmt config [⟨id, address, some t⟩] s = .ok [.good id value] s' := by
  have registers : registerWidth t = some (typeWords t) ∧ t ≠ .bool := by
    cases t <;> cases bits <;> exact ⟨rfl, by simp⟩
  have width : itemWidth a.kind (some t) = typeWords t := by
    simp [itemWidth, holding, RegisterKind.isBit, registers.1]
  have entry : parseItem fmt config.unitId ⟨id, address, some t⟩ = .ok ⟨id, a, some t⟩ := by
    simp only [parseItem, parsed, width]
    rw [if_neg (by omega)]
  obtain ⟨s', run⟩ := readBatch_singleton serves entry quiet
  have len := length_answer_registers memory a.unitId .holdingRegister a.offset (typeWords t) rfl
  have decoded := decodeSlice_int fmt config.wordOrder bits (by omega)
  refine ⟨_, s', decoded, run.trans ?_⟩
  have whole : (memory.answer a.unitId .holdingRegister a.offset (typeWords t)).take
      (typeWords t * 2) = memory.answer a.unitId .holdingRegister a.offset (typeWords t) :=
    List.take_of_length_le (by omega)
  have read : decodeRegisterValue fmt .holdingRegister
      (memory.answer a.unitId .holdingRegister a.offset (typeWords t)) 0 (some t) config.wordOrder =
      decodeSlice fmt t (memory.answer a.unitId .holdingRegister a.offset (typeWords t))
        config.wordOrder := by
    simp only [decodeRegisterValue, RegisterKind.isBit, Bool.false_eq_true, if_false]
    split
    next => exact absurd rfl registers.2
    next =>
      simp only [registers.1, Nat.zero_mul, Nat.zero_add, List.drop_zero, whole]
      rw [if_neg (by omega)]
  rw [holding] at width
  simp [GroupEntry.alone, GroupEntry.width, width, decodeItem, holding, read, decoded]

end

/-- An integer that is written to a holding register is read back, for every content that the
registers had before, just if it is written in the width of its type. -/
theorem write_read_iff (fmt : DebugFmt) (config : ModbusConfig) {t : DataType} {v : RawValue}
    (h : ValueOf t v) (id : Nat) (address : String) {a : ModbusAddress}
    (parsed : parseAddress fmt address config.unitId = .ok a)
    (holding : a.kind = .holdingRegister) (inside : a.offset + typeWords t ≤ 65536) :
    ∃ plans, sentPlans fmt config [⟨id, address, v⟩] = .ok (plans, []) ∧
      ((∀ peer (memory : Memory) idle s,
        Serves peer config (memory.performAll plans) idle → idle s →
        ∃ s', readBatch peer fmt config [⟨id, address, some t⟩] s = .ok [.good id v] s') ↔
      carrierWords v = typeWords t) := by
  obtain ⟨tag, carried⟩ := h.carried
  have words_le := carrierWords_le h
  obtain ⟨data, len, ⟨bytes, raw, _, ordered⟩, sent, _⟩ :=
    sentPlans_carrier fmt config ⟨id, address, v⟩ carried parsed holding
  have small : 1 ≤ carrierWords v ∧ carrierWords v ≤ 4 := by
    have cases := carrierWords_cases carried
    omega
  obtain ⟨more, words⟩ := Nat.exists_eq_add_of_le words_le
  obtain ⟨signed, w, bits⟩ : ∃ signed w, intBits t = some (signed, w) := by
    rcases h.cases with ⟨w, _, bits, _⟩ | ⟨w, _, bits, _⟩
    · exact ⟨_, _, bits⟩
    · exact ⟨_, _, bits⟩
  refine ⟨_, sent (by dsimp only; omega), ?_⟩
  have performed : ∀ memory : Memory,
      memory.performAll [emitWritePlan (a.unitId, a.kind) [⟨id, a, .registers data⟩]] =
        memory.setRegisters a.unitId a.offset data := fun memory =>
    perform_singleton memory (e := ⟨id, a, .registers data⟩) holding rfl len small.2
  have answer : ∀ memory : Memory, (memory.setRegisters a.unitId a.offset data).answer a.unitId
      .holdingRegister a.offset (typeWords t) =
        data ++ memory.answer a.unitId .holdingRegister (a.offset + carrierWords v) more :=
    fun memory => by rw [words, answer_setRegisters memory a.unitId a.offset len more]
  simp only [performed]
  constructor
  · intro reads
    by_contra narrow
    -- The registers behind those that are written have any content.
    have filled : ∀ fill : UInt16, decodeSlice fmt t (data ++
        (⟨fun _ _ _ => false, fun _ _ _ => fill⟩ : Memory).answer a.unitId .holdingRegister
          (a.offset + carrierWords v) more) config.wordOrder = .ok v := by
      intro fill
      let memory : Memory := ⟨fun _ _ _ => false, fun _ _ _ => fill⟩
      have serves := device_serves (memory.setRegisters a.unitId a.offset data) config
      obtain ⟨value, s', decoded, run⟩ :=
        readBatch_int id serves bits parsed holding inside (s := ⟨false, [], ⟨0⟩⟩) rfl
      obtain ⟨_, run'⟩ := reads _ memory _ ⟨false, [], ⟨0⟩⟩ serves rfl
      rw [run] at run'
      cases run'
      rwa [answer] at decoded
    have len_filled : ∀ fill : UInt16, (data ++
        (⟨fun _ _ _ => false, fun _ _ _ => fill⟩ : Memory).answer a.unitId .holdingRegister
          (a.offset + carrierWords v) more).length = typeWords t * 2 := by
      intro fill
      rw [List.length_append, length_answer_registers _ _ _ _ _ rfl, len]
      dsimp only
      omega
    have same := decodeSlice_injective fmt config.wordOrder bits (by omega) (len_filled 0)
      (len_filled 1) ((filled 0).trans (filled 1).symm)
    obtain ⟨n, rfl⟩ : ∃ n, more = n + 1 := ⟨more - 1, by omega⟩
    have heads := List.append_cancel_left same
    simp [Memory.answer, RegisterKind.isBit, List.range_succ_eq_map, beBytes_two] at heads
  · intro same peer memory idle s serves quiet
    obtain ⟨value, s', decoded, run⟩ := readBatch_int id serves bits parsed holding inside quiet
    have none : more = 0 := by omega
    subst none
    have written := decodeSlice_written fmt config.wordOrder h same carried raw ordered len
    rw [answer, show memory.answer a.unitId .holdingRegister (a.offset + carrierWords v) 0 = [] from
      rfl, List.append_nil, written] at decoded
    cases decoded
    exact ⟨s', run⟩

/-- 70000 needs the two registers of its type, the low word first. -/
theorem write_read_two_registers :
    ∃ plans, sentPlans plainDebug { tcpConfig with wordOrder := .cdab }
        [⟨1, "1!40001", .u64 70000⟩] = .ok (plans, []) ∧
      ∀ peer (memory : Memory) idle s,
        Serves peer { tcpConfig with wordOrder := .cdab } (memory.performAll plans) idle →
        idle s → ∃ s', readBatch peer plainDebug { tcpConfig with wordOrder := .cdab }
          [⟨1, "1!40001", some .u32⟩] s = .ok [.good 1 (.u64 70000)] s' := by
  obtain ⟨plans, sent, back⟩ := write_read_iff plainDebug { tcpConfig with wordOrder := .cdab }
    (show ValueOf .u32 (.u64 70000) from (by decide : (70000 : UInt64).toNat < 2 ^ 32)) 1 "1!40001"
    rfl rfl (by decide)
  exact ⟨plans, sent, back.mpr (by decide)⟩

/-- 5 is written to the first of the two registers of its type, the high word; what the second
one held is read as the low word. -/
theorem write_read_high_word :
    let plan : WritePlan := ⟨1, 0x06, 0, [0, 5], [1]⟩
    let after := Memory.performAll ⟨fun _ _ _ => false, fun _ _ _ => 1⟩ [plan]
    sentPlans plainDebug tcpConfig [⟨1, "1!40001", .u64 5⟩] = .ok ([plan], []) ∧
      Serves (replying (after.device tcpConfig.line)) tcpConfig after
        (Idle (after.device tcpConfig.line)) ∧
      ∃ s', readBatch (replying (after.device tcpConfig.line)) plainDebug tcpConfig
        [⟨1, "1!40001", some .u32⟩] ⟨false, [], ⟨0⟩⟩ = .ok [.good 1 (.u64 327681)] s' := by
  intro plan after
  have serves := device_serves after tcpConfig
  obtain ⟨value, s', decoded, run⟩ := readBatch_int 1 serves
    (show intBits .u32 = some (false, 32) from rfl)
    (show parseAddress plainDebug "1!40001" 1 = _ from rfl) rfl (by decide) (s :=
      ⟨false, [], ⟨0⟩⟩) rfl
  have bytes : after.answer 1 .holdingRegister 0 2 = [0, 5, 0, 1] := by decide
  refine ⟨rfl, serves, s', ?_⟩
  rw [run]
  have read : decodeSlice plainDebug .u32 [0, 5, 0, 1] .abcd = .ok value := by
    rw [← bytes]
    exact decoded
  cases read
  rfl

end ForgeLink.Drivers.Modbus
