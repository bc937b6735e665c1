import ForgeLink.Drivers.S7Codec
import ForgeLink.Lib.Stores

/-!
# The S7 driver: what the plans of a batch write

A PLC is its bytes, by area, data block and number.  The pointer of a plan says
what the PLC does with the payload (`Memory.perform`), and the address of an item
says what the item asks for (`Memory.store`).  The plans of a batch do what its
items ask for, group by group and in a group in the stable order of their first
bytes (`planWriteBatch_stores`).
-/

namespace ForgeLink.Drivers.S7comm

open Lib

/-! ## The memory of a PLC -/

/-- The bytes of a PLC, by area and data block. -/
abbrev Memory := UInt8 × Nat → Nat → UInt8

/-- A byte with one bit set or cleared. -/
def setBit (byte : UInt8) (bit : Nat) (on : Bool) : UInt8 :=
  if on then byte ||| 1 <<< UInt8.ofNat bit else byte &&& ~~~(1 <<< UInt8.ofNat bit)

/-- The bit that a payload sends. -/
def sentBit (payload : Bytes) : Bool := payload.getD 0 0 &&& 1 ≠ 0

/-- The bytes of one unit of a transport size. -/
def unitBytes (transportSize : UInt8) : Nat :=
  if transportSize = 0x04 then 2 else if transportSize = 0x06 then 4 else 1

/-- The first byte of a pointer, and the bytes that it covers. -/
def AnyItem.start (item : AnyItem) : Nat := item.byteOffset.toNat

/-- The bytes of a pointer. -/
def AnyItem.size (item : AnyItem) : Nat := item.length.toNat * unitBytes item.transportSize

/-- What the PLC does with the payload of a pointer. -/
def Memory.perform (memory : Memory) (item : AnyItem) (payload : Bytes) : Memory :=
  let block := (item.areaCode, item.db.toNat)
  Function.update memory block
    (if item.transportSize = 0x01 then
      Function.update (memory block) item.start
        (setBit (memory block item.start) item.bit.toNat (sentBit payload))
    else storeAt item.start (payload.take item.size) (memory block))

/-- The PLC takes the plans in the order they are sent. -/
def Memory.performAll (memory : Memory) (plans : List WritePlan) : Memory :=
  plans.foldl (fun m plan => m.perform plan.anyItem plan.payload) memory

/-- A write through the pointer changes a bit of a byte. -/
def AnyItem.Writes (item : AnyItem) (block : UInt8 × Nat) (n bit : Nat) : Prop :=
  block = (item.areaCode, item.db.toNat) ∧
    if item.transportSize = 0x01 then n = item.start ∧ bit = item.bit.toNat
    else item.start ≤ n ∧ n < item.start + item.size

namespace WriteEntry

/-- The area and data block of an entry. -/
def block (e : WriteEntry) : UInt8 × Nat := (e.address.area.code, e.address.db)

/-- The address of an entry covers a bit of a byte. -/
def Covers (e : WriteEntry) (block : UInt8 × Nat) (n bit : Nat) : Prop :=
  block = e.block ∧
    if e.address.ty = .bit then n = e.address.byte ∧ bit = e.address.bit
    else e.address.byte ≤ n ∧ n < e.address.byte + e.address.ty.widthBytes

end WriteEntry

/-- The memory after one item is written. -/
def Memory.store (memory : Memory) (e : WriteEntry) : Memory :=
  Function.update memory e.block
    (if e.address.ty = .bit then
      Function.update (memory e.block) e.address.byte
        (setBit (memory e.block e.address.byte) e.address.bit (sentBit e.payload))
    else storeAt e.address.byte e.payload (memory e.block))

/-! ## Chunks -/

/-- What a chunk of the planner is. -/
structure IsWriteChunk (pdu : UInt16) (key : WriteKey) (chunk : List WriteEntry) : Prop where
  own : ∀ e ∈ chunk, e.key = key
  sized : ∀ e ∈ chunk, e.payload.length = key.ty.widthBytes
  single : key.ty = .bit → ∃ e, chunk = [e]
  row : ∃ e rest, chunk = e :: rest ∧ InRow WriteEntry.start (·.payload.length) e.start chunk
  budget : (chunk.map (·.payload.length)).sum + 29 ≤ pdu.toNat

section

variable {pdu : UInt16} {key : WriteKey} {chunk : List WriteEntry}

theorem length_payload (key : WriteKey) (chunk : List WriteEntry) :
    (emitWritePlan key chunk).payload.length = (chunk.map (·.payload.length)).sum := by
  rw [emitWritePlan, List.length_flatMap]

theorem IsWriteChunk.length_eq (h : IsWriteChunk pdu key chunk) :
    (emitWritePlan key chunk).payload.length = chunk.length * key.ty.widthBytes := by
  rw [length_payload, List.map_congr_left h.sized, List.map_const', List.sum_replicate_nat]

/-- The pointer of a plan is as long as its payload. -/
theorem IsWriteChunk.size_eq (h : IsWriteChunk pdu key chunk) (wide : key.ty ≠ .bit) :
    (emitWritePlan key chunk).anyItem.size = (emitWritePlan key chunk).payload.length := by
  have len := h.length_eq
  have small : (emitWritePlan key chunk).payload.length < 65536 := by
    have budget := h.budget
    have lt := pdu.toNat_lt
    rw [length_payload]
    omega
  have type : (emitWritePlan key chunk).ty = key.ty := rfl
  generalize emitWritePlan key chunk = plan at len small type
  unfold AnyItem.size WritePlan.anyItem
  rw [type]
  cases ty : key.ty with
  | bit => exact absurd ty wide
  | byte | word | dword =>
    rw [ty, S7Type.widthBytes] at len
    simp only [unitBytes, UInt16.toNat_ofNat']
    simp
    omega

theorem IsWriteChunk.block_eq (h : IsWriteChunk pdu key chunk) {e : WriteEntry}
    (inside : e ∈ chunk) :
    ((emitWritePlan key chunk).anyItem.areaCode, (emitWritePlan key chunk).anyItem.db.toNat) =
      e.block := by
  have own := h.own e inside
  have db : (UInt16.ofNat e.address.db).toNat = e.address.db := by
    rw [UInt16.toNat_ofNat']
    exact Nat.mod_eq_of_lt e.address.db_lt
  rw [← own]
  exact Prod.ext rfl db

theorem start_emitWritePlan (key : WriteKey) (e : WriteEntry) (rest : List WriteEntry) :
    (emitWritePlan key (e :: rest)).anyItem.start = e.start := by
  have le := e.address.byte_le
  show (UInt32.ofNat e.address.byte).toNat = e.address.byte
  rw [UInt32.toNat_ofNat']
  omega

theorem transportSize_emitWritePlan (key : WriteKey) (chunk : List WriteEntry) :
    (emitWritePlan key chunk).anyItem.transportSize = 0x01 ↔ key.ty = .bit := by
  have type : (emitWritePlan key chunk).ty = key.ty := rfl
  unfold WritePlan.anyItem
  rw [type]
  cases key.ty <;> simp

theorem bit_emitWritePlan (bit : key.ty = .bit) (e : WriteEntry) (rest : List WriteEntry) :
    (emitWritePlan key (e :: rest)).anyItem.bit.toNat = e.address.bit := by
  have le := e.address.bit_le
  show (if key.ty = .bit then UInt8.ofNat e.address.bit else 0).toNat = e.address.bit
  rw [if_pos bit, UInt8.toNat_ofNat']
  omega

/-- Entries of bytes of one block only change that block. -/
theorem foldl_store_wide {block : UInt8 × Nat} (own : ∀ e ∈ chunk, e.block = block)
    (wide : ∀ e ∈ chunk, e.address.ty ≠ .bit) (memory : Memory) :
    chunk.foldl Memory.store memory =
      Function.update memory block
        (chunk.foldl (fun c e => storeAt e.start e.payload c) (memory block)) := by
  induction chunk generalizing memory with
  | nil => exact (Function.update_eq_self block memory).symm
  | cons e chunk ih =>
    obtain ⟨first, own⟩ := List.forall_mem_cons.mp own
    obtain ⟨bytes, wide⟩ := List.forall_mem_cons.mp wide
    rw [List.foldl_cons, ih own wide, Memory.store, first, if_neg bytes, Function.update_idem,
      Function.update_self]
    rfl

/-- A plan does what its entries ask for, one by one. -/
theorem perform_emitWritePlan (h : IsWriteChunk pdu key chunk) (memory : Memory) :
    memory.perform (emitWritePlan key chunk).anyItem (emitWritePlan key chunk).payload =
      chunk.foldl Memory.store memory := by
  have own := fun e inside => (h.block_eq (e := e) inside).symm
  have type : ∀ e ∈ chunk, e.address.ty = key.ty := fun e inside =>
    congrArg WriteKey.ty (h.own e inside)
  by_cases bit : key.ty = .bit
  · obtain ⟨e, rfl⟩ := h.single bit
    have payload : (emitWritePlan key [e]).payload = e.payload := List.flatMap_singleton ..
    rw [Memory.perform, h.block_eq List.mem_cons_self, start_emitWritePlan, bit_emitWritePlan bit,
      if_pos ((transportSize_emitWritePlan key [e]).mpr bit), payload, List.foldl_cons,
      List.foldl_nil, Memory.store, if_pos ((type e List.mem_cons_self).trans bit)]
    rfl
  · obtain ⟨e, rest, eq, row⟩ := h.row
    rw [foldl_store_wide own fun x inside => (type x inside).symm ▸ bit, row.foldl_storeAt,
      Memory.perform, if_neg (mt (transportSize_emitWritePlan key chunk).mp bit), h.size_eq bit,
      List.take_length, show (emitWritePlan key chunk).anyItem.start = e.start by
        rw [eq]; exact start_emitWritePlan key e rest]
    rfl

/-- The pointer of a plan covers what its entries ask for, and nothing else. -/
theorem covers_emitWritePlan (h : IsWriteChunk pdu key chunk) (block : UInt8 × Nat) (n bit : Nat) :
    (emitWritePlan key chunk).anyItem.Writes block n bit ↔ ∃ e ∈ chunk, e.Covers block n bit := by
  obtain ⟨e, rest, eq, row⟩ := h.row
  have here : e ∈ chunk := eq ▸ List.mem_cons_self
  have type : ∀ e ∈ chunk, e.address.ty = key.ty := fun e inside =>
    congrArg WriteKey.ty (h.own e inside)
  have same : ∀ e' ∈ chunk, e'.block = e.block := fun e' inside =>
    (h.block_eq inside).symm.trans (h.block_eq here)
  unfold AnyItem.Writes
  rw [h.block_eq here]
  by_cases isBit : key.ty = .bit
  · obtain ⟨e', rfl⟩ := h.single isBit
    obtain ⟨rfl, rfl⟩ := List.cons.inj eq
    rw [if_pos ((transportSize_emitWritePlan key _).mpr isBit), start_emitWritePlan,
      bit_emitWritePlan isBit]
    simp [WriteEntry.Covers, type e' here, isBit, WriteEntry.start]
  · rw [if_neg (mt (transportSize_emitWritePlan key chunk).mp isBit), h.size_eq isBit,
      length_payload, show (emitWritePlan key chunk).anyItem.start = e.start by
        rw [eq]; exact start_emitWritePlan key e rest, row.covers_iff n]
    constructor
    · rintro ⟨rfl, e', inside, above, below⟩
      refine ⟨e', inside, (same e' inside).symm, ?_⟩
      rw [if_neg (by rw [type e' inside]; exact isBit), type e' inside, ← h.sized e' inside]
      exact ⟨above, below⟩
    · rintro ⟨e', inside, rfl, covers⟩
      rw [if_neg (by rw [type e' inside]; exact isBit), type e' inside,
        ← h.sized e' inside] at covers
      exact ⟨same e' inside, e', inside, covers⟩

/-- A request has 28 bytes besides its payload, and one more to fill it up. -/
theorem length_buildWrite_le (h : IsWriteChunk pdu key chunk) (pduRef : UInt16) :
    (buildWrite pduRef [((emitWritePlan key chunk).anyItem,
      (emitWritePlan key chunk).payload)]).length ≤ pdu.toNat := by
  have budget := h.budget
  rw [← length_payload key] at budget
  simp only [buildWrite, buildJob, writeData, AnyItem.encode, List.flatMap_cons, List.flatMap_nil,
    List.length_append, List.length_cons, List.length_nil, length_beBytes, List.append_nil]
  split
  · simp only [List.length_cons, List.length_nil]
    omega
  · simp only [List.length_nil]
    omega

end

/-! ## Batches -/

variable {maxItems : Nat} {e : WriteEntry} {req : WriteRequest}

/-- What the planner knows of an entry. -/
def WriteEntry.Sized (e : WriteEntry) : Prop := e.payload.length = e.address.ty.widthBytes

theorem WriteEntry.Sized.bounds (h : e.Sized) : 1 ≤ e.payload.length ∧ e.payload.length ≤ 4 := by
  rw [h]
  cases e.address.ty <;> decide

theorem flatten_cutWriteGroup (pdu : UInt16) (maxItems : Nat) (key : WriteKey)
    (group : List WriteEntry) : (cutWriteGroup pdu maxItems key group).flatten = group := by
  unfold cutWriteGroup
  split
  · rw [← List.flatMap_def]
    simp
  · simp

theorem length_le_sum {chunk : List WriteEntry} (sized : ∀ e ∈ chunk, e.Sized) :
    chunk.length ≤ (chunk.map (·.payload.length)).sum := by
  induction chunk with
  | nil => exact Nat.le_refl 0
  | cons e chunk ih =>
    obtain ⟨first, rest⟩ := List.forall_mem_cons.mp sized
    have positive := first.bounds.1
    have later := ih rest
    simp only [List.length_cons, List.map_cons, List.sum_cons]
    omega

theorem budget_of_fitsWrite {pdu : UInt16} {chunk : List WriteEntry}
    (fitting : fitsWrite pdu maxItems chunk e = true) :
    (chunk.map (·.payload.length)).sum + e.payload.length + 4 * (chunk.length + 1) ≤
      pdu.toNat - (10 + 2 + 12 * (chunk.length + 1) + 16) % 65536 :=
  Nat.le_of_not_lt fun above => of_decide_eq_true fitting (.inr above)

/-- A chunk stays far below the number of values at which the budget would wrap. -/
theorem length_lt_of_chained {pdu : UInt16} {chunk : List WriteEntry} (sized : ∀ e ∈ chunk, e.Sized)
    (chained : Chained (fitsWrite pdu maxItems) chunk) :
    chunk.length < 4096 := by
  by_contra large
  have here : 4095 < chunk.length := by omega
  have eq : chunk = chunk.take 4095 ++ chunk[4095] :: chunk.drop 4096 := by simp
  have length : (chunk.take 4095).length = 4095 := by
    rw [List.length_take]
    omega
  have fitting := budget_of_fitsWrite (chained _ _ _ eq (List.ne_nil_of_length_pos (by omega)))
  have values : 4095 ≤ ((chunk.take 4095).map (·.payload.length)).sum := by
    conv_lhs => rw [← length]
    exact length_le_sum fun e inside => sized e (List.mem_of_mem_take inside)
  have lt := pdu.toNat_lt
  rw [length] at fitting
  omega

theorem budget_of_chained {pdu : UInt16} (large : 64 ≤ pdu.toNat) {chunk : List WriteEntry}
    (sized : ∀ e ∈ chunk, e.Sized) (chained : Chained (fitsWrite pdu maxItems) chunk) :
    (chunk.map (·.payload.length)).sum + 29 ≤ pdu.toNat := by
  have few := length_lt_of_chained sized chained
  rcases List.eq_nil_or_concat chunk with rfl | ⟨front, last, rfl⟩
  · simp
    omega
  · have small := (sized last (by simp)).bounds.2
    cases front with
    | nil =>
      simp
      omega
    | cons e front =>
      have fitting := budget_of_fitsWrite (chained (e :: front) last [] (by simp) (by simp))
      rw [List.length_concat] at few
      rw [Nat.mod_eq_of_lt (by omega)] at fitting
      rw [List.map_concat, List.sum_concat]
      omega

/-- What the planner cuts off fits the PDU. -/
theorem isWriteChunk {pdu : UInt16} (large : 64 ≤ pdu.toNat) {entries : List WriteEntry}
    (sized : ∀ e ∈ entries, e.Sized) {key : WriteKey} {chunk : List WriteEntry}
    (inside : (key, chunk) ∈ writeChunksOf pdu maxItems entries) :
    (∀ e ∈ chunk, e ∈ entries) ∧ IsWriteChunk pdu key chunk := by
  have entry : ∀ e ∈ chunk, e ∈ entries ∧ e.key = key := fun e here =>
    key_of_mem_batches (flatten_cutWriteGroup pdu maxItems) inside here
  have own : ∀ e ∈ chunk, e.Sized := fun e here => sized e (entry e here).1
  have widths : ∀ e ∈ chunk, e.payload.length = key.ty.widthBytes := fun e here =>
    (own e here).trans (congrArg (·.ty.widthBytes) (entry e here).2)
  obtain ⟨group, _, cut⟩ := mem_batches.mp inside
  unfold cutWriteGroup at cut
  split at cut
  next bit =>
    obtain ⟨e, _, rfl⟩ := List.mem_map.mp cut
    have small := (own e List.mem_cons_self).bounds.2
    refine ⟨fun e here => (entry e here).1, fun e here => (entry e here).2, widths,
      fun _ => ⟨e, rfl⟩, ⟨e, [], rfl, rfl, trivial⟩, ?_⟩
    simp
    omega
  next wide =>
    obtain ⟨run, run_inside, chunk_inside⟩ := List.mem_flatMap.mp cut
    have chain : List.IsChain (fun x y : WriteEntry => x.start + x.payload.length = y.start)
        chunk := isChain_of_mem_pieces run_inside chunk_inside fun front x y joined => by
      simpa [adjoins] using joined
    refine ⟨fun e here => (entry e here).1, fun e here => (entry e here).2, widths,
      fun bit => absurd bit wide, ?_,
      budget_of_chained large own (chained_of_mem_runs chunk_inside)⟩
    cases chunk with
    | nil => exact absurd rfl (ne_nil_of_mem_runs chunk_inside)
    | cons e chunk => exact ⟨e, chunk, rfl, inRow_of_isChain chain⟩

/-! ## The whole batch -/

variable (showF64 : UInt64 → String)

/-- What an item asks for, if its area can be written and its value can be encoded. -/
def writeEntry (req : WriteRequest) : Option WriteEntry :=
  match parse req.address with
  | .error _ => none
  | .ok addr =>
    if addr.area = .input then none
    else
      match encodeWrite showF64 addr.ty req.value with
      | .error _ => none
      | .ok enc => some ⟨addr, req.id, enc.payload⟩

/-- An entry is about the address of its item, and holds its value. -/
structure WriteEntry.Asks (e : WriteEntry) (req : WriteRequest) : Prop where
  id : e.id = req.id
  address : parse req.address = .ok e.address
  writable : e.address.area ≠ .input
  sized : e.Sized
  value : if e.address.ty = .bit then req.value = .bool (sentBit e.payload)
    else Stands e.address.ty.bits (ofBeBytes e.payload) req.value

variable {showF64}

/-- What is encoded is the value. -/
theorem encodeWrite_stands {ty : S7Type} {v : RawValue} {enc : EncodedWrite}
    (ok : encodeWrite showF64 ty v = .ok enc) :
    if ty = .bit then v = .bool (sentBit enc.payload)
    else Stands ty.bits (ofBeBytes enc.payload) v := by
  by_cases bit : ty = .bit
  · subst bit
    cases v with
    | bool b =>
      cases ok
      cases b <;> rfl
    | i64 _ | u64 _ | f64 _ | string _ | bytes _ | array _ | struct _ => cases ok
  · rw [if_neg bit]
    cases v with
    | i64 v =>
      rw [encodeWrite_i64 showF64 bit, signedWrite] at ok
      split at ok
      next range =>
        cases ok
        rw [Stands, wideWrite, ofBeBytes_beBytes, pow_widthBytes bit,
          toSigned_of_range (bits_cases bit) range.1 range.2]
      next => cases ok
    | u64 v =>
      rw [encodeWrite_u64 showF64 bit, unsignedWrite] at ok
      split at ok
      next range =>
        cases ok
        rw [Stands, wideWrite, ofBeBytes_beBytes, pow_widthBytes bit, Nat.mod_eq_of_lt range]
      next => cases ok
    | f64 v =>
      cases ty with
      | bit | byte | word => cases ok
      | dword =>
        simp only [encodeWrite] at ok
        split at ok
        next => cases ok
        next kept =>
          cases ok
          have small : (f64ToF32 v).toNat < 256 ^ 4 := (f64ToF32 v).toNat_lt
          rw [wideWrite, ofBeBytes_beBytes, Nat.mod_eq_of_lt small]
          exact stands_single kept
    | bool _ | string _ | bytes _ | array _ | struct _ =>
      cases ty with
      | bit => exact absurd rfl bit
      | byte | word | dword => cases ok

theorem writeEntry_asks (asked : writeEntry showF64 req = some e) : e.Asks req := by
  unfold writeEntry at asked
  split at asked
  · cases asked
  next addr parsed =>
    obtain ⟨writable, asked⟩ := Option.ite_none_left_eq_some.mp asked
    split at asked
    · cases asked
    next enc ok =>
      cases asked
      exact ⟨rfl, parsed, writable, (decodeRead_encodeWrite showF64 plainDebug ok).1,
        encodeWrite_stands ok⟩

/-- The loop of the planner admits what is asked for. -/
theorem admits_admitItem {r : WriteEntry ⊕ (Nat × DriverErrorInfo)}
    (ok : admitItem showF64 req = .ok r) :
    Admits Prod.fst req.id (writeEntry showF64 req) r := by
  unfold admitItem at ok
  dsimp only at ok
  split at ok
  iterate 3 cases ok
  next addr parsed =>
    rw [writeEntry, parsed]
    dsimp only
    by_cases area : addr.area = .input
    · rw [if_pos (by simp [S7Address.writable, area])] at ok
      cases ok
      rw [if_pos area]
      exact .refused rfl
    · rw [if_neg (by simp [S7Address.writable, area])] at ok
      rw [if_neg area]
      cases value : encodeWrite showF64 addr.ty req.value with
      | ok enc =>
        rw [value] at ok
        cases ok
        exact .entry
      | error e =>
        rw [value] at ok
        cases ok
        exact .refused rfl

variable (showF64)

theorem admitItem_of_parse {a : S7Address} (parsed : parse req.address = .ok a) :
    ∃ r, admitItem showF64 req = .ok r := by
  simp only [admitItem, parsed]
  split
  · exact ⟨_, rfl⟩
  · split
    · exact ⟨_, rfl⟩
    · exact ⟨_, rfl⟩

/-- Every item of a batch with addresses is in one plan or in the list of errors, and it is an
error just if nothing can be written for it.  The pointer of a plan covers what its items
ask for and nothing else, its request fits the PDU, and the PLC that takes the plans has
what it would have if the items were written one by one, group by group and in a group in
the stable order of their first bytes. -/
theorem planWriteBatch_stores (items : List WriteRequest) (pdu : UInt16) (large : 64 ≤ pdu.toNat)
    (maxItems : Nat) (parses : ∀ item ∈ items, ∃ a, parse item.address = .ok a) :
    let entries := items.filterMap (writeEntry showF64)
    ∃ plans failed, planWriteBatch showF64 items pdu maxItems = .ok (plans, failed) ∧
      (plans.flatMap WritePlan.itemIds ++ failed.map Prod.fst).Perm (items.map WriteRequest.id) ∧
      failed.map Prod.fst =
        (items.filter fun item => (writeEntry showF64 item).isNone).map WriteRequest.id ∧
      (∀ item e, writeEntry showF64 item = some e → e.Asks item) ∧
      (∀ plan ∈ plans, ∃ asked chunk, (∀ item ∈ asked, item ∈ items) ∧
        List.Forall₂ (fun item e => writeEntry showF64 item = some e) asked chunk ∧
        plan.itemIds = asked.map WriteRequest.id ∧
        ∀ block n bit, plan.anyItem.Writes block n bit ↔ ∃ e ∈ chunk, e.Covers block n bit) ∧
      (∀ memory : Memory, memory.performAll plans =
        ((groups WriteKey.le WriteEntry.key entries).flatMap fun g =>
          sortByKey WriteEntry.start g.2).foldl Memory.store memory) ∧
      ∀ plan ∈ plans, ∀ pduRef,
        (buildWrite pduRef [(plan.anyItem, plan.payload)]).length ≤ pdu.toNat := by
  obtain ⟨admitted, each⟩ := exists_forall₂ fun item inside =>
    have ⟨_, parsed⟩ := parses item inside
    admitItem_of_parse showF64 parsed
  intro entries
  obtain ⟨left, right⟩ := filterMap_of_admits (each.imp fun _ _ => admits_admitItem)
  have asks : ∀ item e, writeEntry showF64 item = some e → e.Asks item := fun _ _ =>
    writeEntry_asks
  have sized : ∀ e ∈ entries, e.Sized := by
    intro e inside
    obtain ⟨item, _, asked⟩ := List.mem_filterMap.mp inside
    exact (asks item e asked).sized
  have perm : ((writeChunksOf pdu maxItems entries).flatMap Prod.snd).Perm entries :=
    batches_perm (flatten_cutWriteGroup pdu maxItems) entries
  have chunk := fun c (inside : c ∈ writeChunksOf pdu maxItems entries) =>
    isWriteChunk large sized inside
  refine ⟨(writeChunksOf pdu maxItems entries).map fun c => emitWritePlan c.1 c.2,
    admitted.filterMap Sum.getRight?, ?_, ?_, right, asks, ?_, ?_, ?_⟩
  · simp only [planWriteBatch, mapM_of_forall₂ each, bind, Except.bind, left]
    rfl
  · rw [right]
    refine List.Perm.trans (.append_right _ ?_)
      (perm_entries (fun item e asked => (asks item e asked).id) items)
    rw [List.flatMap_map]
    exact flatMap_perm_map perm fun _ _ => rfl
  · intro plan inside
    obtain ⟨c, here, rfl⟩ := List.mem_map.mp inside
    obtain ⟨asked, own, each⟩ := exists_asked (chunk c here).1
    refine ⟨asked, c.2, own, each, ?_, covers_emitWritePlan (chunk c here).2⟩
    exact ids_of_forall₂ (fun item e asked => (asks item e asked).id) each
  · intro memory
    rw [← flatMap_batches (flatten_cutWriteGroup pdu maxItems)]
    exact foldl_packets (fun c here m => perform_emitWritePlan (chunk c here).2 m) memory
  · intro plan inside pduRef
    obtain ⟨c, here, rfl⟩ := List.mem_map.mp inside
    exact length_buildWrite_le (chunk c here).2 pduRef

/-- Two words in a row, a third that overlaps, a bit, and an input. -/
def sampleWrites : List WriteRequest :=
  [⟨1, "db1.dbw2", .u64 5⟩, ⟨2, "db1.dbw0", .i64 (-1)⟩, ⟨3, "m0.3", .bool true⟩,
    ⟨4, "ib0", .u64 1⟩, ⟨5, "db1.dbw3", .u64 7⟩]

/-- Overlapping writes in the order of the addresses. -/
theorem planWriteBatch_stores_sample :
    ∃ plans failed, planWriteBatch (fun _ => "") sampleWrites 240 20 = .ok (plans, failed) ∧
      (plans.map fun plan => (plan.areaCode, plan.startByte, plan.payload, plan.itemIds)) =
        [(0x83, 0, [1], [3]), (0x84, 0, [0xFF, 0xFF, 0, 5], [2, 1]), (0x84, 3, [0, 7], [5])] ∧
      failed.map Prod.fst = [4] ∧
      (plans.flatMap WritePlan.itemIds ++ failed.map Prod.fst).Perm [1, 2, 3, 4, 5] ∧
      (∀ memory : Memory, memory.performAll plans =
        ((groups WriteKey.le WriteEntry.key
          (sampleWrites.filterMap (writeEntry fun _ => ""))).flatMap fun g =>
            sortByKey WriteEntry.start g.2).foldl Memory.store memory) ∧
      ∀ plan ∈ plans, ∀ pduRef,
        (buildWrite pduRef [(plan.anyItem, plan.payload)]).length ≤ 240 := by
  have parses : ∀ item ∈ sampleWrites, ∃ a, parse item.address = .ok a := by
    simp only [sampleWrites, List.mem_cons, List.not_mem_nil, or_false, forall_eq_or_imp,
      forall_eq]
    exact ⟨⟨_, rfl⟩, ⟨_, rfl⟩, ⟨_, rfl⟩, ⟨_, rfl⟩, ⟨_, rfl⟩⟩
  obtain ⟨plans, failed, planned, ids, _, _, _, memory, fits⟩ :=
    planWriteBatch_stores (fun _ => "") sampleWrites 240 (by decide) 20 parses
  refine ⟨plans, failed, planned, ?_, ?_, ids, memory, fits⟩
  all_goals
    cases planned
    rfl

end ForgeLink.Drivers.S7comm
