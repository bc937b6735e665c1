import ForgeLink.Drivers.S7Device
import ForgeLink.Drivers.S7Plans

/-!
# S7 batch reads of bits

A run of neighbouring bits becomes one plan, and the pointer of a plan of bits is
a pointer to its first bit.  So all items of the plan are answered with that one
bit, or with an error from the ninth on: a batch read of bits is right, for every
memory, just if no two neighbouring bits can come together in a plan
(`readBatch_bits_iff`).
-/

namespace ForgeLink.Drivers.S7comm

open Lib

variable {key : GroupKey} {maxItems : Nat} {s : Session Own} {pdu : UInt16} {chunk : List Entry}

/-! ## The result of one item -/

/-- The result of an item whose plan has read `bit`. -/
def bitResult (fmt : DebugFmt) (bit : Bool) (i : PlannedItem) : RawReadResult :=
  assembleItem fmt ⟨0xFF, [if bit then 1 else 0]⟩ i

section

variable (fmt : DebugFmt) {i : PlannedItem} (ty : i.ty = .bit)

include ty

theorem assembleItem_bit (byte : UInt8) :
    assembleItem fmt ⟨0xFF, [byte]⟩ i = bitResult fmt (bitOf byte 0) i := by
  have same : decide ((if bitOf byte 0 then (1 : UInt8) else 0) &&& 1 ≠ 0) =
      decide (byte &&& 1 ≠ 0) := by
    have bit : bitOf byte 0 = decide (byte &&& 1 ≠ 0) := by simp [bitOf]
    rw [bit]
    by_cases set : byte &&& 1 = 0 <;> simp [set]
  unfold bitResult assembleItem
  rw [ty]
  cases offset : i.offsetInData with
  | zero =>
    cases t : i.expectedType with
    | none => simp [decodeRead, S7Type.widthBytes, same]
    | some t' => cases t' <;> simp [decodeRead, S7Type.widthBytes, same]
  | succ n => simp [S7Type.widthBytes]

theorem bitResult_good (bit : Bool) (first : i.offsetInData = 0)
    (bitType : BitType i.expectedType) :
    bitResult fmt bit i = .good i.itemId (.bool bit) := by
  have value : decide ((if bit then (1 : UInt8) else 0) &&& 1 ≠ 0) = bit := by cases bit <;> rfl
  rcases bitType with t | t
  · simp [bitResult, assembleItem, ty, first, t, decodeRead, S7Type.widthBytes, value]
  · simp [bitResult, assembleItem, ty, first, t, decodeRead, S7Type.widthBytes, value]

/-- An item that is not of the first eight, or that is to be read as anything but a bit, has
no value. -/
theorem bitResult_isSome (bit : Bool) (isSome : (bitResult fmt bit i).value.isSome = true) :
    i.offsetInData = 0 ∧ BitType i.expectedType := by
  unfold bitResult assembleItem at isSome
  rw [ty] at isSome
  cases offset : i.offsetInData with
  | succ n => simp [offset, S7Type.widthBytes, RawReadResult.failed] at isSome
  | zero =>
    refine ⟨rfl, ?_⟩
    cases t : i.expectedType with
    | none => exact .inl rfl
    | some t' =>
      cases t'
      case bool => exact .inr rfl
      all_goals
        simp [offset, t, decodeRead, S7Type.widthBytes, RawReadResult.failed] at isSome

end

/-! ## Plans of bits -/

/-- The results of a chunk of bits. -/
def bitResults (memory : BitMemory) (fmt : DebugFmt) (key : GroupKey) (chunk : List Entry) :
    List RawReadResult :=
  (flushRead key chunk).items.map
    (bitResult fmt (memory key.areaCode key.db ((chunk.head?.map Entry.sortKey).getD 0)))

theorem anyItem_bits {first : Entry} {rest : List Entry} (bit : first.address.ty = .bit) :
    (flushRead key (first :: rest)).anyItem =
      .ok (bitPointer key.areaCode key.db first.sortKey) := by
  have place : first.sortKey % 8 = first.address.bit := by
    have le := first.address.bit_le
    unfold Entry.sortKey S7Address.key
    omega
  rw [flushRead_cons]
  simp [ReadPlan.anyItem, ReadPlan.anyItemOf, Entry.planned, bit, S7Type.unit, bitPointer, place]

theorem Entry.sortKey_lt (e : Entry) : e.sortKey < 2 ^ 24 := by
  have byte := e.address.byte_le
  have bit := e.address.bit_le
  unfold Entry.sortKey S7Address.key
  omega

section

variable {peer : Peer} (fmt : DebugFmt) {config : S7Config} {memory : BitMemory}
  {idle : Session Own → Prop} (serves : ServesBits peer config pdu memory idle)
  {entries : List Entry} (bits : ∀ e ∈ entries, e.address.ty = .bit)

include serves bits

/-- The bits of all plans are those of the memory. -/
theorem readPlans_bits {chunks : List (GroupKey × List Entry)}
    (all : ∀ c ∈ chunks, IsChunk pdu maxItems entries c.1 c.2) (results : List RawReadResult)
    (quiet : idle s) (connected : s.stream = true) :
    Returns (readPlans peer fmt (chunks.map fun c => flushRead c.1 c.2) results)
      (fun r _ => r = results ++ chunks.flatMap fun c => bitResults memory fmt c.1 c.2) s := by
  induction chunks generalizing results s with
  | nil => exact (List.append_nil results).symm
  | cons c chunks ih =>
    obtain ⟨key, chunk⟩ := c
    have h := all _ List.mem_cons_self
    cases chunk with
    | nil => exact absurd rfl h.nonempty
    | cons first rest =>
      obtain ⟨first_inside, first_key⟩ := h.entry first List.mem_cons_self
      have db_lt : key.db < 65536 := by
        rw [← show first.key = key from first_key]
        exact first.address.db_lt
      unfold readPlans executeReadPlan
      refine .bind (R := fun response t => response.returnCode = 0xFF ∧
        (∃ byte, response.payload = [byte] ∧
          bitOf byte 0 = memory key.areaCode key.db first.sortKey) ∧
        idle t ∧ t.stream = true) ?_ ?_
      · refine returns_liftExcept_bind _ (anyItem_bits (bits first first_inside)) ?_
        exact serves.reads s _ _ _ quiet connected db_lt first.sortKey_lt
      · rintro ⟨code, payload⟩ t ⟨rfl, ⟨byte, rfl, bit⟩, quiet, connected⟩
        refine (ih (fun c later => all c (List.mem_cons_of_mem _ later)) _ quiet
          connected).mono ?_
        rintro _ _ rfl
        rw [List.flatMap_cons, ← List.append_assoc]
        refine congrArg (results ++ · ++ _) (List.map_congr_left fun i inside => ?_)
        obtain ⟨e, here, rfl⟩ := List.mem_map.mp inside
        rw [assembleItem_bit fmt (bits e (h.entry e here).1), bit]
        rfl

theorem readBatch_bits {items : List DriverReadItem}
    (parsed : List.Forall₂ (fun item e => parseItem item = .ok e) items entries) (quiet : idle s) :
    ∃ t, readBatch peer fmt config items s = .ok (sortByKey RawReadResult.itemId
      ((chunksOf pdu config.maxItemsPerPdu entries).flatMap fun c =>
        bitResults memory fmt c.1 c.2)) t := by
  refine Returns.run ?_
  unfold readBatch
  refine .bind (serves.connects s quiet) ?_
  rintro _ t ⟨rfl, quiet, connected⟩
  refine returns_liftExcept_bind _ (planReadBatch_eq _ _ parsed) ?_
  refine .bind (readPlans_bits fmt serves bits (fun _ here => isChunk here) [] quiet connected) ?_
  rintro _ u rfl
  rfl

end

/-! ## Plans of one bit -/

/-- The result that an entry should have. -/
def Entry.ownBit (memory : BitMemory) (e : Entry) : RawReadResult :=
  .good e.itemId (.bool (memory e.address.area.code e.address.db e.sortKey))

theorem chunksOf_singleton (pdu : UInt16) (maxItems : Nat) (e : Entry) :
    chunksOf pdu maxItems [e] = [(e.key, [e])] := by
  cases bit : e.key.isBit <;>
    simp [chunksOf, batches, groups, sortByKey, cutGroup, streams, bit, runs, runsFrom]

theorem bitResults_singleton (memory : BitMemory) (fmt : DebugFmt) {e : Entry}
    (bit : e.address.ty = .bit) (bitType : BitType e.expectedType) :
    bitResults memory fmt e.key [e] = [e.ownBit memory] := by
  rw [bitResults, flushRead_cons]
  simp only [List.map_cons, List.map_nil, List.head?_cons, Option.map_some, Option.getD_some]
  rw [bitResult_good fmt (i := e.planned e.sortKey) bit _ (by simp [Entry.planned]) bitType]
  rfl

/-- Bits of a run follow each other. -/
theorem inARow_of_mem {entries : List Entry} (isBit : key.isBit = true)
    (inside : (key, chunk) ∈ chunksOf pdu maxItems entries) :
    List.IsChain (fun a b : Entry => a.sortKey + 1 = b.sortKey) chunk := by
  obtain ⟨group, _, cut⟩ := mem_batches.mp inside
  obtain ⟨stream, stream_inside, chunk_inside⟩ := List.mem_flatMap.mp cut
  rw [streams, if_pos isBit] at stream_inside
  exact isChain_of_mem_pieces stream_inside chunk_inside fun front x y joined => by
    simpa [follows] using joined

/-- Two bits that follow each other can come together in a plan. -/
def Joinable (pdu : UInt16) (maxItems : Nat) (a b : S7Address) : Prop :=
  a.area = b.area ∧ a.db = b.db ∧ a.key + 1 = b.key ∧ 2 ≤ maxItems ∧
    b.key / 8 + 1 - a.key / 8 + 8 ≤ readDataBudget pdu 2

instance (pdu : UInt16) (maxItems : Nat) (a b : S7Address) :
  Decidable (Joinable pdu maxItems a b) :=
  inferInstanceAs (Decidable (_ ∧ _))

theorem fits_pair (pdu : UInt16) (maxItems : Nat) {x y : Entry} (bit : y.address.ty = .bit) :
    fits pdu maxItems [x] y = true ↔
      2 ≤ maxItems ∧ y.sortKey / 8 + 1 - x.sortKey / 8 + 8 ≤ readDataBudget pdu 2 := by
  simp only [fits, Entry.endByte, bit, S7Type.widthBytes, List.head?_cons, Option.map_some,
    Option.getD_some, List.length_singleton, Nat.reduceAdd, decide_eq_true_eq]
  omega

theorem Area.code_inj {a b : Area} (eq : a.code = b.code) : a = b := by
  cases a <;> cases b <;> first | rfl | exact absurd eq (by decide)

theorem Entry.key_eq_iff {x y : Entry} (x_bit : x.address.ty = .bit) (y_bit : y.address.ty = .bit) :
    x.key = y.key ↔ x.address.area = y.address.area ∧ x.address.db = y.address.db := by
  simp only [Entry.key, x_bit, y_bit, GroupKey.mk.injEq, and_true]
  exact ⟨fun h => ⟨Area.code_inj h.1, h.2⟩, fun h => ⟨congrArg Area.code h.1, h.2⟩⟩

section

variable {entries : List Entry} (bits : ∀ e ∈ entries, e.address.ty = .bit)

include bits

theorem isBit_of_mem (inside : (key, chunk) ∈ chunksOf pdu maxItems entries) :
    key.isBit = true := by
  have h := isChunk inside
  obtain ⟨e, here⟩ := List.exists_mem_of_ne_nil chunk h.nonempty
  obtain ⟨e_inside, rfl⟩ := h.entry e here
  simp [Entry.key, bits e e_inside]

/-- Every chunk has one bit just if no two of the bits are joinable. -/
theorem singletons_iff :
    (∀ c ∈ chunksOf pdu maxItems entries, c.2.length = 1) ↔
      ∀ x ∈ entries, ∀ y ∈ entries, ¬Joinable pdu maxItems x.address y.address := by
  constructor
  · rintro single x x_mem y y_mem ⟨area, db, next, many, small⟩
    change x.sortKey + 1 = y.sortKey at next
    have same := (Entry.key_eq_iff (bits x x_mem) (bits y y_mem)).mpr ⟨area, db⟩
    -- the two bits stand next to each other in their sorted group, or two with the same numbers
    have group := exists_group GroupKey.le Entry.key x_mem
    have perm := sortByKey_perm Entry.sortKey (entries.filter fun e => e.key = x.key)
    obtain ⟨front, x', y', back, split, x_eq, y_eq⟩ := exists_consecutive Entry.sortKey
      (sortByKey_sorted Entry.sortKey (entries.filter fun e => e.key = x.key))
      (x := x) (y := y) (perm.mem_iff.mpr (by simp [x_mem]))
      (perm.mem_iff.mpr (by simp [y_mem, same])) next
    have isBit : x.key.isBit = true := by simp [Entry.key, bits x x_mem]
    have y_bit : y'.address.ty = .bit := by
      refine bits y' (List.mem_filter.mp (perm.mem_iff.mp ?_)).1
      rw [split]
      simp
    have joined : ∀ run, follows (run ++ [x']) y' = true := by
      intro run
      simp only [follows, List.getLast?_append, List.getLast?_singleton, Option.some_or,
        decide_eq_true_eq]
      omega
    obtain ⟨stream, stream_mem, f, b, stream_eq⟩ :
        ∃ r ∈ runs follows (sortByKey Entry.sortKey (entries.filter fun e => e.key = x.key)),
          ∃ f b, r = f ++ x' :: y' :: b := by
      cases sorted : sortByKey Entry.sortKey (entries.filter fun e => e.key = x.key) with
      | nil => simp [sorted] at split
      | cons z zs => exact exists_run_of_consecutive joined [z] zs (sorted ▸ split)
    have apart : List.IsChain (fun a b => fits pdu maxItems [a] b = false) stream := by
      refine isChain_of_singletons fun r inside =>
        single (x.key, r) (mem_batches.mpr ⟨_, group, ?_⟩)
      rw [cutGroup, streams, if_pos isBit]
      exact List.mem_flatMap.mpr ⟨stream, stream_mem, inside⟩
    rw [stream_eq, List.isChain_append_cons_cons] at apart
    have fitting := (fits_pair pdu maxItems (x := x') y_bit).mpr
      ⟨many, by rw [x_eq, y_eq]; exact small⟩
    rw [apart.2.1] at fitting
    cases fitting
  · rintro none ⟨key, chunk⟩ inside
    have h := isChunk inside
    have chain := inARow_of_mem (isBit_of_mem bits inside) inside
    rcases chunk with _ | ⟨x, _ | ⟨y, rest⟩⟩
    · exact absurd rfl h.nonempty
    · rfl
    · obtain ⟨x_mem, x_key⟩ := h.entry x (by simp)
      obtain ⟨y_mem, y_key⟩ := h.entry y (by simp)
      obtain ⟨area, db⟩ := (Entry.key_eq_iff (bits x x_mem) (bits y y_mem)).mp
        (x_key.trans y_key.symm)
      have fitting := (fits_pair pdu maxItems (bits y y_mem)).mp (h.fits [x] y rest rfl (by simp))
      exact absurd ⟨area, db, (List.isChain_cons_cons.mp chain).1, fitting⟩ (none x x_mem y y_mem)

/-- If every chunk has one bit, the results are the right ones. -/
theorem results_of_singletons (memory : BitMemory) (fmt : DebugFmt)
    (bitTypes : ∀ e ∈ entries, BitType e.expectedType)
    (single : ∀ c ∈ chunksOf pdu maxItems entries, c.2.length = 1) :
    ((chunksOf pdu maxItems entries).flatMap fun c => bitResults memory fmt c.1 c.2).Perm
      (entries.map (Entry.ownBit memory)) := by
  refine flatMap_perm_map (chunksOf_perm _ _ entries) ?_
  rintro ⟨key, chunk⟩ inside
  obtain ⟨e, rfl⟩ := List.length_eq_one_iff.mp (single _ inside)
  obtain ⟨e_mem, rfl⟩ := (isChunk inside).entry e (by simp)
  exact bitResults_singleton memory fmt (bits e e_mem) (bitTypes e e_mem)

end

/-! ## Plans of several bits -/

/-- A place in the memory, as a number. -/
def placeOf (areaCode : UInt8) (db key : Nat) : Nat := (areaCode.toNat * 65536 + db) * 2 ^ 24 + key

section

variable {entries : List Entry} (bits : ∀ e ∈ entries, e.address.ty = .bit)

include bits

/-- If all results have values, they are the first bits of the chunks. -/
theorem bitResults_eq {memory : BitMemory} {fmt : DebugFmt}
    (inside : (key, chunk) ∈ chunksOf pdu maxItems entries)
    (valued : ∀ r ∈ bitResults memory fmt key chunk, r.value.isSome = true) :
    bitResults memory fmt key chunk = chunk.map fun e =>
      .good e.itemId (.bool (memory e.address.area.code e.address.db
        ((chunk.head?.map Entry.sortKey).getD 0))) := by
  rw [bitResults, flushRead, List.map_map]
  refine List.map_congr_left fun e here => ?_
  obtain ⟨e_mem, rfl⟩ := (isChunk inside).entry e here
  have some_value := valued _ (List.mem_map_of_mem (List.mem_map_of_mem here))
  obtain ⟨first, bitType⟩ := bitResult_isSome fmt (bits e e_mem) _ some_value
  exact bitResult_good fmt (bits e e_mem) _ first bitType

/-- If the results are right for every memory, every item is the first of its chunk. -/
theorem singletons_of_results (fmt : DebugFmt)
    (right : ∀ memory : BitMemory,
      ((chunksOf pdu maxItems entries).flatMap fun c => bitResults memory fmt c.1 c.2).Perm
        (entries.map (Entry.ownBit memory))) :
    ∀ c ∈ chunksOf pdu maxItems entries, c.2.length = 1 := by
  have valued : ∀ memory, ∀ c ∈ chunksOf pdu maxItems entries,
      ∀ r ∈ bitResults memory fmt c.1 c.2, r.value.isSome = true := by
    intro memory c here r inside
    have own := (right memory).mem_iff.mp (List.mem_flatMap.mpr ⟨c, here, inside⟩)
    obtain ⟨e, _, rfl⟩ := List.mem_map.mp own
    rfl
  have entries_perm := withFirst_perm Entry.sortKey (chunksOf_perm pdu maxItems entries)
  have places := perm_places (fun p : Entry × Nat => p.1.itemId)
    (fun p => placeOf p.1.address.area.code p.1.address.db p.1.sortKey)
    (fun p => placeOf p.1.address.area.code p.1.address.db p.2)
    (withFirst Entry.sortKey (chunksOf pdu maxItems entries)) ?before ?perm
  case before =>
    rintro ⟨e, first⟩ inside
    obtain ⟨key, x, rest, here, e_mem, rfl⟩ := (mem_withFirst _).mp inside
    exact Nat.add_le_add_left ((isChunk here).first_le e_mem) _
  case perm =>
    intro mem
    let memory : BitMemory := fun areaCode db key => mem (placeOf areaCode db key)
    have answers := (right memory).map fun r => (r.itemId, r.bit)
    have seen : (((chunksOf pdu maxItems entries).flatMap fun c =>
        bitResults memory fmt c.1 c.2).map fun r => (r.itemId, r.bit)) =
        (withFirst Entry.sortKey (chunksOf pdu maxItems entries)).map fun p =>
          (p.1.itemId, mem (placeOf p.1.address.area.code p.1.address.db p.2)) := by
      rw [withFirst, List.map_flatMap, List.map_flatMap]
      refine List.flatMap_congr fun c here => ?_
      rw [bitResults_eq bits here (valued memory c here), List.map_map, List.map_map]
      rfl
    rw [seen, List.map_map] at answers
    refine answers.trans ((entries_perm.symm.map _).trans ?_)
    rw [List.map_map]
    exact .refl _
  rintro ⟨key, chunk⟩ inside
  have chain := inARow_of_mem (isBit_of_mem bits inside) inside
  obtain _ | ⟨x, _ | ⟨y, rest⟩⟩ := chunk
  · exact absurd rfl (isChunk inside).nonempty
  · rfl
  · have same := places (y, x.sortKey)
      ((mem_withFirst _).mpr ⟨key, x, _, inside, by simp, rfl⟩)
    have next := (List.isChain_cons_cons.mp chain).1
    simp only [placeOf] at same
    omega

end

/-! ## The theorem -/

/-- The result that an item should have. -/
def ownBit (memory : BitMemory) (item : DriverReadItem) : Option RawReadResult :=
  (parse item.address).toOption.map fun a =>
    .good item.id (.bool (memory a.area.code a.db a.key))

theorem map_ownBit (memory : BitMemory) {items : List DriverReadItem} {entries : List Entry}
    (parsed : List.Forall₂ (fun item e => parseItem item = .ok e) items entries) :
    items.map (ownBit memory) = (entries.map (Entry.ownBit memory)).map some := by
  refine map_of_forall₂ parsed fun item e parsed => ?_
  obtain ⟨a, address, rfl⟩ := parseItem_eq_ok parsed
  simp only [ownBit, address, Except.toOption, Option.map_some, Entry.ownBit, Entry.sortKey]

section

variable {items : List DriverReadItem} {entries : List Entry}
  (parsed : List.Forall₂ (fun item e => parseItem item = .ok e) items entries)

include parsed

theorem bitTypes_iff :
    (∀ item ∈ items, BitType item.expectedType) ↔ ∀ e ∈ entries, BitType e.expectedType := by
  refine forall_mem_iff_of_forall₂ parsed fun item e parsed => ?_
  obtain ⟨a, _, rfl⟩ := parseItem_eq_ok parsed
  rfl

theorem joinable_iff :
    (∀ x ∈ items, ∀ y ∈ items, ∀ a b, parse x.address = .ok a → parse y.address = .ok b →
        ¬Joinable pdu maxItems a b) ↔
      ∀ x ∈ entries, ∀ y ∈ entries, ¬Joinable pdu maxItems x.address y.address := by
  refine forall_mem_iff_of_forall₂ parsed fun x e parsed_x => ?_
  refine forall_mem_iff_of_forall₂ parsed fun y e' parsed_y => ?_
  obtain ⟨a, x_address, rfl⟩ := parseItem_eq_ok parsed_x
  obtain ⟨b, y_address, rfl⟩ := parseItem_eq_ok parsed_y
  simp [x_address, y_address]

end

/-- What reading one bit returns. -/
theorem readBatch_bit {peer : Peer} (fmt : DebugFmt) {config : S7Config} {memory : BitMemory}
    {idle : Session Own → Prop} (serves : ServesBits peer config pdu memory idle)
    {item : DriverReadItem} {e : Entry} (parsed : parseItem item = .ok e)
    (bit : e.address.ty = .bit) (quiet : idle s) :
    ∃ t, readBatch peer fmt config [item] s =
      .ok [bitResult fmt (memory e.key.areaCode e.key.db e.sortKey) (e.planned e.sortKey)] t := by
  obtain ⟨t, run⟩ := readBatch_bits fmt serves (by simpa using bit : ∀ e' ∈ [e],
    e'.address.ty = .bit)
    (.cons parsed .nil) quiet
  refine ⟨t, run.trans ?_⟩
  simp [chunksOf_singleton, bitResults, flushRead_cons, sortByKey]

/-- A batch read of bits returns for every item the value of its own bit, as reading it
alone does, for every memory: this holds just if every item is to be read as a bit,
and no two of the bits are joinable. -/
theorem readBatch_bits_iff (fmt : DebugFmt) (config : S7Config) (pdu : UInt16)
    (items : List DriverReadItem)
    (bits : ∀ item ∈ items, ∃ a, parse item.address = .ok a ∧ a.ty = .bit) :
    (∀ peer memory idle s, ServesBits peer config pdu memory idle → idle s →
      (∃ results t, readBatch peer fmt config items s = .ok results t ∧
        (results.map some).Perm (items.map (ownBit memory))) ∧
      ∀ item ∈ items, ∃ result t, readBatch peer fmt config [item] s = .ok [result] t ∧
        some result = ownBit memory item) ↔
    (∀ item ∈ items, BitType item.expectedType) ∧
      ∀ x ∈ items, ∀ y ∈ items, ∀ a b, parse x.address = .ok a → parse y.address = .ok b →
        ¬Joinable pdu config.maxItemsPerPdu a b := by
  obtain ⟨entries, parsed⟩ := exists_forall₂ (R := fun item e => parseItem item = .ok e)
    fun item inside => by
      obtain ⟨a, address, _⟩ := bits item inside
      exact ⟨⟨item.id, item.expectedType, a⟩, by rw [parseItem, address]⟩
  have bit_of_parsed : ∀ item ∈ items, ∀ e, parseItem item = .ok e → e.address.ty = .bit := by
    intro item inside e eq
    obtain ⟨a, address, rfl⟩ := parseItem_eq_ok eq
    obtain ⟨a', address', bit⟩ := bits item inside
    rw [address] at address'
    cases address'
    exact bit
  have entries_bits : ∀ e ∈ entries, e.address.ty = .bit := by
    intro e here
    obtain ⟨item, inside, eq⟩ := exists_left_of_forall₂ parsed here
    exact bit_of_parsed item inside e eq
  rw [joinable_iff parsed, ← singletons_iff entries_bits]
  constructor
  · intro right
    have served := fun memory => right _ memory _ ⟨true, [], ⟨0, pdu⟩⟩
      (plc_servesBits config pdu memory) ⟨rfl, rfl, rfl⟩
    refine ⟨?_, ?_⟩
    · intro item inside
      obtain ⟨e, _, eq⟩ := exists_right_of_forall₂ parsed inside
      have bit := bit_of_parsed item inside e eq
      obtain ⟨t, run⟩ := readBatch_bit fmt
        (plc_servesBits config pdu fun _ _ _ => true) eq bit (s := ⟨true, [], ⟨0, pdu⟩⟩)
        ⟨rfl, rfl, rfl⟩
      obtain ⟨result, t', run', own⟩ := (served fun _ _ _ => true).2 item inside
      rw [run] at run'
      cases run'
      obtain ⟨a, address, e_eq⟩ := parseItem_eq_ok eq
      simp only [ownBit, address, Except.toOption, Option.map_some, Option.some.injEq] at own
      have valued := congrArg (fun r : RawReadResult => r.value.isSome) own
      have bitType := (bitResult_isSome fmt (i := e.planned e.sortKey) bit _ valued).2
      rw [e_eq] at bitType
      exact bitType
    · refine singletons_of_results entries_bits fmt fun memory => ?_
      obtain ⟨t, run⟩ := readBatch_bits fmt (plc_servesBits config pdu memory) entries_bits
        parsed (s := ⟨true, [], ⟨0, pdu⟩⟩) ⟨rfl, rfl, rfl⟩
      obtain ⟨⟨results, t', run', perm⟩, _⟩ := served memory
      rw [run] at run'
      cases run'
      rw [map_ownBit memory parsed, List.map_perm_map_iff (Option.some_injective _)] at perm
      exact (sortByKey_perm _ _).symm.trans perm
  · rintro ⟨bitTypes, single⟩ peer memory idle s serves quiet
    refine ⟨?_, ?_⟩
    · obtain ⟨t, run⟩ := readBatch_bits fmt serves entries_bits parsed quiet
      refine ⟨_, t, run, ?_⟩
      rw [map_ownBit memory parsed]
      exact ((sortByKey_perm _ _).trans (results_of_singletons entries_bits memory fmt
        ((bitTypes_iff parsed).mp bitTypes) single)).map _
    · intro item inside
      obtain ⟨e, _, eq⟩ := exists_right_of_forall₂ parsed inside
      have bit := bit_of_parsed item inside e eq
      obtain ⟨t, run⟩ := readBatch_bit fmt serves eq bit quiet
      obtain ⟨a, address, rfl⟩ := parseItem_eq_ok eq
      refine ⟨_, t, run, ?_⟩
      rw [bitResult_good fmt (i := Entry.planned _ ⟨item.id, item.expectedType, a⟩) bit _
        (by simp [Entry.planned]) (bitTypes item inside)]
      simp only [ownBit, address, Except.toOption, Option.map_some]
      rfl

/-- A driver for the PLC at rack 0, slot 1. -/
def plcConfig : S7Config where
  host := "plc"
  port := 102
  rack := 0
  slot := 1
  reconnect := false
  reconnectMaxAttempts := 0
  maxItemsPerPdu := 20

/-- Two bits with a gap between them, of which the second is set. -/
theorem readBatch_bits_apart :
    let memory : BitMemory := fun _ _ key => key = 2
    let items : List DriverReadItem := [⟨1, "m0.0", some .bool⟩, ⟨2, "m0.2", none⟩]
    ∃ results t, readBatch (replying (plc 240 memory)) plainDebug plcConfig items
        ⟨true, [], ⟨0, 240⟩⟩ = .ok results t ∧
      (results.map some).Perm (items.map (ownBit memory)) :=
  ((readBatch_bits_iff plainDebug plcConfig 240
    [⟨1, "m0.0", some .bool⟩, ⟨2, "m0.2", none⟩] (by
      simp only [List.forall_mem_cons]
      exact ⟨⟨_, rfl, rfl⟩, ⟨_, rfl, rfl⟩, nofun⟩)).mpr
    ⟨by simp [BitType], (joinable_iff (.cons rfl (.cons rfl .nil))).mpr (by decide +kernel)⟩
    _ _ _ ⟨true, [], ⟨0, 240⟩⟩ (plc_servesBits plcConfig 240 fun _ _ key => key = 2)
    ⟨rfl, rfl, rfl⟩).1

/-- Two neighbouring bits, of which the second is set: both are answered with the first. -/
theorem readBatch_repeats_bit :
    let memory : BitMemory := fun _ _ key => key = 1
    let peer := replying (plc 240 memory)
    let start : Session Own := ⟨false, [], ⟨0, 0⟩⟩
    (match readBatch peer plainDebug plcConfig
        [⟨1, "m0.0", some .bool⟩, ⟨2, "m0.1", some .bool⟩] start with
      | .ok results _ => results.map fun r => (r.itemId, r.bit)
      | .error _ _ => []) = [(1, false), (2, false)] ∧
    (match readBatch peer plainDebug plcConfig [⟨2, "m0.1", some .bool⟩] start with
      | .ok results _ => results.map fun r => (r.itemId, r.bit)
      | .error _ _ => []) = [(2, true)] := by
  decide +kernel

end ForgeLink.Drivers.S7comm
