import ForgeLink.Drivers.S7Read

/-!
# What an S7 plan asks for

The chunks of a batch hold every item once and within the limits, whatever the
mixture of widths and gaps, and the answer to a plan fits the negotiated PDU.
The span of a chunk is measured in bytes but asked for in elements of the type
of its first item, and the division drops what is left over: the pointer of a
plan covers all of its items just if the span is a multiple of the width of the
first one (`planReadBatch_covers_iff`).
-/

namespace ForgeLink.Drivers.S7comm

open Lib

variable {entries chunk : List Entry} {key : GroupKey} {pdu : UInt16} {maxItems : Nat}

/-! ## Chunks -/

section

theorem flatten_cutGroup (key : GroupKey) (group : List Entry) :
    (cutGroup pdu maxItems key group).flatten = group := by
  rw [cutGroup, flatten_flatMap_runs, streams]
  split
  · exact flatten_runs _ _
  · simp

/-- What every chunk of a batch is. -/
structure IsChunk (pdu : UInt16) (maxItems : Nat) (entries : List Entry) (key : GroupKey)
    (chunk : List Entry) : Prop where
  nonempty : chunk ≠ []
  sorted : chunk.Pairwise fun a b => a.sortKey ≤ b.sortKey
  entry : ∀ e ∈ chunk, e ∈ entries ∧ e.key = key
  fits : Chained (fits pdu maxItems) chunk

theorem isChunk (inside : (key, chunk) ∈ chunksOf pdu maxItems entries) :
    IsChunk pdu maxItems entries key chunk := by
  obtain ⟨group, _, cut⟩ := mem_batches.mp inside
  obtain ⟨stream, stream_inside, chunk_inside⟩ := List.mem_flatMap.mp cut
  have sorted := sortByKey_sorted Entry.sortKey group
  have stream_sorted : stream.Pairwise fun a b => a.sortKey ≤ b.sortKey := by
    unfold streams at stream_inside
    split at stream_inside
    · exact pairwise_of_mem_runs sorted stream_inside
    · exact List.mem_singleton.mp stream_inside ▸ sorted
  exact
    { nonempty := ne_nil_of_mem_runs chunk_inside
      sorted := pairwise_of_mem_runs stream_sorted chunk_inside
      entry := fun e here => key_of_mem_batches flatten_cutGroup inside here
      fits := chained_of_mem_runs chunk_inside }

variable (pdu maxItems) in
theorem chunksOf_perm (entries : List Entry) :
    ((chunksOf pdu maxItems entries).flatMap Prod.snd).Perm entries :=
  batches_perm flatten_cutGroup entries

end

/-! ## The end of a chunk -/

theorem endByte_le_dataEnd {e : Entry} (here : e ∈ chunk) : e.endByte ≤ dataEnd chunk :=
  (le_foldl_max (chunk.map Entry.endByte) 0).2 _ (List.mem_map_of_mem here)

theorem S7Type.widthBytes_pos (ty : S7Type) : 1 ≤ ty.widthBytes := by
  cases ty <;> decide

theorem S7Type.widthBytes_le (ty : S7Type) : ty.widthBytes ≤ 4 := by
  cases ty <;> decide

theorem exists_endByte_eq (nonempty : chunk ≠ []) : ∃ e ∈ chunk, e.endByte = dataEnd chunk := by
  rcases foldl_max_mem (chunk.map Entry.endByte) 0 with none | inside
  · obtain ⟨e, here⟩ := List.exists_mem_of_ne_nil chunk nonempty
    have le := endByte_le_dataEnd here
    have width := e.address.ty.widthBytes_pos
    have positive : 1 ≤ e.endByte := by
      unfold Entry.endByte
      omega
    rw [dataEnd, none] at le
    omega
  · obtain ⟨e, here, eq⟩ := List.mem_map.mp inside
    exact ⟨e, here, eq⟩

/-! ## Limits -/

namespace IsChunk

variable {first e : Entry} {rest : List Entry}

theorem length_le (h : IsChunk pdu maxItems entries key chunk) (some_allowed : 1 ≤ maxItems) :
    chunk.length ≤ maxItems := by
  rcases List.eq_nil_or_concat chunk with rfl | ⟨front, e, rfl⟩
  · simp
  · cases front with
    | nil => simpa using some_allowed
    | cons f front =>
      have joined := h.fits (f :: front) e [] (by simp) (by simp)
      simp only [S7comm.fits, decide_eq_true_eq] at joined
      simp only [List.concat_eq_append, List.length_append, List.length_cons,
        List.length_nil] at *
      omega

theorem first_le (h : IsChunk pdu maxItems entries key (first :: rest)) (here : e ∈ first :: rest) :
    first.sortKey ≤ e.sortKey := head_le_of_sorted h.sorted here

/-- Every item ends within the budget of the PDU. -/
theorem endByte_le (h : IsChunk pdu maxItems entries key (first :: rest)) (large : 64 ≤ pdu.toNat)
    (here : e ∈ first :: rest) : e.endByte - first.sortKey / 8 + 20 ≤ pdu.toNat := by
  obtain ⟨front, back, split⟩ := List.append_of_mem here
  cases front with
  | nil =>
    cases split
    have width := first.address.ty.widthBytes_le
    unfold Entry.endByte
    omega
  | cons f front =>
    cases split
    have joined := h.fits (first :: front) e back rfl (by simp)
    simp only [S7comm.fits, readDataBudget, List.head?_cons, Option.map_some, Option.getD_some,
      List.length_cons, decide_eq_true_eq, not_or, Nat.not_lt] at joined
    have small : front.length < 4 ∨ 4 ≤ front.length := by omega
    omega

theorem dataLen_le (h : IsChunk pdu maxItems entries key chunk) (large : 64 ≤ pdu.toNat) :
    (flushRead key chunk).dataLen + 20 ≤ pdu.toNat := by
  obtain ⟨e, here, last⟩ := exists_endByte_eq h.nonempty
  cases chunk with
  | nil => exact absurd rfl h.nonempty
  | cons first rest =>
    have le := h.endByte_le large here
    show dataEnd (first :: rest) - first.sortKey / 8 + 20 ≤ _
    rwa [← last]

end IsChunk

/-! ## Pointers -/

/-- The bytes that a pointer covers. -/
def AnyItem.widthBytes (item : AnyItem) : Nat :=
  if item.transportSize = 0x01 then 1
  else if item.transportSize = 0x03 then item.length.toNat
  else if item.transportSize = 0x04 then item.length.toNat * 2
  else if item.transportSize = 0x06 then item.length.toNat * 4
  else 0

/-- The size of the answer to a pointer: the header, the parameters, the head of the
item, and its bytes up to an even number. -/
def AnyItem.replySize (item : AnyItem) : Nat :=
  12 + 2 + 4 + item.widthBytes + item.widthBytes % 2

/-- A request asks for whole elements. -/
theorem widthBytes_anyItemOf (plan : ReadPlan) (first : PlannedItem) (wide : first.ty ≠ .bit)
    (small : plan.dataLen < 65536) :
    (plan.anyItemOf first).widthBytes =
      plan.dataLen / first.ty.widthBytes * first.ty.widthBytes := by
  have length : ∀ n, n ≤ plan.dataLen → (UInt16.ofNat n).toNat = n := by
    intro n le
    simp only [UInt16.toNat_ofNat']
    omega
  cases ty : first.ty with
  | bit => exact absurd ty wide
  | byte =>
    simp [ReadPlan.anyItemOf, AnyItem.widthBytes, S7Type.unit, S7Type.widthBytes, ty,
      Nat.mod_eq_of_lt small]
  | word =>
    have half := length (plan.dataLen / 2) (Nat.div_le_self _ _)
    simp [ReadPlan.anyItemOf, AnyItem.widthBytes, S7Type.unit, S7Type.widthBytes, ty] at half ⊢
    omega
  | dword =>
    have quarter := length (plan.dataLen / 4) (Nat.div_le_self _ _)
    simp [ReadPlan.anyItemOf, AnyItem.widthBytes, S7Type.unit, S7Type.widthBytes, ty] at quarter ⊢
    omega

/-- The pointer covers the bytes of an item of its plan. -/
def AnyItem.Covers (item : AnyItem) (plan : ReadPlan) (i : PlannedItem) : Prop :=
  item.byteOffset.toNat ≤ plan.startByte + i.offsetInData ∧
    plan.startByte + i.offsetInData + i.ty.widthBytes ≤ item.byteOffset.toNat + item.widthBytes

/-- The span of a chunk is a whole number of elements of its first item. -/
def wholeUnits : List Entry → Bool
  | [] => true
  | first :: rest =>
    (dataEnd (first :: rest) - first.sortKey / 8) % first.address.ty.widthBytes = 0

/-- The planned item of an entry, in a chunk that starts with the bit `firstKey`. -/
def Entry.planned (firstKey : Nat) (e : Entry) : PlannedItem :=
  ⟨e.itemId, e.expectedType, (e.sortKey - firstKey) / 8, e.address.ty, e.address.bit⟩

theorem flushRead_cons (key : GroupKey) (first : Entry) (rest : List Entry) :
    flushRead key (first :: rest) =
      { areaCode := key.areaCode, db := key.db, startByte := first.sortKey / 8
        dataLen := dataEnd (first :: rest) - first.sortKey / 8
        items := (first :: rest).map (Entry.planned first.sortKey) } := rfl

theorem Entry.sortKey_wide {e : Entry} (wide : e.address.ty ≠ .bit) :
    e.sortKey = e.address.byte * 8 := by
  rw [Entry.sortKey, S7Address.key, e.address.bit_eq wide, Nat.add_zero]

theorem Entry.startByte_lt (e : Entry) : e.sortKey / 8 < 2 ^ 32 := by
  have byte := e.address.byte_le
  have bit := e.address.bit_le
  unfold Entry.sortKey S7Address.key
  omega

/-- The pointer of a chunk covers its items just if the span is a whole number of
elements. -/
theorem IsChunk.covers_iff {first : Entry} {rest : List Entry}
    (h : IsChunk pdu maxItems entries key (first :: rest)) (large : 64 ≤ pdu.toNat)
    (wide : ∀ e ∈ entries, e.address.ty ≠ .bit) : let plan := flushRead key (first :: rest)
    (∀ i ∈ plan.items, (plan.anyItemOf (first.planned first.sortKey)).Covers plan i) ↔
      wholeUnits (first :: rest) = true := by
  intro plan
  have start_small := first.startByte_lt
  have len : plan.dataLen + 20 ≤ pdu.toNat := h.dataLen_le large
  have pdu_lt := pdu.toNat_lt
  have first_wide := wide first (h.entry first List.mem_cons_self).1
  have positive := first.address.ty.widthBytes_pos
  have asked : (plan.anyItemOf (first.planned first.sortKey)).widthBytes =
      plan.dataLen / first.address.ty.widthBytes * first.address.ty.widthBytes :=
    widthBytes_anyItemOf _ _ first_wide (by omega)
  have offset : (plan.anyItemOf (first.planned first.sortKey)).byteOffset.toNat =
      first.sortKey / 8 := by
    show (UInt32.ofNat (first.sortKey / 8)).toNat = _
    simp only [UInt32.toNat_ofNat']
    omega
  obtain ⟨last, last_here, last_end⟩ := exists_endByte_eq h.nonempty
  have each : ∀ e ∈ first :: rest,
      ((plan.anyItemOf (first.planned first.sortKey)).Covers plan (e.planned first.sortKey) ↔
        e.endByte ≤ first.sortKey / 8 + plan.dataLen / first.address.ty.widthBytes *
          first.address.ty.widthBytes) := by
    intro e here
    have le := h.first_le here
    have key_eq := e.sortKey_wide (wide e (h.entry e here).1)
    have first_eq := first.sortKey_wide first_wide
    have place : first.sortKey / 8 + (e.sortKey - first.sortKey) / 8 = e.sortKey / 8 := by omega
    unfold AnyItem.Covers
    rw [asked, offset]
    show _ ≤ first.sortKey / 8 + (e.sortKey - first.sortKey) / 8 ∧
      first.sortKey / 8 + (e.sortKey - first.sortKey) / 8 + e.address.ty.widthBytes ≤ _ ↔ _
    rw [place]
    unfold Entry.endByte
    exact ⟨fun covered => covered.2, fun covered => ⟨by omega, covered⟩⟩
  have le_last := h.first_le last_here
  have start_le : first.sortKey / 8 ≤ dataEnd (first :: rest) := by
    rw [← last_end]
    unfold Entry.endByte
    omega
  have div := Nat.div_add_mod plan.dataLen first.address.ty.widthBytes
  have plan_len : plan.dataLen = dataEnd (first :: rest) - first.sortKey / 8 := rfl
  rw [Nat.mul_comm] at div
  simp only [wholeUnits, decide_eq_true_eq, ← plan_len]
  constructor
  · intro covered
    have covers := (each last last_here).mp (covered _ (List.mem_map_of_mem last_here))
    omega
  · intro whole i inside
    obtain ⟨e, here, rfl⟩ := List.mem_map.mp inside
    have le := endByte_le_dataEnd here
    exact (each e here).mpr (by omega)

/-- The answer to the pointer of a chunk fits the PDU. -/
theorem IsChunk.replySize_le {first : Entry} {rest : List Entry}
    (h : IsChunk pdu maxItems entries key (first :: rest)) (large : 64 ≤ pdu.toNat)
    (wide : ∀ e ∈ entries, e.address.ty ≠ .bit) :
    ((flushRead key (first :: rest)).anyItemOf (first.planned first.sortKey)).replySize ≤
      pdu.toNat := by
  have len := h.dataLen_le large
  have pdu_lt := pdu.toNat_lt
  have asked := widthBytes_anyItemOf (flushRead key (first :: rest)) (first.planned first.sortKey)
    (wide first (h.entry first List.mem_cons_self).1)
    (by omega)
  have le := Nat.div_mul_le_self (flushRead key (first :: rest)).dataLen
    (first.planned first.sortKey).ty.widthBytes
  unfold AnyItem.replySize
  omega

/-! ## The theorem -/

/-- Where an item is read. -/
structure Place where
  areaCode : UInt8
  db : Nat
  byte : Nat
  ty : S7Type
  itemId : Nat
  expectedType : Option DataType

/-- The places of the items of a plan. -/
def ReadPlan.places (plan : ReadPlan) : List Place :=
  plan.items.map fun i =>
    ⟨plan.areaCode, plan.db, plan.startByte + i.offsetInData, i.ty, i.itemId, i.expectedType⟩

/-- The place of an item, from its address. -/
def place (item : DriverReadItem) : Option Place :=
  (parse item.address).toOption.map fun a =>
    ⟨a.area.code, a.db, a.byte, a.ty, item.id, item.expectedType⟩

/-- The place of an entry. -/
def Entry.place (e : Entry) : Place :=
  ⟨e.address.area.code, e.address.db, e.address.byte, e.address.ty, e.itemId, e.expectedType⟩

theorem parseItem_eq_ok {item : DriverReadItem} {e : Entry} (parsed : parseItem item = .ok e) :
    ∃ a, parse item.address = .ok a ∧ e = ⟨item.id, item.expectedType, a⟩ := by
  unfold parseItem at parsed
  split at parsed
  next a address =>
    cases parsed
    exact ⟨a, address, rfl⟩
  all_goals cases parsed

theorem map_place {items : List DriverReadItem}
    (parsed : List.Forall₂ (fun item e => parseItem item = .ok e) items entries) :
    items.map place = (entries.map Entry.place).map some := by
  refine map_of_forall₂ parsed fun item e parsed => ?_
  obtain ⟨a, address, rfl⟩ := parseItem_eq_ok parsed
  simp only [place, address, Except.toOption, Option.map_some, Entry.place]

theorem IsChunk.places_eq (h : IsChunk pdu maxItems entries key chunk)
    (wide : ∀ e ∈ entries, e.address.ty ≠ .bit) :
    (flushRead key chunk).places = chunk.map Entry.place := by
  cases chunk with
  | nil => exact absurd rfl h.nonempty
  | cons first rest =>
    rw [flushRead_cons, ReadPlan.places, List.map_map]
    refine List.map_congr_left fun e here => ?_
    obtain ⟨inside, key_eq⟩ := h.entry e here
    have le := h.first_le here
    have place := e.sortKey_wide (wide e inside)
    have first_place := first.sortKey_wide (wide first (h.entry first List.mem_cons_self).1)
    have sum : first.sortKey / 8 + (e.sortKey - first.sortKey) / 8 = e.address.byte := by omega
    simp only [Function.comp, Entry.planned, Entry.place, sum, ← key_eq, Entry.key]

/-- The chunks of a batch; none if an item has no address. -/
def chunks (pdu : UInt16) (maxItems : Nat) (items : List DriverReadItem) :
    List (GroupKey × List Entry) :=
  match items.mapM parseItem with
  | .ok entries => chunksOf pdu maxItems entries
  | .error _ => []

/-- The plans of items that parse are those of their chunks. -/
theorem planReadBatch_eq {items : List DriverReadItem} (pdu : UInt16) (maxItems : Nat)
    (parsed : List.Forall₂ (fun item e => parseItem item = .ok e) items entries) :
    planReadBatch items pdu maxItems =
      .ok ((chunksOf pdu maxItems entries).map fun c => flushRead c.1 c.2) := by
  rw [planReadBatch, mapM_of_forall₂ parsed]
  rfl

/-- A batch of bytes, words and double words has plans, which hold every item once, at its own
address, and keep to the limits; and their pointers cover all of their items just if
the span of every chunk is a whole number of elements of its first item. -/
theorem planReadBatch_covers_iff (items : List DriverReadItem) (pdu : UInt16) (maxItems : Nat)
    (wide : ∀ item ∈ items, ∃ a, parse item.address = .ok a ∧ a.ty ≠ .bit)
    (large : 64 ≤ pdu.toNat) (some_allowed : 1 ≤ maxItems) :
    ∃ plans, planReadBatch items pdu maxItems = .ok plans ∧
      ((((plans.flatMap ReadPlan.places).map some).Perm (items.map place) ∧
        ∀ plan ∈ plans, plan.items.length ≤ maxItems ∧
          ∃ item, plan.anyItem = .ok item ∧ item.replySize ≤ pdu.toNat ∧
            ∀ i ∈ plan.items, item.Covers plan i) ↔
      ∀ c ∈ chunks pdu maxItems items, wholeUnits c.2 = true) := by
  obtain ⟨entries, parsed⟩ : ∃ entries,
      List.Forall₂ (fun item e => parseItem item = .ok e) items entries := by
    refine exists_forall₂ fun item inside => ?_
    obtain ⟨a, address, _⟩ := wide item inside
    exact ⟨⟨item.id, item.expectedType, a⟩, by rw [parseItem, address]⟩
  refine ⟨_, planReadBatch_eq pdu maxItems parsed, ?_⟩
  have entries_wide : ∀ e ∈ entries, e.address.ty ≠ .bit := by
    intro e here
    obtain ⟨item, inside, eq⟩ := exists_left_of_forall₂ parsed here
    obtain ⟨a, address, rfl⟩ := parseItem_eq_ok eq
    obtain ⟨a', address', other⟩ := wide item inside
    rw [address] at address'
    cases address'
    exact other
  rw [chunks, mapM_of_forall₂ parsed]
  constructor
  · rintro ⟨_, each⟩ ⟨key, chunk⟩ here
    have h := isChunk here
    obtain ⟨_, item, pointer, _, covers⟩ :=
      each _ (List.mem_map_of_mem (f := fun c => flushRead c.1 c.2) here)
    cases chunk with
    | nil => rfl
    | cons first rest =>
      cases pointer
      exact (h.covers_iff large entries_wide).mp covers
  · intro whole
    refine ⟨?_, ?_⟩
    · rw [map_place parsed, List.flatMap_map]
      exact (flatMap_perm_map (chunksOf_perm _ _ entries) fun c here =>
        (isChunk here).places_eq entries_wide).map _
    · intro _ planned
      obtain ⟨⟨key, chunk⟩, here, rfl⟩ := List.mem_map.mp planned
      have h := isChunk here
      refine ⟨by simpa [flushRead] using h.length_le some_allowed, ?_⟩
      cases chunk with
      | nil => exact absurd rfl h.nonempty
      | cons first rest =>
        exact ⟨_, rfl, h.replySize_le large entries_wide,
          (h.covers_iff large entries_wide).mpr (whole _ here)⟩

/-- Two double words, four bytes apart: one pointer covers both. -/
theorem planReadBatch_covers_dwords :
    ∃ plans, planReadBatch [⟨1, "db1.dbd0", none⟩, ⟨2, "db1.dbd8", none⟩] 240 20 = .ok plans ∧
      ∀ plan ∈ plans, plan.items.length ≤ 20 ∧
        ∃ item, plan.anyItem = .ok item ∧ item.replySize ≤ 240 ∧
          ∀ i ∈ plan.items, item.Covers plan i :=
  (planReadBatch_covers_iff [⟨1, "db1.dbd0", none⟩, ⟨2, "db1.dbd8", none⟩] 240 20
    (by simp; exact ⟨⟨_, rfl, by decide⟩, _, rfl, by decide⟩) (by decide) (by decide)).imp
      fun _ planned => ⟨planned.1, (planned.2.mpr (by decide)).2⟩

/-- A word, and the byte after it: the pointer asks for one word. -/
theorem planReadBatch_misses_byte :
    ∃ plan first second item,
      planReadBatch [⟨1, "mw0", none⟩, ⟨2, "mb2", none⟩] 240 20 = .ok [plan] ∧
        plan.items = [first, second] ∧ plan.anyItem = .ok item ∧
        item.byteOffset = 0 ∧ item.widthBytes = 2 ∧
        plan.startByte + second.offsetInData = 2 :=
  ⟨_, _, _, _, rfl, rfl, rfl, rfl, rfl, rfl⟩

end ForgeLink.Drivers.S7comm
