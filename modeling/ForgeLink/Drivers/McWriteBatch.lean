import ForgeLink.Drivers.McWrite
import ForgeLink.Lib.Stores

/-!
# The MC driver: what the plans of a batch write

A plan puts the bits of its data, eight to a byte, or its words into the points
from its start number on.  The plans of a batch do what its items ask for, one
device after the other and for one device in the stable order of the numbers
(`planWriteBatch_performs`).
-/

namespace ForgeLink.Drivers.MitsubishiMc

open Lib

variable {e : WriteEntry} {chunk : List WriteEntry} {item : WriteRequest}

/-! ## Plans and entries -/

/-- The bits of packed data. -/
def unpack (points : Nat) (data : Bytes) : List Bool :=
  (List.range points).map fun i => bitOf (data.getD (i / 8) 0) (i % 8)

/-- The words of data. -/
def wordsOf (points : Nat) (data : Bytes) : List UInt16 :=
  (List.range points).map fun i => UInt16.ofNat (ofLeBytes ((data.drop (2 * i)).take 2))

namespace WriteEntry

/-- The bit that an item of a bit device sends. -/
def value (e : WriteEntry) : Bool := bitOf (e.data.getD 0 0) 0

/-- The words that an item of a word device sends. -/
def words (e : WriteEntry) : List UInt16 := wordsOf e.width e.data

/-- The points of an entry. -/
def Covers (e : WriteEntry) (kind : DeviceKind) (n : Nat) : Prop :=
  kind = e.kind ∧ e.start ≤ n ∧ n < e.start + e.width

/-- What the planner knows of an entry. -/
structure Sound (e : WriteEntry) : Prop where
  start_lt : e.start < 2 ^ 24
  few : 1 ≤ e.width ∧ e.width ≤ 4
  bit : e.kind.isBit = true → e.width = 1
  word : e.kind.isBit = false → e.data.length = 2 * e.width
  writable : e.kind ≠ .x ∧ e.kind ≠ .sm ∧ e.kind ≠ .sd

end WriteEntry

/-- The contents after bits are put into a device. -/
def Memory.setBits (memory : Memory) (kind : DeviceKind) (start : Nat) (bits : List Bool) :
    Memory :=
  { memory with bit := Function.update memory.bit kind (storeAt start bits (memory.bit kind)) }

/-- The contents after words are put into a device. -/
def Memory.setWords (memory : Memory) (kind : DeviceKind) (start : Nat) (words : List UInt16) :
    Memory :=
  { memory with word := Function.update memory.word kind (storeAt start words (memory.word kind)) }

/-- The contents after one item is written. -/
def Memory.store (memory : Memory) (e : WriteEntry) : Memory :=
  if e.kind.isBit then memory.setBits e.kind e.start [e.value]
  else memory.setWords e.kind e.start e.words

theorem setBits_append (memory : Memory) (kind : DeviceKind) (start : Nat) (us vs : List Bool) :
    memory.setBits kind start (us ++ vs) =
      (memory.setBits kind start us).setBits kind (start + us.length) vs := by
  simp [Memory.setBits, storeAt_append]

theorem setWords_append (memory : Memory) (kind : DeviceKind) (start : Nat) (us vs : List UInt16) :
    memory.setWords kind start (us ++ vs) =
      (memory.setWords kind start us).setWords kind (start + us.length) vs := by
  simp [Memory.setWords, storeAt_append]

/-- A plan sets the bits or the words of its data. -/
theorem perform_eq (memory : Memory) (plan : WritePlan) :
    memory.perform plan =
      if plan.kind.isBit then
        memory.setBits plan.kind plan.startNumber.toNat (unpack plan.points.toNat plan.data)
      else memory.setWords plan.kind plan.startNumber.toNat
        (wordsOf plan.points.toNat plan.data) := by
  cases isBit : plan.kind.isBit with
  | true =>
    simp only [if_true, Memory.perform, Memory.setBits, Memory.mk.injEq]
    constructor
    · funext kind n
      by_cases own : kind = plan.kind
      · subst own
        simp [WritePlan.Writes, isBit, unpack, storeAt_range]
      · simp [WritePlan.Writes, own]
    · funext kind n
      by_cases own : kind = plan.kind
      · simp [own, isBit]
      · simp [WritePlan.Writes, own]
  | false =>
    simp only [Bool.false_eq_true, if_false, Memory.perform, Memory.setWords, Memory.mk.injEq]
    constructor
    · funext kind n
      by_cases own : kind = plan.kind
      · simp [own, isBit]
      · simp [WritePlan.Writes, own]
    · funext kind n
      by_cases own : kind = plan.kind
      · subst own
        simp [WritePlan.Writes, isBit, wordsOf, storeAt_range]
      · simp [WritePlan.Writes, own]

/-! ## Chunks -/

/-- What a chunk of the planner is. -/
structure IsWriteChunk (kind : DeviceKind) (chunk : List WriteEntry) : Prop where
  own : ∀ e ∈ chunk, e.kind = kind ∧ e.Sound
  row : ∃ e rest, chunk = e :: rest ∧ InRow WriteEntry.start WriteEntry.width e.start chunk
  small : (chunk.map WriteEntry.width).sum < 65536

section

variable {kind : DeviceKind}

/-- The words of a chunk are those of its entries. -/
theorem IsWriteChunk.words_eq (own : ∀ e ∈ chunk, e.kind = kind ∧ e.Sound)
    (word : kind.isBit = false) :
    wordsOf (chunk.map WriteEntry.width).sum (chunk.flatMap WriteEntry.data) =
      chunk.flatMap WriteEntry.words := by
  induction chunk with
  | nil => rfl
  | cons e chunk ih =>
    obtain ⟨⟨rfl, sound⟩, rest⟩ := List.forall_mem_cons.mp own
    rw [List.map_cons, List.sum_cons, List.flatMap_cons, List.flatMap_cons,
      ← ih rest]
    exact pairs_append (fun pair => UInt16.ofNat (ofLeBytes pair)) (sound.word word) _ _

/-- The bits of a chunk are the values of its entries. -/
theorem IsWriteChunk.bits_eq (own : ∀ e ∈ chunk, e.kind = kind ∧ e.Sound)
    (isBit : kind.isBit = true) :
    (chunk.map WriteEntry.width).sum = chunk.length ∧
      unpack chunk.length (packBits (chunk.flatMap WriteEntry.bits)) =
        chunk.map WriteEntry.value := by
  have one : ∀ e ∈ chunk, e.width = 1 := fun e inside =>
    (own e inside).2.bit ((own e inside).1 ▸ isBit)
  have values : chunk.flatMap WriteEntry.bits = chunk.map WriteEntry.value := by
    rw [List.map_eq_flatMap]
    refine List.flatMap_congr fun e inside => ?_
    rw [WriteEntry.bits, one e inside]
    rfl
  constructor
  · rw [List.map_congr_left one, List.map_const', List.sum_replicate_nat, Nat.mul_one]
  · rw [values]
    refine List.ext_getElem (by simp [unpack]) fun i here here' => ?_
    obtain ⟨byte, found, bit⟩ := bit_packBits here'
    rw [← bit]
    simp [unpack, found]

theorem startNumber_flushWrite (h : IsWriteChunk kind chunk) {rest : List WriteEntry}
    (eq : chunk = e :: rest) : (flushWrite kind chunk).startNumber.toNat = e.start := by
  have lt := (h.own e (eq ▸ List.mem_cons_self)).2.start_lt
  subst eq
  show (UInt32.ofNat e.start).toNat = e.start
  rw [UInt32.toNat_ofNat']
  omega

theorem points_flushWrite (h : IsWriteChunk kind chunk) :
    (flushWrite kind chunk).points.toNat = (chunk.map WriteEntry.width).sum := by
  show (UInt16.ofNat (chunk.map WriteEntry.width).sum).toNat = _
  rw [UInt16.toNat_ofNat']
  exact Nat.mod_eq_of_lt h.small

/-- The data of a plan: the values of its entries, packed or one behind the other. -/
theorem data_flushWrite (h : IsWriteChunk kind chunk) :
    if kind.isBit then
      unpack (flushWrite kind chunk).points.toNat (flushWrite kind chunk).data =
        chunk.map WriteEntry.value
    else (flushWrite kind chunk).data = chunk.flatMap WriteEntry.data := by
  rw [points_flushWrite h]
  cases isBit : kind.isBit with
  | true =>
    obtain ⟨count, bits⟩ := IsWriteChunk.bits_eq h.own isBit
    rw [if_pos rfl, count, flushWrite, if_pos isBit, bits]
  | false => simp [flushWrite, isBit]

/-- A plan covers the points of its entries and no others. -/
theorem writes_flushWrite (h : IsWriteChunk kind chunk) (k : DeviceKind) (n : Nat) :
    (flushWrite kind chunk).Writes k n ↔ ∃ e ∈ chunk, e.Covers k n := by
  obtain ⟨e, rest, eq, row⟩ := h.row
  unfold WritePlan.Writes
  rw [startNumber_flushWrite h eq, points_flushWrite h, row.covers_iff n]
  constructor
  · rintro ⟨rfl, e', inside, within⟩
    exact ⟨e', inside, (h.own e' inside).1.symm, within⟩
  · rintro ⟨e', inside, rfl, within⟩
    exact ⟨(h.own e' inside).1, e', inside, within⟩

theorem foldl_store_bits (own : ∀ e ∈ chunk, e.kind = kind ∧ e.Sound) (isBit : kind.isBit = true)
    {start : Nat} (row : InRow WriteEntry.start WriteEntry.width start chunk) (memory : Memory) :
    chunk.foldl Memory.store memory =
      memory.setBits kind start (chunk.map WriteEntry.value) := by
  induction chunk generalizing start memory with
  | nil => simp [Memory.setBits, storeAt_nil]
  | cons e chunk ih =>
    obtain ⟨⟨rfl, sound⟩, own⟩ := List.forall_mem_cons.mp own
    obtain ⟨rfl, rest⟩ := row
    rw [sound.bit isBit] at rest
    rw [List.foldl_cons, ih own rest, Memory.store, if_pos isBit, List.map_cons]
    exact (setBits_append memory e.kind e.start [e.value] _).symm

theorem foldl_store_words (own : ∀ e ∈ chunk, e.kind = kind ∧ e.Sound) (word : kind.isBit = false)
    {start : Nat} (row : InRow WriteEntry.start WriteEntry.width start chunk) (memory : Memory) :
    chunk.foldl Memory.store memory =
      memory.setWords kind start (chunk.flatMap WriteEntry.words) := by
  induction chunk generalizing start memory with
  | nil => simp [Memory.setWords, storeAt_nil]
  | cons e chunk ih =>
    obtain ⟨⟨rfl, sound⟩, own⟩ := List.forall_mem_cons.mp own
    obtain ⟨rfl, rest⟩ := row
    have length : e.words.length = e.width := by simp [WriteEntry.words, wordsOf]
    rw [List.foldl_cons, ih own rest, Memory.store, word, List.flatMap_cons, setWords_append,
      length]
    rfl

/-- A plan does what its entries ask for, one by one. -/
theorem perform_flushWrite (h : IsWriteChunk kind chunk) (memory : Memory) :
    memory.perform (flushWrite kind chunk) = chunk.foldl Memory.store memory := by
  obtain ⟨e, rest, eq, row⟩ := h.row
  have data := data_flushWrite h
  have device : (flushWrite kind chunk).kind = kind := rfl
  rw [perform_eq, startNumber_flushWrite h eq, device]
  cases isBit : kind.isBit with
  | true =>
    rw [isBit, if_pos rfl] at data
    rw [if_pos rfl, data, foldl_store_bits h.own isBit row]
  | false =>
    rw [isBit, if_neg (by decide)] at data
    rw [if_neg (by decide), points_flushWrite h, data, IsWriteChunk.words_eq h.own isBit,
      foldl_store_words h.own isBit row]

end

/-! ## Batches -/

theorem flatten_cutWrite (maxWordPoints maxBitPoints : UInt16) (kind : DeviceKind)
    (group : List WriteEntry) :
    ((runs adjoins group).flatMap
      (runs (fitsWrite (unitLimit maxWordPoints maxBitPoints kind)))).flatten = group := by
  simp

/-- The points of a chunk fit 16 bits: one entry has four at most, and several keep to a limit. -/
theorem sum_width_lt {limit : UInt16} (sound : ∀ x ∈ e :: chunk, x.Sound)
    (row : InRow WriteEntry.start WriteEntry.width e.start (e :: chunk))
    (chained : Chained (fitsWrite limit.toNat) (e :: chunk)) :
    ((e :: chunk).map WriteEntry.width).sum < 65536 := by
  rcases List.eq_nil_or_concat chunk with rfl | ⟨front, last, rfl⟩
  · have few := (sound e List.mem_cons_self).few.2
    simp
    omega
  · rw [List.concat_eq_append, ← List.cons_append] at row chained ⊢
    have fitting := chained (e :: front) last [] (by simp) (by simp)
    have close := row.last_end
    have lt := limit.toNat_lt
    have span : last.start + last.width - e.start ≤ limit.toNat :=
      Nat.le_of_not_lt fun above => of_decide_eq_true fitting (.inl above)
    omega

/-- What the planner cuts off follows on. -/
theorem isWriteChunk {maxWordPoints maxBitPoints : UInt16} {entries : List WriteEntry}
    (sound : ∀ e ∈ entries, e.Sound) {kind : DeviceKind}
    (inside : (kind, chunk) ∈ writeChunksOf maxWordPoints maxBitPoints entries) :
    (∀ e ∈ chunk, e ∈ entries) ∧ IsWriteChunk kind chunk := by
  have entry : ∀ e ∈ chunk, e ∈ entries ∧ e.kind = kind := fun e here =>
    key_of_mem_batches (flatten_cutWrite maxWordPoints maxBitPoints) inside here
  have own : ∀ e ∈ chunk, e.Sound := fun e here => sound e (entry e here).1
  obtain ⟨group, _, cut⟩ := mem_batches.mp inside
  obtain ⟨run, run_inside, chunk_inside⟩ := List.mem_flatMap.mp cut
  have chain : List.IsChain (fun x y : WriteEntry => x.start + x.width = y.start) chunk :=
    isChain_of_mem_pieces run_inside chunk_inside fun front x y joined => by
      simpa [adjoins] using joined
  have chained := chained_of_mem_runs chunk_inside
  cases chunk with
  | nil => exact absurd rfl (ne_nil_of_mem_runs chunk_inside)
  | cons e chunk =>
    have row := inRow_of_isChain chain
    refine ⟨fun e here => (entry e here).1, fun e here => ⟨(entry e here).2, own e here⟩,
      ⟨e, chunk, rfl, row⟩, ?_⟩
    unfold unitLimit at chained
    split at chained
    · exact sum_width_lt own row chained
    · exact sum_width_lt own row chained

/-! ## The whole batch -/

/-- What an item asks for, if its device can be written and its value can be encoded. -/
def writeEntry (item : WriteRequest) : Option WriteEntry :=
  match parse item.address with
  | .error _ => none
  | .ok address =>
    if address.kind ∈ [DeviceKind.x, .sm] then none
    else
      match encodeWrite address.kind item.value with
      | .error _ => none
      | .ok encoded =>
        some ⟨address.kind, address.number, encoded.points, item.id, encoded.data⟩

/-- An entry is about the points from the address of its item on, and holds its value. -/
structure WriteEntry.Asks (e : WriteEntry) (item : WriteRequest) : Prop where
  id : e.id = item.id
  address : ∃ a, parse item.address = .ok a ∧ e.kind = a.kind ∧ e.start = a.number
  sound : e.Sound
  value : if e.kind.isBit then item.value = .bool e.value
    else Stands (16 * e.width) (ofLeBytes e.data) item.value

/-- No value is encoded for a special register. -/
theorem encodeWrite_sd (value : RawValue) (encoded : EncodedWrite) :
    encodeWrite .sd value ≠ .ok encoded := by
  cases value <;> exact nofun

theorem stands_narrowSignedI (v : Int64) :
    Stands (16 * (narrowSignedI v).points) (ofLeBytes (narrowSignedI v).data) (.i64 v) := by
  have fits := fun w width low high => toSigned_of_range (x := v) (w := w) width low high
  unfold narrowSignedI
  dsimp only
  split
  next range =>
    rw [take_leBytes (by decide), ofLeBytes_leBytes]
    exact fits 16 (by decide) (by omega) (by omega)
  next =>
    split
    next range =>
      rw [take_leBytes (by decide), ofLeBytes_leBytes]
      exact fits 32 (by decide) (by omega) (by omega)
    next =>
      rw [ofLeBytes_leBytes]
      exact fits 64 (by decide) v.le_toInt v.toInt_lt

theorem stands_narrowUnsignedU (v : UInt64) :
    Stands (16 * (narrowUnsignedU v).points) (ofLeBytes (narrowUnsignedU v).data) (.u64 v) := by
  unfold narrowUnsignedU
  dsimp only
  split
  next small =>
    rw [take_leBytes (by decide), ofLeBytes_leBytes]
    exact Nat.mod_eq_of_lt (by omega)
  next =>
    split
    next small =>
      rw [take_leBytes (by decide), ofLeBytes_leBytes]
      exact Nat.mod_eq_of_lt (by omega)
    next => exact ofLeBytes_word v

theorem stands_narrowFloat (v : UInt64) :
    Stands (16 * (narrowFloat v).points) (ofLeBytes (narrowFloat v).data) (.f64 v) := by
  unfold narrowFloat
  dsimp only
  split
  next kept =>
    have small : (f64ToF32 v).toNat < 256 ^ 4 := (f64ToF32 v).toNat_lt
    rw [ofLeBytes_leBytes, Nat.mod_eq_of_lt small]
    exact stands_single fun lost => lost.2 kept.2
  next => exact ofLeBytes_word v

/-- What is encoded is the value. -/
theorem encodeWrite_stands {kind : DeviceKind} {value : RawValue} {encoded : EncodedWrite}
    (ok : encodeWrite kind value = .ok encoded) :
    if kind.isBit then value = .bool (bitOf (encoded.data.getD 0 0) 0)
    else Stands (16 * encoded.points) (ofLeBytes encoded.data) value := by
  unfold encodeWrite at ok
  split at ok
  next isBit =>
    rw [if_pos isBit]
    cases value with
    | bool b =>
      cases ok
      cases b <;> rfl
    | i64 _ | u64 _ | f64 _ | string _ | bytes _ | array _ | struct _ => cases ok
  next word =>
    rw [if_neg word]
    split at ok
    next v _ =>
      cases ok
      exact stands_narrowSignedI v
    next v _ =>
      cases ok
      exact stands_narrowUnsignedU v
    next v _ =>
      cases ok
      exact stands_narrowFloat v
    next => cases ok

theorem writeEntry_asks (asked : writeEntry item = some e) : e.Asks item := by
  unfold writeEntry at asked
  split at asked
  · cases asked
  next a parsed =>
    obtain ⟨writable, asked⟩ := Option.ite_none_left_eq_some.mp asked
    split at asked
    · cases asked
    next encoded ok =>
      cases asked
      obtain ⟨few, bit, word⟩ := encodeWrite_shape ok
      refine ⟨rfl, ⟨a, parsed, rfl, rfl⟩,
        ⟨Nat.lt_succ_of_le a.number_le, few, bit, word, ?_⟩, encodeWrite_stands ok⟩
      cases kind : a.kind <;> simp [kind, encodeWrite_sd] at writable ok ⊢

/-- The loop of the planner admits what is asked for. -/
theorem admits_admitItem {r : WriteEntry ⊕ (Nat × DriverErrorInfo)} (ok : admitItem item = .ok r) :
    Admits Prod.fst item.id (writeEntry item) r := by
  unfold admitItem at ok
  split at ok
  · cases ok
  next a parsed =>
    rw [writeEntry, parsed]
    dsimp only
    by_cases readOnly : a.kind ∈ [DeviceKind.x, .sm]
    · rw [if_pos (by simp [DeviceKind.writable, readOnly])] at ok
      cases ok
      rw [if_pos readOnly]
      exact .refused rfl
    · rw [if_neg (by simp [DeviceKind.writable, readOnly])] at ok
      rw [if_neg readOnly]
      cases value : encodeWrite a.kind item.value with
      | ok encoded =>
        rw [value] at ok
        cases ok
        exact .entry
      | error e =>
        rw [value] at ok
        cases ok
        exact .refused rfl

theorem admitItem_of_parse {a : DeviceAddress} (parsed : parse item.address = .ok a) :
    ∃ r, admitItem item = .ok r := by
  simp only [admitItem, parsed]
  split
  · exact ⟨_, rfl⟩
  · split
    · exact ⟨_, rfl⟩
    · exact ⟨_, rfl⟩

/-- Entries of a bit device have the values of their items. -/
theorem values_of_forall₂ {asked : List WriteRequest}
    (each : List.Forall₂ (fun item e => writeEntry item = some e) asked chunk)
    (bits : ∀ e ∈ chunk, e.kind.isBit = true) :
    asked.map WriteRequest.value = (chunk.map WriteEntry.value).map .bool := by
  induction each with
  | nil => rfl
  | @cons item e asked chunk first _ ih =>
    obtain ⟨bit, rest⟩ := List.forall_mem_cons.mp bits
    have value := (writeEntry_asks first).value
    rw [if_pos bit] at value
    rw [List.map_cons, List.map_cons, List.map_cons, value, ih rest]

/-- Every item of a batch with addresses is in one plan or in the list of errors, and it is an
error just if nothing can be written for it.  A plan covers the points of its items and no
others.  The bits of a plan for a bit device are the values of its items, and the data of
a plan for words their encodings.  The PLC that takes the plans has what it would have if
the items were written one by one, one device after the other and for one device in the
stable order of the numbers. -/
theorem planWriteBatch_performs (items : List WriteRequest) (maxWordPoints maxBitPoints : UInt16)
    (parses : ∀ item ∈ items, ∃ a, parse item.address = .ok a) :
    let entries := items.filterMap writeEntry
    ∃ plans failed, planWriteBatch items maxWordPoints maxBitPoints = .ok (plans, failed) ∧
      (plans.flatMap WritePlan.itemIds ++ failed.map Prod.fst).Perm (items.map WriteRequest.id) ∧
      failed.map Prod.fst =
        (items.filter fun item => (writeEntry item).isNone).map WriteRequest.id ∧
      (∀ item e, writeEntry item = some e → e.Asks item) ∧
      (∀ plan ∈ plans, ∃ asked chunk, (∀ item ∈ asked, item ∈ items) ∧
        List.Forall₂ (fun item e => writeEntry item = some e) asked chunk ∧
        plan.itemIds = asked.map WriteRequest.id ∧
        (∀ kind n, plan.Writes kind n ↔ ∃ e ∈ chunk, e.Covers kind n) ∧
        if plan.kind.isBit then
          asked.map WriteRequest.value = (unpack plan.points.toNat plan.data).map .bool
        else plan.data = chunk.flatMap WriteEntry.data) ∧
      ∀ memory : Memory, memory.performAll plans =
        ((groups (fun k l : DeviceKind => k.rank ≤ l.rank) WriteEntry.kind entries).flatMap fun g =>
          sortByKey WriteEntry.start g.2).foldl Memory.store memory := by
  obtain ⟨admitted, each⟩ := exists_forall₂ fun item inside =>
    have ⟨_, parsed⟩ := parses item inside
    admitItem_of_parse parsed
  intro entries
  obtain ⟨left, right⟩ := filterMap_of_admits (each.imp fun _ _ => admits_admitItem)
  have asks : ∀ item e, writeEntry item = some e → e.Asks item := fun _ _ => writeEntry_asks
  have sound : ∀ e ∈ entries, e.Sound := by
    intro e inside
    obtain ⟨item, _, asked⟩ := List.mem_filterMap.mp inside
    exact (asks item e asked).sound
  have perm : ((writeChunksOf maxWordPoints maxBitPoints entries).flatMap Prod.snd).Perm entries :=
    batches_perm (flatten_cutWrite maxWordPoints maxBitPoints) entries
  have chunk := fun c (inside : c ∈ writeChunksOf maxWordPoints maxBitPoints entries) =>
    isWriteChunk sound inside
  refine ⟨(writeChunksOf maxWordPoints maxBitPoints entries).map fun c => flushWrite c.1 c.2,
    admitted.filterMap Sum.getRight?, ?_, ?_, right, asks, ?_, ?_⟩
  · simp only [planWriteBatch, mapM_of_forall₂ each, bind, Except.bind, left]
    rfl
  · rw [right]
    refine List.Perm.trans (.append_right _ ?_)
      (perm_entries (fun item e asked => (asks item e asked).id) items)
    rw [List.flatMap_map]
    exact flatMap_perm_map perm fun _ _ => rfl
  · intro plan inside
    obtain ⟨c, here, rfl⟩ := List.mem_map.mp inside
    have own := (chunk c here).2
    obtain ⟨asked, within, each⟩ := exists_asked (chunk c here).1
    refine ⟨asked, c.2, within, each,
      ids_of_forall₂ (fun item e asked => (asks item e asked).id) each, writes_flushWrite own, ?_⟩
    have data := data_flushWrite own
    show if c.1.isBit then _ else _
    split
    next isBit =>
      rw [if_pos isBit] at data
      rw [data]
      exact values_of_forall₂ each fun e inside => (own.own e inside).1 ▸ isBit
    next word => rwa [if_neg word] at data
  · intro memory
    rw [← flatMap_batches (flatten_cutWrite maxWordPoints maxBitPoints)]
    exact foldl_packets (fun c here m => perform_flushWrite (chunk c here).2 m) memory

/-- Three bits in a row, two words of which the second overlaps the first, and an input. -/
def sampleWrites : List WriteRequest :=
  [⟨1, "M11", .bool true⟩, ⟨2, "M10", .bool false⟩, ⟨3, "M12", .bool true⟩, ⟨4, "D101", .i64 (-1)⟩,
    ⟨5, "D100", .u64 70000⟩, ⟨6, "X1", .bool true⟩]

/-- Three bits in one plan, and two words that overlap. -/
theorem planWriteBatch_performs_sample :
    ∃ plans failed, planWriteBatch sampleWrites 960 720 = .ok (plans, failed) ∧
      (plans.map fun plan => (plan.kind, plan.startNumber, plan.data, plan.itemIds)) =
        [(.m, 10, [6], [2, 1, 3]), (.d, 100, [0x70, 0x11, 1, 0], [5]),
          (.d, 101, [0xFF, 0xFF], [4])] ∧
      failed.map Prod.fst = [6] ∧
      (plans.flatMap WritePlan.itemIds ++ failed.map Prod.fst).Perm [1, 2, 3, 4, 5, 6] ∧
      ∀ memory : Memory, memory.performAll plans =
        ((groups (fun k l : DeviceKind => k.rank ≤ l.rank) WriteEntry.kind
          (sampleWrites.filterMap writeEntry)).flatMap fun g =>
            sortByKey WriteEntry.start g.2).foldl Memory.store memory := by
  have parses : ∀ item ∈ sampleWrites, ∃ a, parse item.address = .ok a := by
    simp only [sampleWrites, List.mem_cons, List.not_mem_nil, or_false, forall_eq_or_imp,
      forall_eq]
    exact ⟨⟨_, rfl⟩, ⟨_, rfl⟩, ⟨_, rfl⟩, ⟨_, rfl⟩, ⟨_, rfl⟩, ⟨_, rfl⟩⟩
  obtain ⟨plans, failed, planned, ids, _, _, _, memory⟩ :=
    planWriteBatch_performs sampleWrites 960 720 parses
  refine ⟨plans, failed, planned, ?_, ?_, ids, memory⟩
  all_goals
    cases planned
    rfl

end ForgeLink.Drivers.MitsubishiMc
