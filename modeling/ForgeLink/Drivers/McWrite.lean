import ForgeLink.Drivers.Carrier
import ForgeLink.Drivers.McDevice

/-!
# The MC driver: planning batch writes

`encode.rs` and the write half of `batch.rs`.  A number is encoded in the least
width that loses nothing.  Encoded items are grouped by device and sorted by
number; items that follow each other exactly share a request, up to the limit of
the device.

A PLC that takes a request puts its values into the points from the start number
on, and changes nothing else (`Memory.perform`).
-/

namespace ForgeLink.Drivers.MitsubishiMc

open Lib

/-! ## Encoding -/

/-- The points that a value takes, and their bytes. -/
structure EncodedWrite where
  points : Nat
  data : Bytes

/-- `DeviceKind` as `{:?}` writes it. -/
def DeviceKind.debug : DeviceKind → String
  | .x => "X"
  | .y => "Y"
  | .m => "M"
  | .b => "B"
  | .s => "S"
  | .sm => "Sm"
  | .d => "D"
  | .w => "W"
  | .r => "R"
  | .zr => "Zr"
  | .sd => "Sd"

/-- The devices that are said to be writable. -/
def DeviceKind.writable (kind : DeviceKind) : Bool := kind ∉ [.x, .sm]

/-- A value for a bit. -/
def encodeBit : RawValue → Except DriverErrorInfo EncodedWrite
  | .bool b => .ok ⟨1, [if b then 1 else 0]⟩
  | other => .error (.invalidType ("位软元件不接受值类型 " ++ typeName other ++ "（仅 Bool）"))

/-- A signed number in one, two or four words. -/
def narrowSignedI (v : Int64) : EncodedWrite :=
  let bytes := leBytes 8 v.toUInt64.toNat
  if -32768 ≤ v.toInt ∧ v.toInt ≤ 32767 then ⟨1, bytes.take 2⟩
  else if -2147483648 ≤ v.toInt ∧ v.toInt ≤ 2147483647 then ⟨2, bytes.take 4⟩
  else ⟨4, bytes⟩

/-- An unsigned number in one, two or four words. -/
def narrowUnsignedU (v : UInt64) : EncodedWrite :=
  let bytes := leBytes 8 v.toNat
  if v.toNat ≤ 65535 then ⟨1, bytes.take 2⟩
  else if v.toNat ≤ 4294967295 then ⟨2, bytes.take 4⟩
  else ⟨4, bytes⟩

/-- A float in two words if nothing is lost, else in four. -/
def narrowFloat (v : UInt64) : EncodedWrite :=
  let narrowed := f64ToF32 v
  if ¬isNan32 narrowed ∧ Binary64.eq (f32ToF64 narrowed) v then ⟨2, leBytes 4 narrowed.toNat⟩
  else ⟨4, leBytes 8 v.toNat⟩

/-- `encode_write`; its argument `expected` is not used. -/
def encodeWrite (kind : DeviceKind) (value : RawValue) : Except DriverErrorInfo EncodedWrite :=
  if kind.isBit then encodeBit value
  else
    match value, decide (kind ∈ [DeviceKind.d, .w, .r, .zr]) with
    | .i64 v, true => .ok (narrowSignedI v)
    | .u64 v, true => .ok (narrowUnsignedU v)
    | .f64 v, true => .ok (narrowFloat v)
    | other, _ =>
      .error (.invalidType
        ("字软元件 " ++ kind.debug ++ " 不接受值类型 " ++ typeName other ++ "（映射表见模块文档）"))

/-- A bit is one point, and a number is one, two or four words. -/
theorem encodeWrite_shape {kind : DeviceKind} {value : RawValue} {encoded : EncodedWrite}
    (ok : encodeWrite kind value = .ok encoded) :
    (1 ≤ encoded.points ∧ encoded.points ≤ 4) ∧ (kind.isBit = true → encoded.points = 1) ∧
      (kind.isBit = false → encoded.data.length = 2 * encoded.points) := by
  unfold encodeWrite at ok
  split at ok
  next isBit =>
    unfold encodeBit at ok
    split at ok
    next =>
      cases ok
      simp [isBit]
    next => cases ok
  next word =>
    split at ok
    next v _ =>
      cases ok
      unfold narrowSignedI
      dsimp only
      split
      · simp [word]
      · split <;> simp [word]
    next v _ =>
      cases ok
      unfold narrowUnsignedU
      dsimp only
      split
      · simp [word]
      · split <;> simp [word]
    next v _ =>
      cases ok
      unfold narrowFloat
      dsimp only
      split <;> simp [word]
    next => cases ok

/-! ## Planning -/

/-- `WriteEntry`, with its device. -/
structure WriteEntry where
  kind : DeviceKind
  start : Nat
  width : Nat
  id : Nat
  data : Bytes

/-- The first loop of `plan_write_batch`, for one item: an entry, or the error of an item
that cannot be written. -/
def admitItem (item : WriteRequest) :
    Except DriverErrorInfo (WriteEntry ⊕ (Nat × DriverErrorInfo)) :=
  match parse item.address with
  | .error e => .error (.invalidAddress (item.address ++ ": " ++ e.code ++ ": " ++ e.message))
  | .ok address =>
    if ¬address.kind.writable then
      .ok (.inr (item.id,
        .invalidAddress (item.address ++ " 为过程输入/系统区（只读），禁止写入")))
    else
      match encodeWrite address.kind item.value with
      | .ok encoded =>
        .ok (.inl ⟨address.kind, address.number, encoded.points, item.id, encoded.data⟩)
      | .error e => .ok (.inr (item.id, e))

/-- An entry joins the run if it starts where the last one ends. -/
def adjoins (run : List WriteEntry) (e : WriteEntry) : Bool :=
  match run.getLast? with
  | some last => last.start + last.width = e.start
  | none => true

/-- An entry joins the chunk if the span keeps to the limit and the chunk is not full. -/
def fitsWrite (limit : Nat) (chunk : List WriteEntry) (e : WriteEntry) : Bool :=
  let firstStart := (chunk.head?.map WriteEntry.start).getD e.start
  let span := e.start + e.width - firstStart
  ¬(span > limit ∨ chunk.length + 1 > maxItemsPerPlan)

/-- The bits of an entry of a bit device. -/
def WriteEntry.bits (e : WriteEntry) : List Bool :=
  (List.range e.width).map fun i => bitOf (e.data.getD (i / 8) 0) (i % 8)

/-- The plan of a chunk. -/
def flushWrite (kind : DeviceKind) (chunk : List WriteEntry) : WritePlan where
  kind := kind
  startNumber := UInt32.ofNat ((chunk.head?.map WriteEntry.start).getD 0)
  points := UInt16.ofNat (chunk.map WriteEntry.width).sum
  data := if kind.isBit then packBits (chunk.flatMap WriteEntry.bits) else chunk.flatMap
    WriteEntry.data
  itemIds := chunk.map WriteEntry.id

/-- The chunks of a batch. -/
def writeChunksOf (maxWordPoints maxBitPoints : UInt16) (entries : List WriteEntry) :
    List (DeviceKind × List WriteEntry) :=
  batches (fun k l : DeviceKind => k.rank ≤ l.rank) WriteEntry.kind WriteEntry.start
    (fun kind group =>
      (runs adjoins group).flatMap (runs (fitsWrite (unitLimit maxWordPoints maxBitPoints kind))))
    entries

/-- The plans of a batch, and the items that are refused. -/
def planWriteBatch (items : List WriteRequest) (maxWordPoints maxBitPoints : UInt16) :
    Except DriverErrorInfo (List WritePlan × List (Nat × DriverErrorInfo)) := do
  let admitted ← items.mapM admitItem
  .ok ((writeChunksOf maxWordPoints maxBitPoints (admitted.filterMap Sum.getLeft?)).map
      fun c => flushWrite c.1 c.2,
    admitted.filterMap Sum.getRight?)

/-- The plans that the driver makes of the items of `NativeDriver::write`. -/
def sentPlans (config : McConfig) (items : List DriverWriteItem) :
    Except DriverErrorInfo (List WritePlan × List (Nat × DriverErrorInfo)) :=
  match encodeItems items with
  | .error e => .error (mapLoaderError e)
  | .ok ffiItems => do
    let requests ← decodeItems
      (fun item value => (⟨item.id, item.address, value⟩ : WriteRequest)) ffiItems
    planWriteBatch requests config.maxWordPointsPerAccess config.maxBitPointsPerAccess

theorem writeChunksOf_singleton (maxWordPoints maxBitPoints : UInt16) (e : WriteEntry) :
    writeChunksOf maxWordPoints maxBitPoints [e] = [(e.kind, [e])] := by
  simp [writeChunksOf, batches, groups, sortByKey, runs, runsFrom]

/-- A batch of one item: one request for what it is encoded in, or none. -/
theorem planWriteBatch_singleton (item : WriteRequest) {a : DeviceAddress}
    (parsed : parse item.address = .ok a) (maxWordPoints maxBitPoints : UInt16)
    {plans : List WritePlan} {failed : List (Nat × DriverErrorInfo)}
    (planned : planWriteBatch [item] maxWordPoints maxBitPoints = .ok (plans, failed)) :
    plans = [] ∨ ∃ encoded, encodeWrite a.kind item.value = .ok encoded ∧
      plans = [flushWrite a.kind [⟨a.kind, a.number, encoded.points, item.id, encoded.data⟩]] := by
  by_cases writable : a.kind.writable = true
  · cases value : encodeWrite a.kind item.value with
    | error e =>
      simp [planWriteBatch, admitItem, parsed, writable, value, bind, Except.bind, pure,
        Except.pure, writeChunksOf, batches, groups] at planned
      exact .inl planned.1.symm
    | ok encoded =>
      simp [planWriteBatch, admitItem, parsed, writable, value, bind, Except.bind, pure,
        Except.pure, writeChunksOf_singleton] at planned
      exact .inr ⟨encoded, rfl, planned.1.symm⟩
  · simp [planWriteBatch, admitItem, parsed, writable, bind, Except.bind, pure,
      Except.pure, writeChunksOf, batches, groups] at planned
    exact .inl planned.1.symm

/-! ## What a PLC does with a write -/

/-- The points that a request writes. -/
def WritePlan.Writes (plan : WritePlan) (kind : DeviceKind) (n : Nat) : Prop :=
  kind = plan.kind ∧ plan.startNumber.toNat ≤ n ∧ n < plan.startNumber.toNat + plan.points.toNat

instance (plan : WritePlan) (kind : DeviceKind) (n : Nat) : Decidable (plan.Writes kind n) :=
  inferInstanceAs (Decidable (_ ∧ _))

/-- What the PLC does with a write request. -/
def Memory.perform (memory : Memory) (plan : WritePlan) : Memory where
  bit kind n :=
    if plan.Writes kind n ∧ kind.isBit then
      bitOf (plan.data.getD ((n - plan.startNumber.toNat) / 8) 0) ((n - plan.startNumber.toNat) % 8)
    else memory.bit kind n
  word kind n :=
    if plan.Writes kind n ∧ ¬kind.isBit then
      UInt16.ofNat (ofLeBytes ((plan.data.drop (2 * (n - plan.startNumber.toNat))).take 2))
    else memory.word kind n

/-- The PLC takes the requests in the order they are sent. -/
def Memory.performAll (memory : Memory) (plans : List WritePlan) : Memory :=
  plans.foldl Memory.perform memory

/-- What no request writes is kept. -/
theorem performAll_of_not_writes {plans : List WritePlan} {kind : DeviceKind} {n : Nat}
    (spared : ∀ plan ∈ plans, ¬plan.Writes kind n) (memory : Memory) :
    (memory.performAll plans).bit kind n = memory.bit kind n ∧
      (memory.performAll plans).word kind n = memory.word kind n := by
  induction plans generalizing memory with
  | nil => exact ⟨rfl, rfl⟩
  | cons plan plans ih =>
    obtain ⟨bit, word⟩ := ih (fun p inside => spared p (List.mem_cons_of_mem _ inside))
      (memory.perform plan)
    have first := spared plan List.mem_cons_self
    refine ⟨bit.trans (if_neg fun h => first h.1), word.trans (if_neg fun h => first h.1)⟩

end ForgeLink.Drivers.MitsubishiMc
