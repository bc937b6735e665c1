import ForgeLink.Drivers.ModbusWriteBatch
import ForgeLink.Lib.Checked

/-!
# The Modbus planners with overflow checks

The planners of `batch.rs` as a build with overflow checks runs them: every
addition, subtraction and cast is done in the type it has in the source, and the
planner stops if the result is not a value of it.

The planner of reads never stops (`planBatch_eq`).  The planner of writes adds the
offset and the width of an entry in 16 bits when it looks whether the next entry
adjoins it, and an entry may end at 65536.  So it stops exactly if such an entry is
not the last one of its unit and segment (`planning_overflow_iff`), for example
if the last register is written twice.
-/

namespace ForgeLink.Drivers.Modbus

open Lib

namespace Checked

variable {key : GroupKey} {e : WriteGroupEntry} {chunk : List WriteGroupEntry}

/-! ## Addresses -/

/-- `offset`, with the subtraction and the cast checked. -/
def offset (a : ModbusAddress) : Option Nat := do
  checkedCast 16 (← checkedSub a.address a.kind.segmentBase)

theorem offset_eq (a : ModbusAddress) : offset a = some a.offset := by
  have inside := a.in_segment
  rw [offset, checkedSub_of_le inside.1]
  exact checkedCast_of_lt a.offset_lt

/-! ## Reads -/

/-- The first loop of `plan_batch`, for one item. -/
def parseItem (fmt : DebugFmt) (defaultUnitId : UInt8) (item : DriverReadItem) :
    Option (Except DriverErrorInfo GroupEntry) :=
  match parseAddress fmt item.address defaultUnitId with
  | .error e => some (.error (.invalidAddress (e.text fmt)))
  | .ok address => do
    let width := itemWidth address.kind item.expectedType
    let stop ← checkedAdd 32 (← offset address) width
    if stop > 65536 then
      let canonical := address.canonical
      some (.error (.invalidAddress
        s!"地址 {canonical} 连同类型宽度 {width} 超出协议偏移上限 65535"))
    else some (.ok ⟨item.id, address, item.expectedType⟩)

/-- An entry joins the run if its address is the next one. -/
def follows : List GroupEntry → GroupEntry → Option Bool :=
  byLast (fun prev e => do
    let next ← checkedAdd 32 prev.address.address 1
    some (e.address.address = next)) (some true)

/-- An entry joins the frame if the widths still add up to at most the limit. -/
def fits (limit : Nat) (frame : List GroupEntry) (e : GroupEntry) : Option Bool := do
  let used ← checkedSum 32 (frame.map GroupEntry.width)
  let sum ← checkedAdd 32 used e.width
  some (sum ≤ limit)

/-- An item of a frame. -/
def plannedItem (chunkStart : Nat) (e : GroupEntry) : Option PlannedItem := do
  let offsetInFrame ← checkedSub (← offset e.address) chunkStart
  let width ← checkedCast 16 e.width
  some { itemId := e.itemId, offsetInFrame, expectedType := e.expectedType, width }

/-- `emit_plan`, for one frame. -/
def emitPlan (key : GroupKey) (frame : List GroupEntry) : Option ReadPlan := do
  let first ← frame.head?
  let startOffset ← offset first.address
  let items ← frame.mapM (plannedItem startOffset)
  let last ← items.getLast?
  let quantity ← checkedAdd 16 last.offsetInFrame last.width
  some { unitId := key.1, kind := key.2, startOffset, quantity, items }

/-- The runs of a sorted group, each cut into frames. -/
def cutGroup (key : GroupKey) (group : List GroupEntry) : Option (List (List GroupEntry)) := do
  let runs ← tryRuns follows group
  let frames ← runs.mapM (tryRuns (fits (readLimit key.2)))
  some frames.flatten

/-- The plans of a sorted group. -/
def planGroup (key : GroupKey) (group : List GroupEntry) : Option (List ReadPlan) := do
  let frames ← cutGroup key group
  frames.mapM (emitPlan key)

/-- `plan_batch`, checked. -/
def planBatch (fmt : DebugFmt) (items : List DriverReadItem) (defaultUnitId : UInt8) :
    Option (Except DriverErrorInfo (List ReadPlan)) := do
  match ← tryMapM (parseItem fmt defaultUnitId) items with
  | .error e => some (.error e)
  | .ok entries =>
    let plans ← (groups GroupKey.le GroupEntry.key entries).mapM fun g =>
      planGroup g.1 (sortByKey (·.address.address) g.2)
    some (.ok plans.flatten)

theorem parseItem_eq (fmt : DebugFmt) (defaultUnitId : UInt8) (item : DriverReadItem) :
    parseItem fmt defaultUnitId item = some (Modbus.parseItem fmt defaultUnitId item) := by
  unfold parseItem Modbus.parseItem
  cases parseAddress fmt item.address defaultUnitId with
  | error e => rfl
  | ok address =>
    have width := itemWidth_cases address.kind item.expectedType
    have low := address.offset_lt
    have sum : checkedAdd 32 address.offset (itemWidth address.kind item.expectedType) =
        some (address.offset + itemWidth address.kind item.expectedType) :=
      checkedAdd_of_lt (by omega)
    simp only [offset_eq, Option.bind_eq_bind, Option.bind_some, sum]
    split <;> rfl

theorem follows_eq (run : List GroupEntry) (e : GroupEntry) :
    follows run e = some (Modbus.follows run e) := by
  unfold follows byLast Modbus.follows
  cases run.getLast? with
  | none => rfl
  | some prev =>
    have inside := prev.address.in_segment
    have base : prev.address.kind.segmentBase ≤ 40001 := by
      cases prev.address.kind <;> decide
    have next : checkedAdd 32 prev.address.address 1 = some (prev.address.address + 1) := by
      refine checkedAdd_of_lt ?_
      unfold RegisterKind.explicitMax at inside
      omega
    simp only [next, Option.bind_eq_bind, Option.bind_some]

theorem fits_eq {limit : Nat} (small : limit ≤ 2000) {frame : List GroupEntry}
    (inside : (frame.map GroupEntry.width).sum ≤ limit) (e : GroupEntry) :
    fits limit frame e = some (Modbus.fits limit frame e) := by
  have width := e.width_cases
  rw [fits, checkedSum_of_lt (by omega), Option.bind_eq_bind, Option.bind_some,
    checkedAdd_of_lt (by omega)]
  rfl

/-- No sum of the read planner overflows. -/
theorem cutGroup_eq (key : GroupKey) (group : List GroupEntry) :
    cutGroup key group = some (Modbus.cutGroup key group) := by
  have limit : readLimit key.2 ≤ 2000 := by cases key.2 <;> decide
  have runs : tryRuns follows group = some (runs Modbus.follows group) :=
    tryRuns_eq (fun _ => True) (fun _ _ => trivial) (fun run _ e _ => follows_eq run e)
      fun _ _ _ _ _ => trivial
  have frames : ∀ run, tryRuns (fits (readLimit key.2)) run =
      some (Lib.runs (Modbus.fits (readLimit key.2)) run) := fun run => by
    refine tryRuns_eq (fun frame => (frame.map GroupEntry.width).sum ≤ readLimit key.2)
      (fun e _ => ?_) (fun frame inside e _ => fits_eq limit inside e) fun frame _ e _ joined => ?_
    · have width := e.width_cases
      have four := IsFrame.four_le_readLimit key.2
      rw [List.map_singleton, List.sum_singleton]
      omega
    · simpa [Modbus.fits] using joined
  rw [cutGroup, runs, Option.bind_eq_bind, Option.bind_some, mapM_eq_some fun run _ => frames run]
  rfl

/-- No plan of a frame of the planner overflows. -/
theorem emitPlan_eq {entries : List GroupEntry} {frame : List GroupEntry}
    (h : IsFrame entries key frame) : emitPlan key frame = some (Modbus.emitPlan key frame) := by
  obtain ⟨first, rest, last, eq, ends⟩ := h.exists_last
  have items : frame.mapM (plannedItem first.address.offset) =
      some (frame.map (GroupEntry.planned first.address.offset)) := by
    refine mapM_eq_some fun e inside => ?_
    obtain ⟨front, back, split⟩ := List.append_of_mem inside
    have above := h.offset_eq eq split
    have width := e.width_cases
    rw [plannedItem, offset_eq, Option.bind_eq_bind, Option.bind_some,
      checkedSub_of_le (by omega), Option.bind_some, checkedCast_of_lt (by omega)]
    rfl
  have ending : (frame.map (GroupEntry.planned first.address.offset)).getLast? =
      some (last.planned first.address.offset) := by
    rw [List.getLast?_map, eq, ends]
    rfl
  have limit : readLimit key.2 ≤ 2000 := by cases key.2 <;> decide
  have quantity := h.quantity_le
  have plan := emitPlan_cons key ends
  rw [← eq] at plan
  rw [plan] at quantity ⊢
  have sum : checkedAdd 16 (last.planned first.address.offset).offsetInFrame
      (last.planned first.address.offset).width =
      some (last.address.offset - first.address.offset + last.width) :=
    checkedAdd_of_lt (Nat.lt_of_le_of_lt (Nat.le_trans quantity limit) (by decide))
  have head : frame.head? = some first := by rw [eq]; rfl
  rw [emitPlan, head]
  simp only [Option.bind_eq_bind, Option.bind_some, offset_eq, items, ending, sum]

/-- The planner of reads does not overflow. -/
theorem planBatch_eq (fmt : DebugFmt) (items : List DriverReadItem) (defaultUnitId : UInt8) :
    planBatch fmt items defaultUnitId = some (Modbus.planBatch fmt items defaultUnitId) := by
  rw [planBatch, Modbus.planBatch, tryMapM_eq (parseItem_eq fmt defaultUnitId)]
  cases items.mapM (Modbus.parseItem fmt defaultUnitId) with
  | error e => rfl
  | ok entries =>
    have group : ∀ g ∈ groups GroupKey.le GroupEntry.key entries,
        planGroup g.1 (sortByKey (·.address.address) g.2) =
          some ((Modbus.cutGroup g.1 (sortByKey (·.address.address) g.2)).map
            (Modbus.emitPlan g.1)) := by
      intro g inside
      rw [planGroup, cutGroup_eq, Option.bind_eq_bind, Option.bind_some]
      refine mapM_eq_some fun frame here => ?_
      have inside : (g.1, frame) ∈ framesOf entries := mem_batches.mpr ⟨g.2, inside, here⟩
      exact emitPlan_eq (isFrame inside)
    simp only [Option.bind_eq_bind, Option.bind_some, mapM_eq_some group]
    refine congrArg (fun plans => some (Except.ok plans)) ?_
    rw [framesOf, batches, List.map_flatMap, List.flatMap_def]
    refine congrArg List.flatten (List.map_congr_left fun g _ => ?_)
    rw [List.map_map]
    rfl

/-! ## Writes -/

/-- `units`, with the cast checked. -/
def units (e : EncodedWrite) : Option Nat :=
  match e with
  | .coil _ => some 1
  | .registers data => checkedCast 16 (data.length / 2)

/-- The first loop of `plan_write_batch`, for one item. -/
def admitItem (fmt : DebugFmt) (defaultUnitId : UInt8) (wordOrder : WordOrder)
    (item : WriteRequest) : Option (Except DriverErrorInfo (WriteGroupEntry ⊕ RawWriteResult)) :=
  match parseAddress fmt item.address defaultUnitId with
  | .error e => some (.error (.invalidAddress (e.text fmt)))
  | .ok address =>
    let canonical := address.canonical
    if ¬address.kind.writable then
      let name := address.kind.name
      some (.error (.invalidAddress s!"{canonical}（{name}）为只读数据段，不可写入"))
    else
      match encodeWriteValue fmt address.kind item.valueType item.value wordOrder with
      | .error message => some (.ok (.inr (.failed item.id (.invalidType message))))
      | .ok encoded => do
        let units ← units encoded
        let stop ← checkedAdd 32 (← offset address) units
        if stop > 65536 then
          some (.error (.invalidAddress
            s!"地址 {canonical} 连同写入宽度 {units} 超出协议偏移上限 65535"))
        else some (.ok (.inl ⟨item.id, address, encoded⟩))

/-- An entry starts where the one before ends. -/
def startsAtEnd (prev e : WriteGroupEntry) : Option Bool := do
  let start ← offset e.address
  let stop ← checkedAdd 16 (← offset prev.address) (← units prev.encoded)
  some (start = stop)

/-- An entry joins the run if it starts where the last one ends. -/
def adjoins : List WriteGroupEntry → WriteGroupEntry → Option Bool :=
  byLast startsAtEnd (some true)

/-- An entry joins the chunk if the units still add up to at most the limit. -/
def fitsWrite (limit : Nat) (chunk : List WriteGroupEntry) (e : WriteGroupEntry) :
    Option Bool := do
  let used ← checkedSum 32 (← chunk.mapM fun e => units e.encoded)
  let sum ← checkedAdd 32 used (← units e.encoded)
  some (sum ≤ limit)

/-- `emit_write_plan`, for one chunk. -/
def emitWritePlan (key : GroupKey) (chunk : List WriteGroupEntry) : Option WritePlan := do
  let first ← chunk.head?
  let startOffset ← offset first.address
  let used ← checkedSum 32 (← chunk.mapM fun e => units e.encoded)
  let quantity ← checkedCast 16 used
  let (function, payload) := buildWritePayload key.2 chunk quantity
  some { unitId := key.1, function, startOffset := UInt16.ofNat startOffset, payload
         itemIds := chunk.map WriteGroupEntry.itemId }

/-- The runs of a sorted group, each cut into chunks. -/
def cutWriteGroup (key : GroupKey) (group : List WriteGroupEntry) :
    Option (List (List WriteGroupEntry)) := do
  let runs ← tryRuns adjoins group
  let chunks ← runs.mapM (tryRuns (fitsWrite (writeLimit key.2)))
  some chunks.flatten

/-- The plans of a sorted group. -/
def planWriteGroup (key : GroupKey) (group : List WriteGroupEntry) : Option (List WritePlan) := do
  let chunks ← cutWriteGroup key group
  chunks.mapM (emitWritePlan key)

/-- `plan_write_batch`, checked. -/
def planWriteBatch (fmt : DebugFmt) (items : List WriteRequest) (defaultUnitId : UInt8)
    (wordOrder : WordOrder) :
    Option (Except DriverErrorInfo (List WritePlan × List RawWriteResult)) := do
  match ← tryMapM (admitItem fmt defaultUnitId wordOrder) items with
  | .error e => some (.error e)
  | .ok admitted =>
    let entries := admitted.filterMap Sum.getLeft?
    let plans ← (groups GroupKey.le WriteGroupEntry.key entries).mapM fun g =>
      planWriteGroup g.1 (sortByKey (·.address.address) g.2)
    some (.ok (plans.flatten, admitted.filterMap Sum.getRight?))

theorem units_eq (typed : e.Typed) : units e.encoded = some e.units := by
  have few := typed.units_pos.2
  unfold WriteGroupEntry.units at few ⊢
  unfold units
  cases eq : e.encoded with
  | coil bit => rfl
  | registers data =>
    rw [eq] at few
    exact checkedCast_of_lt (Nat.lt_of_le_of_lt few (by decide))

/-- Admitting an item does not overflow. -/
theorem admitItem_eq (fmt : DebugFmt) (defaultUnitId : UInt8) (wordOrder : WordOrder)
    (item : WriteRequest) :
    admitItem fmt defaultUnitId wordOrder item =
      some (Modbus.admitItem fmt defaultUnitId wordOrder item) := by
  unfold admitItem Modbus.admitItem
  cases parseAddress fmt item.address defaultUnitId with
  | error e => rfl
  | ok address =>
    dsimp only
    split
    · rfl
    · cases encoded : encodeWriteValue fmt address.kind item.valueType item.value wordOrder with
      | error message => rfl
      | ok e =>
        have typed : WriteGroupEntry.Typed ⟨item.id, address, e⟩ :=
          encodeWriteValue_typed encoded
        have few := typed.units_pos.2
        have low := address.offset_lt
        have width : units e = some e.units := units_eq typed
        have sum : checkedAdd 32 address.offset e.units = some (address.offset + e.units) := by
          refine checkedAdd_of_lt ?_
          change e.units ≤ 4 at few
          omega
        simp only [width, offset_eq, Option.bind_eq_bind, Option.bind_some, sum]
        split <;> rfl


/-- The test of two neighbours stops just if the first one ends at 65536. -/
theorem startsAtEnd_isSome_iff {prev : WriteGroupEntry} (typed : prev.Typed) :
    (startsAtEnd prev e).isSome ↔ prev.address.offset + prev.units < 65536 := by
  rw [startsAtEnd, offset_eq, offset_eq, units_eq typed]
  simp only [Option.bind_eq_bind, Option.bind_some]
  rw [show (65536 : Nat) = 2 ^ 16 by decide, ← isSome_checkedAdd]
  cases checkedAdd 16 prev.address.offset prev.units <;> rfl

theorem startsAtEnd_eq {prev : WriteGroupEntry} (typed : prev.Typed)
    (inside : prev.address.offset + prev.units < 65536) :
    startsAtEnd prev e =
      some (decide (e.address.offset = (prev.address.offset + prev.units) % 65536)) := by
  rw [startsAtEnd, offset_eq, offset_eq, units_eq typed]
  simp only [Option.bind_eq_bind, Option.bind_some]
  rw [checkedAdd_of_lt inside, Option.bind_some, Nat.mod_eq_of_lt inside]

theorem mapM_units (typed : ∀ e ∈ chunk, e.Typed) :
    chunk.mapM (fun e => units e.encoded) = some (chunk.map WriteGroupEntry.units) :=
  mapM_eq_some fun e here => units_eq (typed e here)

theorem fitsWrite_eq {limit : Nat} (small : limit ≤ 1968) (typed : ∀ e ∈ chunk, e.Typed)
    (inside : unitsOf chunk ≤ limit) (own : e.Typed) :
    fitsWrite limit chunk e = some (Modbus.fitsWrite limit chunk e) := by
  have few := own.units_pos.2
  unfold unitsOf at inside
  rw [fitsWrite, mapM_units typed, units_eq own]
  simp only [Option.bind_eq_bind, Option.bind_some]
  rw [checkedSum_of_lt (by omega), Option.bind_some, checkedAdd_of_lt (by omega)]
  rfl

theorem emitWritePlan_eq {start : Nat} (h : IsChunk key start chunk)
    (typed : ∀ e ∈ chunk, e.Typed) :
    emitWritePlan key chunk = some (Modbus.emitWritePlan key chunk) := by
  have limit := h.limit
  have bound := writeLimit_le key.2
  unfold unitsOf at limit
  cases chunk with
  | nil => exact absurd rfl h.nonempty
  | cons e chunk =>
    rw [emitWritePlan, mapM_units typed]
    simp only [List.head?_cons, Option.bind_eq_bind, Option.bind_some, offset_eq]
    rw [checkedSum_of_lt (by omega), Option.bind_some, checkedCast_of_lt (by omega),
      Option.bind_some]
    rfl

/-- No entry but the last one ends at 65536. -/
def EndsBelow (group : List WriteGroupEntry) : Prop :=
  ∀ e ∈ group.dropLast, e.address.offset + e.units < 65536

theorem tryRuns_adjoins_isSome_iff {group : List WriteGroupEntry} (typed : ∀ e ∈ group, e.Typed) :
    (tryRuns adjoins group).isSome ↔ EndsBelow group := by
  rw [adjoins, tryRuns_last_isSome, EndsBelow, ← isChain_left_iff]
  exact List.IsChain.iff_of_mem_imp fun prev e inside _ =>
    startsAtEnd_isSome_iff (typed prev inside)

theorem adjoins_eq_byLast : Modbus.adjoins = byLast (fun prev e : WriteGroupEntry =>
    decide (e.address.offset = (prev.address.offset + prev.units) % 65536)) true := by
  funext run e
  unfold Modbus.adjoins byLast
  cases run.getLast? <;> rfl

/-- No sum of the write planner overflows. -/
theorem cutWriteGroup_eq {group : List WriteGroupEntry} (typed : ∀ e ∈ group, e.Typed)
    (below : EndsBelow group) :
    cutWriteGroup key group = some (Modbus.cutWriteGroup key group) := by
  have neighbours : List.IsChain (fun prev e => startsAtEnd prev e =
      some (decide (e.address.offset = (prev.address.offset + prev.units) % 65536))) group :=
    (isChain_left_iff.mpr below).imp_of_mem_imp fun prev e inside _ => startsAtEnd_eq
      (typed prev inside)
  have joined : tryRuns adjoins group = some (runs Modbus.adjoins group) := by
    rw [adjoins_eq_byLast]
    exact tryRuns_byLast neighbours
  have chunks : ∀ run ∈ runs Modbus.adjoins group, tryRuns (fitsWrite (writeLimit key.2)) run =
      some (runs (Modbus.fitsWrite (writeLimit key.2)) run) := by
    intro run inside
    have typed : ∀ e ∈ run, e.Typed := fun e here => typed e (mem_of_mem_runs inside here)
    refine tryRuns_eq (fun chunk => (∀ e ∈ chunk, e.Typed) ∧ unitsOf chunk ≤ writeLimit key.2)
      (fun e here => ?_) (fun chunk ⟨own, small⟩ e here =>
        fitsWrite_eq (writeLimit_le key.2) own small (typed e here))
      fun chunk ⟨own, _⟩ e here fits => ⟨?_, ?_⟩
    · have few := (typed e here).units_pos.2
      have four := four_le_writeLimit key.2
      refine ⟨by simpa using typed e here, ?_⟩
      rw [unitsOf, List.map_singleton, List.sum_singleton]
      omega
    · simpa [or_imp, forall_and] using ⟨own, typed e here⟩
    · simpa [Modbus.fitsWrite, unitsOf] using fits
  rw [cutWriteGroup, joined, Option.bind_eq_bind, Option.bind_some, mapM_eq_some chunks]
  rfl

section

variable {entries : List WriteGroupEntry}

theorem typed_of_mem_groups (sound : ∀ e ∈ entries, e.Sound) {g : GroupKey × List WriteGroupEntry}
    (inside : g ∈ groups GroupKey.le WriteGroupEntry.key entries) :
    ∀ e ∈ sortByKey (·.address.address) g.2, e.Typed := by
  intro e here
  rw [(sortByKey_perm _ g.2).mem_iff, mem_groups _ _ inside] at here
  exact (sound e (List.mem_filter.mp here).1).typed

/-- If no group stops the planner, every group ends below 65536, but for its last entry. -/
theorem endsBelow_of_planned (sound : ∀ e ∈ entries, e.Sound)
    (planned : ((groups GroupKey.le WriteGroupEntry.key entries).mapM fun g =>
      planWriteGroup g.1 (sortByKey (·.address.address) g.2)).isSome) (key : GroupKey) :
    EndsBelow (sortByKey (·.address.address) (entries.filter fun e => e.key = key)) := by
  by_cases some : ∃ e ∈ entries, e.key = key
  · obtain ⟨e, inside, rfl⟩ := some
    have grouped : (e.key, entries.filter fun e' => e'.key = e.key) ∈
        groups GroupKey.le WriteGroupEntry.key entries := exists_group _ _ inside
    have planned := isSome_of_mapM planned _ grouped
    rw [← tryRuns_adjoins_isSome_iff (typed_of_mem_groups sound grouped)]
    rw [planWriteGroup, cutWriteGroup] at planned
    cases joined : tryRuns adjoins (sortByKey (·.address.address)
      (entries.filter fun e' => e'.key = e.key)) with
    | none => simp [joined] at planned
    | some runs => rfl
  · have none : entries.filter (fun e => e.key = key) = [] := by
      rw [List.filter_eq_nil_iff]
      exact fun e inside eq => some ⟨e, inside, of_decide_eq_true eq⟩
    rw [none]
    exact fun e inside => by cases inside

/-- A group that ends below 65536, but for its last entry, is planned as in the wrapping
arithmetic. -/
theorem planWriteGroup_eq (sound : ∀ e ∈ entries, e.Sound) {g : GroupKey × List WriteGroupEntry}
    (inside : g ∈ groups GroupKey.le WriteGroupEntry.key entries)
    (below : EndsBelow (sortByKey (·.address.address) g.2)) :
    planWriteGroup g.1 (sortByKey (·.address.address) g.2) =
      some ((Modbus.cutWriteGroup g.1 (sortByKey (·.address.address) g.2)).map
        (Modbus.emitWritePlan g.1)) := by
  rw [planWriteGroup, cutWriteGroup_eq (typed_of_mem_groups sound inside) below,
    Option.bind_eq_bind, Option.bind_some]
  refine mapM_eq_some fun chunk here => ?_
  have member : (g.1, chunk) ∈ writeChunksOf entries := mem_batches.mpr ⟨g.2, inside, here⟩
  obtain ⟨within, start, h⟩ := isChunk sound member
  exact emitWritePlan_eq h fun e here => (sound e (within e here)).typed

end

/-- The planner of reads does not overflow, and the planner of writes overflows just if an item
that ends at 65536 is not the last one of its unit and segment, by address and then by
place in the batch. -/
theorem planning_overflow_iff (fmt : DebugFmt) (unitId : UInt8) :
    (∀ items, planBatch fmt items unitId = some (Modbus.planBatch fmt items unitId)) ∧
      ∀ order items plans errors,
        Modbus.planWriteBatch fmt items unitId order = .ok (plans, errors) →
        (planWriteBatch fmt items unitId order = some (.ok (plans, errors)) ↔
          ∀ key, EndsBelow (sortByKey (·.address.address)
            ((items.filterMap (writeEntry fmt unitId order)).filter fun e => e.key = key))) := by
  refine ⟨fun items => planBatch_eq fmt items unitId, fun order items plans errors planned => ?_⟩
  obtain ⟨admitted, parsed, planned⟩ := bind_eq_ok.mp planned
  cases planned
  obtain ⟨entries, sound, _⟩ := admitted_entries (forall₂_of_mapM parsed)
  rw [planWriteBatch, tryMapM_eq (admitItem_eq fmt unitId order), parsed, ← entries]
  simp only [Option.bind_eq_bind, Option.bind_some]
  constructor
  · intro planned
    refine endsBelow_of_planned sound ?_
    obtain ⟨plans, eq, _⟩ := Option.bind_eq_some_iff.mp planned
    rw [eq]
    rfl
  · intro below
    have ends : ∀ g ∈ groups GroupKey.le WriteGroupEntry.key (admitted.filterMap Sum.getLeft?),
        EndsBelow (sortByKey (·.address.address) g.2) := by
      intro g inside
      rw [mem_groups _ _ inside]
      exact below g.1
    have group := fun g inside => planWriteGroup_eq sound inside (ends g inside)
    rw [mapM_eq_some group, Option.bind_some, writeChunksOf, batches, List.map_flatMap,
      List.flatMap_def]
    refine congrArg (fun plans => some (Except.ok (List.flatten plans, _))) ?_
    refine List.map_congr_left fun g _ => ?_
    rw [List.map_map]
    rfl

/-- A batch that does not overflow. -/
theorem planning_overflow_iff_sample :
    planWriteBatch plainDebug sampleWrites 1 .abcd =
      some (Modbus.planWriteBatch plainDebug sampleWrites 1 .abcd) := by
  obtain ⟨plans, errors, planned⟩ : ∃ plans errors,
      Modbus.planWriteBatch plainDebug sampleWrites 1 .abcd = .ok (plans, errors) :=
    ⟨_, _, rfl⟩
  rw [planned]
  refine ((planning_overflow_iff plainDebug 1).2 .abcd sampleWrites plans errors planned).mpr ?_
  intro key e inside
  have entry := (sortByKey_perm _ _).mem_iff.mp (List.dropLast_subset _ inside)
  have below : ∀ e ∈ sampleWrites.filterMap (writeEntry plainDebug 1 .abcd),
      e.address.offset + e.units < 65536 := by decide
  exact below e (List.mem_filter.mp entry).1

/-- The last holding register is written twice. -/
theorem planWriteBatch_overflows :
    (Modbus.planWriteBatch plainDebug
      [⟨1, "1!holding:105536", TypeTag.u16.toU32, .u64 5⟩,
        ⟨2, "1!holding:105536", TypeTag.u16.toU32, .u64 6⟩] 1 .abcd).isOk ∧
      planWriteBatch plainDebug
        [⟨1, "1!holding:105536", TypeTag.u16.toU32, .u64 5⟩,
          ⟨2, "1!holding:105536", TypeTag.u16.toU32, .u64 6⟩] 1 .abcd = none := by
  exact ⟨rfl, rfl⟩

end Checked

end ForgeLink.Drivers.Modbus
