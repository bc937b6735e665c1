import ForgeLink.Drivers.MitsubishiMc
import ForgeLink.Lib.Runs
import ForgeLink.Lib.Strings

/-!
# The MC driver: batch reads

`address.rs`, `decode.rs`, the read half of `batch.rs` and `mc.rs`, and
`read_batch` of `lib.rs`.  The items of a batch are grouped by device and sorted
by number.  A chunk grows over gaps of at most `max_merge_gap_points` while its
span keeps to the limit; it is one read request for all points from the start of
its first item to the furthest end of an item, and every item takes its part of
the answer.
-/

namespace ForgeLink.Drivers.MitsubishiMc

open Lib

/-! ## Addresses -/

/-- The position in the declaration of `DeviceKind`, which its `Ord` follows. -/
def DeviceKind.rank : DeviceKind → Nat
  | .x => 0
  | .y => 1
  | .m => 2
  | .b => 3
  | .s => 4
  | .sm => 5
  | .d => 6
  | .w => 7
  | .r => 8
  | .zr => 9
  | .sd => 10

/-- The device that a prefix stands for, in any case of its letters. -/
def DeviceKind.parsePrefix (letters : List Char) : Option DeviceKind :=
  match String.ofList (letters.map Str.toAsciiUpper) with
  | "X" => some .x
  | "Y" => some .y
  | "M" => some .m
  | "B" => some .b
  | "S" => some .s
  | "D" => some .d
  | "W" => some .w
  | "R" => some .r
  | "SM" => some .sm
  | "SD" => some .sd
  | "ZR" => some .zr
  | _ => none

/-- `DeviceAddress`; a number has 24 bits. -/
structure DeviceAddress where
  kind : DeviceKind
  number : Nat
  number_le : number ≤ 0xFFFFFF

/-- The parser of addresses. -/
def parse (input : String) : Except DriverErrorInfo DeviceAddress :=
  let raw := Str.trim input.toList
  let text := "'" ++ String.ofList raw ++ "'"
  if raw = [] then .error (.invalidAddress "地址为空")
  else if ¬raw.any Str.isAsciiDigit then
    .error (.invalidAddress (text ++ " 缺少十进制编号（编号按十进制解析）"))
  else
    let letters := raw.takeWhile fun c => ¬Str.isAsciiDigit c
    let digits := raw.dropWhile fun c => ¬Str.isAsciiDigit c
    if '.' ∈ digits then
      .error (.invalidAddress
        (text ++ " 含位偏移语法 '.'（随机访问不在支持范围；请改用独立点位地址）"))
    else if digits = [] ∨ ¬digits.all Str.isAsciiDigit then
      .error (.invalidAddress (text ++ " 编号非法（仅允许十进制数字）"))
    else
      match DeviceKind.parsePrefix letters with
      | none =>
        .error (.invalidAddress ("未知软元件前缀 '" ++ String.ofList letters ++
          "'（支持 X/Y/M/B/S/SM/D/W/R/ZR/SD；T/C 推迟后续版本）"))
      | some kind =>
        match Str.parseUnsigned (2 ^ 32 - 1) digits with
        | none => .error (.invalidAddress (text ++ " 编号溢出（u24 上限 16777215）"))
        | some number =>
          if number_le : number ≤ 0xFFFFFF then .ok ⟨kind, number, number_le⟩
          else .error (.invalidAddress (text ++ " 编号超 u24 上限 16777215"))

/-! ## Decoding -/

/-- `word_layout`: the points of a type, and whether it is signed or floating; the error is
the type that has none. -/
def wordLayout : Option DataType → Except DataType (Nat × Bool × Bool)
  | none => .ok (1, false, false)
  | some .u8 => .ok (1, false, false)
  | some .u16 => .ok (1, false, false)
  | some .i8 => .ok (1, true, false)
  | some .i16 => .ok (1, true, false)
  | some .u32 => .ok (2, false, false)
  | some .i32 => .ok (2, true, false)
  | some .f32 => .ok (2, false, true)
  | some .u64 => .ok (4, false, false)
  | some .i64 => .ok (4, true, false)
  | some .f64 => .ok (4, false, true)
  | some other => .error other

/-- The width that the planner and the assembly give an item; an item that cannot be
decoded has one point. -/
def wordWidth (expected : Option DataType) : Nat :=
  match wordLayout expected with
  | .ok (points, _, _) => points
  | .error _ => 1

/-- The lowest bit of a payload, if a bit is expected. -/
def decodeBit (fmt : DebugFmt) (expected : Option DataType) (payload : Bytes) :
    Except DriverErrorInfo RawValue :=
  let value : Except DriverErrorInfo RawValue :=
    match payload with
    | [] => .error (.invalidResponse "位载荷为空")
    | byte :: _ => .ok (.bool (byte &&& 1 ≠ 0))
  match expected with
  | none => value
  | some .bool => value
  | some other =>
    .error (.invalidType ("位软元件不接受期望类型 " ++ fmt.dataType other ++ "（仅 Bool）"))

/-- The value of a layout in its bytes: the `match` of `decode_read_ref`. -/
def decodeLayout (fmt : DebugFmt) (expected : Option DataType) (raw : Nat) :
    Nat × Bool × Bool → Except DriverErrorInfo RawValue
  | (1, false, false) => .ok (.u64 (UInt64.ofNat raw))
  | (1, true, false) => .ok (.i64 (Int64.ofInt (toSigned 16 raw)))
  | (2, false, false) => .ok (.u64 (UInt64.ofNat raw))
  | (2, true, false) => .ok (.i64 (Int64.ofInt (toSigned 32 raw)))
  | (2, false, true) => .ok (.f64 (f32ToF64 (UInt32.ofNat raw)))
  | (4, false, false) => .ok (.u64 (UInt64.ofNat raw))
  | (4, true, false) => .ok (.i64 (Int64.ofInt (toSigned 64 raw)))
  | (4, false, true) => .ok (.f64 (UInt64.ofNat raw))
  | _ =>
    let text := expected.elim "None" fun t => "Some(" ++ fmt.dataType t ++ ")"
    .error (.invalidType ("期望类型 " ++ text ++ " 无对应解码布局"))

/-- The value of a payload. -/
def decodeRead (fmt : DebugFmt) (kind : DeviceKind) (expected : Option DataType) (payload : Bytes) :
    Except DriverErrorInfo RawValue :=
  if kind.isBit then decodeBit fmt expected payload
  else
    match wordLayout expected with
    | .error other =>
      .error (.invalidType
        ("字软元件不接受期望类型 " ++ fmt.dataType other ++ "（映射表见模块文档）"))
    | .ok layout =>
      let points := layout.1
      if payload.length ≠ points * 2 then
        let len := payload.length
        .error (.invalidResponse s!"载荷长度 {len} 与类型点数 {points} 不符")
      else decodeLayout fmt expected (ofLeBytes payload) layout

/-! ## Planning -/

/-- An item of a plan. -/
structure PlannedItem where
  itemId : Nat
  expected : Option DataType
  offsetInPoints : Nat

/-- One read request, and the items that it serves. -/
structure ReadPlan where
  kind : DeviceKind
  startNumber : Nat
  points : UInt16
  items : List PlannedItem

/-- An item with its address. -/
structure ReadEntry where
  itemId : Nat
  expected : Option DataType
  address : DeviceAddress

namespace ReadEntry

/-- The start number. -/
def start (e : ReadEntry) : Nat := e.address.number

/-- The points of an entry. -/
def points (e : ReadEntry) : Nat :=
  if e.address.kind.isBit then 1 else wordWidth e.expected

/-- The number after an entry. -/
def stop (e : ReadEntry) : Nat := e.start + e.points

end ReadEntry

/-- The first loop of `plan_read_batch`, for one item. -/
def parseItem (item : DriverReadItem) : Except Stop ReadEntry :=
  match parse item.address with
  | .ok address => .ok ⟨item.id, item.expectedType, address⟩
  | .error e =>
    .error (.error (.invalidAddress (item.address ++ ": " ++ e.code ++ ": " ++ e.message)))

/-- How many items a plan may have. -/
def maxItemsPerPlan : Nat := 960

/-- The furthest end of the items of a chunk. -/
def chunkEnd (chunk : List ReadEntry) : Nat :=
  (chunk.map ReadEntry.stop).foldl max 0

/-- An entry joins a chunk if it starts within the gap after its end, the span keeps to
the limit and the chunk is not full.  The sum of the end and the gap has 32 bits. -/
def joins (unitLimit : Nat) (maxMergeGap : UInt32) (chunk : List ReadEntry)
    (e : ReadEntry) : Bool :=
  let firstStart := (chunk.head?.map ReadEntry.start).getD 0
  let gapOk := e.start ≤ (chunkEnd chunk + maxMergeGap.toNat) % 2 ^ 32
  let span := e.stop - firstStart
  ¬(¬gapOk ∨ span > unitLimit ∨ chunk.length + 1 > maxItemsPerPlan)

/-- The limit of a device. -/
def unitLimit (maxWordPoints maxBitPoints : UInt16) (kind : DeviceKind) : Nat :=
  if kind.isBit then maxBitPoints.toNat else maxWordPoints.toNat

/-- The plan of a chunk. -/
def flushRead (kind : DeviceKind) (chunk : List ReadEntry) : ReadPlan :=
  let startNumber := (chunk.head?.map ReadEntry.start).getD 0
  { kind, startNumber
    points := UInt16.ofNat (chunkEnd chunk - startNumber)
    items := chunk.map fun e : ReadEntry =>
      { itemId := e.itemId, expected := e.expected
        offsetInPoints := e.start - startNumber : PlannedItem } }

/-- The chunks of a batch. -/
def chunksOf (maxWordPoints maxBitPoints : UInt16) (maxMergeGap : UInt32)
    (entries : List ReadEntry) : List (DeviceKind × List ReadEntry) :=
  batches (fun k l : DeviceKind => k.rank ≤ l.rank) (fun e : ReadEntry => e.address.kind)
    ReadEntry.start
    (fun kind => runs (joins (unitLimit maxWordPoints maxBitPoints kind) maxMergeGap)) entries

/-- The plans of a batch, or the error of its first bad address. -/
def planReadBatch (items : List DriverReadItem)
    (maxWordPoints maxBitPoints : UInt16) (maxMergeGap : UInt32) : Except Stop (List ReadPlan) := do
  let entries ← items.mapM parseItem
  .ok ((chunksOf maxWordPoints maxBitPoints maxMergeGap entries).map fun c =>
    flushRead c.1 c.2)

/-! ## The driver -/

/-- `McConfig`, with the field that only batch reads read. -/
structure ReadConfig extends McConfig where
  maxMergeGapPoints : UInt32

/-- `validate`, the limits. -/
def ReadConfig.Valid (config : ReadConfig) : Prop :=
  (1 ≤ config.maxWordPointsPerAccess.toNat ∧ config.maxWordPointsPerAccess.toNat ≤ 960) ∧
    1 ≤ config.maxBitPointsPerAccess.toNat ∧ config.maxBitPointsPerAccess.toNat ≤ 720

instance (config : ReadConfig) : Decidable config.Valid := inferInstanceAs (Decidable (_ ∧ _))

/-- A read request. -/
def buildReadRequest (kind : DeviceKind) (startNumber : UInt32) (points : UInt16)
    (monitoringTimer : UInt16) (routing : Routing) : Bytes :=
  let command := if kind.isBit then 0x0402 else 0x0401
  assembleFrame 0x0050 routing monitoringTimer
    (buildCommandBody command kind startNumber points [])

/-- The answer to a plan. -/
structure PlanResponse where
  endCode : UInt16
  data : Bytes

variable (peer : Peer)

/-- One read request: the body of `execute_read_plan`. -/
def readPoints (config : ReadConfig) (kind : DeviceKind) (startNumber : Nat) (points : UInt16) :
    DriverM Unit PlanResponse := do
  let request :=
    buildReadRequest kind (UInt32.ofNat startNumber) points config.monitoringTimer config.routing
  let frame ← transact peer config.toMcConfig .read request
  let (head, body) ← liftExcept (parseResponseHead frame config.routing)
  pure ⟨head.endCode, body.drop 2⟩

/-- Read the points of a plan. -/
def executeReadPlan (config : ReadConfig) (plan : ReadPlan) : DriverM Unit PlanResponse :=
  readPoints peer config plan.kind plan.startNumber plan.points

/-- The result of an item that was decoded. -/
def readResult (itemId : Nat) : Except DriverErrorInfo RawValue → RawReadResult
  | .ok value => .good itemId value
  | .error e => .failed itemId e

/-- The result of an item, from the answer to its plan. -/
def assembleRead (fmt : DebugFmt) (isBit : Bool) (data : Bytes) (planned : PlannedItem) :
    RawReadResult :=
  if isBit then
    match data[planned.offsetInPoints / 8]? with
    | none => .failed planned.itemId (.invalidResponse "位数据区越界")
    | some byte => readResult planned.itemId (decodeRead fmt .m planned.expected [byte])
  else
    let width := wordWidth planned.expected
    let off := planned.offsetInPoints * 2
    if off + width * 2 ≤ data.length then
      readResult planned.itemId
        (decodeRead fmt .d planned.expected ((data.drop off).take (width * 2)))
    else
      let wide := width * 2
      let total := data.length
      .failed planned.itemId (.invalidResponse s!"字数据区越界：偏移 {off} 宽 {wide}，总长 {total}")

/-- The loop of `read_batch` over the plans, with the results so far. -/
def readPlans (fmt : DebugFmt) (config : ReadConfig) :
    List ReadPlan → List RawReadResult → DriverM Unit (List RawReadResult)
  | [], results => pure results
  | plan :: plans, results => do
    let response ← executeReadPlan peer config plan
    if response.endCode ≠ 0 then
      let e := mcErrorResponse response.endCode
      readPlans fmt config plans (results ++ plan.items.map fun i => .failed i.itemId e)
    else
      readPlans fmt config plans
        (results ++ plan.items.map (assembleRead fmt plan.kind.isBit response.data))

/-- A batch read. -/
def readBatch (fmt : DebugFmt) (config : ReadConfig) (items : List DriverReadItem) :
    DriverM Unit (List RawReadResult) := do
  ensureConnected peer config.toMcConfig
  let plans ← liftExcept (planReadBatch items config.maxWordPointsPerAccess
    config.maxBitPointsPerAccess config.maxMergeGapPoints)
  let results ← readPlans peer fmt config plans []
  return sortByKey RawReadResult.itemId results

end ForgeLink.Drivers.MitsubishiMc
