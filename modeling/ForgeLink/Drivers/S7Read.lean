import ForgeLink.Drivers.S7Address
import ForgeLink.Lib.Runs

/-!
# The S7 driver: batch reads

`decode.rs`, the read half of `batch.rs` and `pdu.rs`, and `read_batch` of
`lib.rs`.  The items of a batch are grouped by area, data block and whether they
are bits, and sorted by address.  Bits are cut into runs of neighbours, bytes
stay together over gaps; a chunk grows while its span fits the budget that the
negotiated PDU leaves.  A chunk is one `Read Var` job with a single pointer,
which is built from its first item, and every item takes its slice of the
answer.
-/

namespace ForgeLink.Drivers.S7comm

open Lib

/-! ## Decoding -/

/-- The error for a type that does not fit the address. -/
def incompatible (fmt : DebugFmt) (ty : S7Type) (expected : DataType) : DriverErrorInfo :=
  .invalidType ("语法宽度 " ++ ty.debug ++ " 与期望类型 " ++ fmt.dataType expected ++
    " 不兼容（映射表见模块文档）")

/-- `decode_read`, with the value that `assemble_item` makes of it. -/
def decodeRead (fmt : DebugFmt) (ty : S7Type) (expected : Option DataType) (payload : Bytes) :
    Except DriverErrorInfo RawValue :=
  if payload.length ≠ ty.widthBytes then
    let len := payload.length
    let width := ty.widthBytes
    .error (.invalidResponse s!"载荷长度 {len} 与语法宽度 {width} 不符")
  else
    let raw := ofBeBytes payload
    let unsigned : RawValue := .u64 (UInt64.ofNat raw)
    let signed (w : Nat) : RawValue := .i64 (Int64.ofInt (toSigned w raw))
    match ty, expected with
    | .bit, none => .ok (.bool (payload.getD 0 0 &&& 1 ≠ 0))
    | .bit, some .bool => .ok (.bool (payload.getD 0 0 &&& 1 ≠ 0))
    | .bit, some other => .error (incompatible fmt .bit other)
    | .byte, none => .ok unsigned
    | .byte, some .u8 => .ok unsigned
    | .byte, some .u64 => .ok unsigned
    | .byte, some .i8 => .ok (signed 8)
    | .byte, some .i64 => .ok (signed 8)
    | .byte, some other => .error (incompatible fmt .byte other)
    | .word, none => .ok unsigned
    | .word, some .u16 => .ok unsigned
    | .word, some .u64 => .ok unsigned
    | .word, some .i16 => .ok (signed 16)
    | .word, some .i64 => .ok (signed 16)
    | .word, some other => .error (incompatible fmt .word other)
    | .dword, none => .ok unsigned
    | .dword, some .u32 => .ok unsigned
    | .dword, some .u64 => .ok unsigned
    | .dword, some .i32 => .ok (signed 32)
    | .dword, some .i64 => .ok (signed 32)
    | .dword, some .f32 => .ok (.f64 (f32ToF64 (UInt32.ofNat raw)))
    | .dword, some .f64 => .ok (.f64 (f32ToF64 (UInt32.ofNat raw)))
    | .dword, some other => .error (incompatible fmt .dword other)

/-! ## Planning -/

/-- `read_data_budget`; the sum is cut to 16 bits before it is taken off. -/
def readDataBudget (negotiatedPdu : UInt16) (itemCount : Nat) : Nat :=
  negotiatedPdu.toNat - (10 + 4 + 4 * itemCount + 16) % 65536

/-- An item of a plan. -/
structure PlannedItem where
  itemId : Nat
  expectedType : Option DataType
  offsetInData : Nat
  ty : S7Type
  bit : Nat

/-- One read request, and the items that it serves. -/
structure ReadPlan where
  areaCode : UInt8
  db : Nat
  startByte : Nat
  dataLen : Nat
  items : List PlannedItem

/-- The bytes of one element of a type, and its transport size. -/
def S7Type.unit : S7Type → UInt8 × Nat
  | bit => (0x01, 1)
  | byte => (0x03, 1)
  | word => (0x04, 2)
  | dword => (0x06, 4)

/-- `ReadPlan::any_item`: the pointer of a plan whose first item is `first`. -/
def ReadPlan.anyItemOf (plan : ReadPlan) (first : PlannedItem) : AnyItem :=
  let (transportSize, unit) := first.ty.unit
  { transportSize
    length := if first.ty = .bit then 1 else UInt16.ofNat (plan.dataLen / unit)
    areaCode := plan.areaCode, db := UInt16.ofNat plan.db
    byteOffset := UInt32.ofNat plan.startByte
    bit := if first.ty = .bit then UInt8.ofNat first.bit else 0 }

/-- `ReadPlan::any_item`; a plan without items makes the index panic. -/
def ReadPlan.anyItem (plan : ReadPlan) : Except Stop AnyItem :=
  match plan.items with
  | [] => .error .panic
  | first :: _ => .ok (plan.anyItemOf first)

/-- An item with its address. -/
structure Entry where
  itemId : Nat
  expectedType : Option DataType
  address : S7Address

/-- The keys of the groups. -/
structure GroupKey where
  areaCode : UInt8
  db : Nat
  isBit : Bool
deriving DecidableEq

/-- The order of the `BTreeMap`. -/
def GroupKey.le (k l : GroupKey) : Bool :=
  k.areaCode < l.areaCode ∨ (k.areaCode = l.areaCode ∧
    (k.db < l.db ∨ (k.db = l.db ∧ (l.isBit ∨ ¬k.isBit))))

namespace Entry

/-- The key of an entry. -/
def key (e : Entry) : GroupKey :=
  ⟨e.address.area.code, e.address.db, e.address.ty = .bit⟩

/-- The place of an item, in bits. -/
def sortKey (e : Entry) : Nat := e.address.key

/-- The byte after an entry. -/
def endByte (e : Entry) : Nat := e.sortKey / 8 + e.address.ty.widthBytes

end Entry

/-- The first loop of `plan_read_batch`, for one item. -/
def parseItem (item : DriverReadItem) : Except Stop Entry :=
  let wrapped (text : String) : Stop := .error (.invalidAddress (item.address ++ ": " ++ text))
  match parse item.address with
  | .ok address => .ok ⟨item.id, item.expectedType, address⟩
  | .error (.invalidSyntax text) => .error (wrapped text)
  | .error (.outOfRange text) => .error (wrapped text)
  | .error .panic => .error .panic

/-- A bit joins a run if it is the next one. -/
def follows (run : List Entry) (e : Entry) : Bool :=
  match run.getLast? with
  | some prev => prev.sortKey + 1 = e.sortKey
  | none => false

/-- An entry joins a chunk if the span up to its end and the headers fit the budget, and
there are not too many of them. -/
def fits (negotiatedPdu : UInt16) (maxItemsPerPdu : Nat) (chunk : List Entry) (e : Entry) : Bool :=
  let firstKey := (chunk.head?.map Entry.sortKey).getD 0
  let span := e.endByte - firstKey / 8
  let count := chunk.length + 1
  ¬(span + 4 * count > readDataBudget negotiatedPdu count ∨ count > maxItemsPerPdu)

/-- The streams of a sorted group. -/
def streams (key : GroupKey) (group : List Entry) : List (List Entry) :=
  if key.isBit then runs follows group else [group]

/-- The chunks of a sorted group. -/
def cutGroup (negotiatedPdu : UInt16) (maxItemsPerPdu : Nat) (key : GroupKey)
    (group : List Entry) : List (List Entry) :=
  (streams key group).flatMap (runs (fits negotiatedPdu maxItemsPerPdu))

/-- The furthest end of the items of a chunk. -/
def dataEnd (chunk : List Entry) : Nat := (chunk.map Entry.endByte).foldl max 0

/-- The plan of a chunk. -/
def flushRead (key : GroupKey) (chunk : List Entry) : ReadPlan :=
  let firstKey := (chunk.head?.map Entry.sortKey).getD 0
  let startByte := firstKey / 8
  { areaCode := key.areaCode, db := key.db, startByte
    dataLen := dataEnd chunk - startByte
    items := chunk.map fun e : Entry =>
      { itemId := e.itemId, expectedType := e.expectedType
        offsetInData := (e.sortKey - firstKey) / 8, ty := e.address.ty
        bit := e.address.bit : PlannedItem } }

/-- The chunks of a batch. -/
def chunksOf (negotiatedPdu : UInt16) (maxItemsPerPdu : Nat) (entries : List Entry) :
    List (GroupKey × List Entry) :=
  batches GroupKey.le Entry.key Entry.sortKey (cutGroup negotiatedPdu maxItemsPerPdu) entries

/-- The plans of a batch, or the error of its first bad address. -/
def planReadBatch (items : List DriverReadItem) (negotiatedPdu : UInt16) (maxItemsPerPdu : Nat) :
    Except Stop (List ReadPlan) := do
  let entries ← items.mapM parseItem
  .ok ((chunksOf negotiatedPdu maxItemsPerPdu entries).map fun c => flushRead c.1 c.2)

/-! ## PDUs -/

/-- A read job. -/
def buildRead (pduRef : UInt16) (items : List AnyItem) : Bytes :=
  buildJob pduRef ([0x04, UInt8.ofNat items.length] ++ items.flatMap AnyItem.encode) []

/-- `ReadItemResult`, the fields that are read. -/
structure ItemResponse where
  returnCode : UInt8
  payload : Bytes
deriving DecidableEq, Repr

/-- The checks of the parameters of a read answer. -/
def checkReadHeader (param : Bytes) (expectedItems : Nat) : Except Stop Unit := do
  if ← shortOr (param.length < 2) (return (← byteAt param 0) ≠ 0x04) then
    .error (.error (unexpectedFunctionCode 0x04 (param.getD 0 0)))
  else do
    let count ← byteAt param 1
    if count.toNat ≠ expectedItems then
      .error (.error (.invalidResponse
        s!"读响应 item count 不符：期望 {expectedItems}，收到 {count}"))
    else .ok ()

/-- The length of a payload, from the length field `declared`.  Its unit differs between
devices: a single item of words or double words takes what is there. -/
def payloadLen (expectedItems : Nat) (transportSize : UInt8) (declared remaining : Nat) : Nat :=
  if transportSize = 0x01 then (declared + 7) / 8
  else if transportSize ∈ [0x04, 0x05, 0x06, 0x07] then
    if expectedItems = 1 then remaining
    else if (declared + 7) / 8 ≤ remaining then (declared + 7) / 8
    else declared
  else declared

/-- The loop of `parse_read_response`, with the number of items to come. -/
def readItems (expectedItems : Nat) (data : Bytes) :
    Nat → (cursor : Nat) → Except Stop (List ItemResponse)
  | 0, cursor =>
    if cursor ≠ data.length then
      let total := data.length
      .error (.error (.invalidResponse s!"读响应数据区未恰好闭合：消费 {cursor}，实际 {total}"))
    else .ok []
  | n + 1, cursor =>
    if cursor + 4 > data.length then .error (.error (.invalidResponse "读响应数据区截断"))
    else do
      let returnCode ← byteAt data cursor
      let transportSize ← byteAt data (cursor + 1)
      let declared := (← u16Be data (cursor + 2)).toNat
      let len := payloadLen expectedItems transportSize declared (data.length - cursor - 4)
      let start := cursor + 4
      if start + len > data.length then .error (.error (.invalidResponse "读响应载荷越界"))
      else do
        let payload ← slice data start (start + len)
        let next := if start + len < data.length ∧
          len % 2 = 1 then start + len + 1 else start + len
        return ⟨returnCode, payload⟩ :: (← readItems expectedItems data n next)

/-- The items of a read answer. -/
def parseReadResponse (param data : Bytes) (expectedItems : Nat) :
    Except Stop (List ItemResponse) := do
  checkReadHeader param expectedItems
  readItems expectedItems data expectedItems 0

/-! ## The driver -/

variable (peer : Peer)

/-- One pointer read: the part of `execute_read_plan` after the plan's pointer is built. -/
def readPointer (item : AnyItem) : DriverM Own ItemResponse := do
  let r ← nextRef
  let ack ← exchange peer .read r (buildRead r [item])
  match ← liftExcept (parseReadResponse ack.param ack.data 1) with
  | first :: _ => pure first
  | [] => throw .panic

/-- Read the pointer of a plan. -/
def executeReadPlan (plan : ReadPlan) : DriverM Own ItemResponse := do
  let item ← liftExcept plan.anyItem
  readPointer peer item

/-- The result of an item, from the answer to its plan. -/
def assembleItem (fmt : DebugFmt) (response : ItemResponse) (planned : PlannedItem) :
    RawReadResult :=
  if response.returnCode ≠ 0xFF then .failed planned.itemId (itemReturnError response.returnCode)
  else
    let start := planned.offsetInData
    let width := planned.ty.widthBytes
    let total := response.payload.length
    if start + width ≤ total then
      match decodeRead fmt planned.ty planned.expectedType
        ((response.payload.drop start).take width) with
      | .ok value => .good planned.itemId value
      | .error e => .failed planned.itemId (.decodeError e.message)
    else
      .failed planned.itemId
        (.invalidResponse s!"响应载荷越界：偏移 {start} 宽度 {width}，总长 {total}")

/-- The loop of `read_batch` over the plans, with the results so far. -/
def readPlans (fmt : DebugFmt) :
    List ReadPlan → List RawReadResult → DriverM Own (List RawReadResult)
  | [], results => pure results
  | plan :: plans, results => do
    let response ← executeReadPlan peer plan
    readPlans fmt plans (results ++ plan.items.map (assembleItem fmt response))

/-- `S7commDriver::read_batch`. -/
def readBatch (fmt : DebugFmt) (config : S7Config) (items : List DriverReadItem) :
    DriverM Own (List RawReadResult) := do
  let negotiated ← ensureConnected peer config
  let plans ← liftExcept (planReadBatch items negotiated config.maxItemsPerPdu)
  let results ← readPlans peer fmt plans []
  return sortByKey RawReadResult.itemId results

end ForgeLink.Drivers.S7comm
