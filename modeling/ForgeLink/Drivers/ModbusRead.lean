import ForgeLink.Drivers.Modbus
import ForgeLink.Drivers.ModbusAddress
import ForgeLink.Lib.Runs

/-!
# The Modbus driver: batch reads

`decode.rs`, the read half of `batch.rs` and `session.rs`, and `read_batch` of
`lib.rs`.  The items of a batch are grouped by unit and segment and sorted by
address; addresses that follow each other make a run, a run is cut where the
widths of its items add up to more than one frame may ask for, and every piece
is one read frame.  The items of a frame are then decoded at their own offsets
in its data.
-/

namespace ForgeLink.Drivers.Modbus

open Lib

/-! ## Decoding -/

/-- The registers of a type. -/
def registerWidth : DataType → Option Nat
  | .u8 => some 1
  | .i8 => some 1
  | .u16 => some 1
  | .i16 => some 1
  | .u32 => some 2
  | .i32 => some 2
  | .f32 => some 2
  | .u64 => some 4
  | .i64 => some 4
  | .f64 => some 4
  | .bool => some 1
  | .string => none
  | .bytes => none
  | .array _ => none
  | .struct _ => none

/-- One bit of the data. -/
def decodeBit (bytes : Bytes) (bitOffset : Nat) : Except String Bool :=
  match bytes[bitOffset / 8]? with
  | some byte => .ok ((byte >>> UInt8.ofNat (bitOffset % 8)) &&& 1 ≠ 0)
  | none =>
    let len := bytes.length
    .error s!"位偏移 {bitOffset} 超出响应数据长度 {len}"

/-- `reorder_words4`. -/
def reorderWords4 (bytes : Bytes) : WordOrder → Bytes
  | .abcd => bytes
  | .cdab => bytes.drop 2 ++ bytes.take 2

/-- `reorder_words8`. -/
def reorderWords8 (bytes : Bytes) : WordOrder → Bytes
  | .abcd => bytes
  | .cdab =>
    bytes.drop 6 ++ (bytes.take 6).drop 4 ++ (bytes.take 4).drop 2 ++ bytes.take 2

/-- The message of an answer that is too short for a value. -/
def tooShort (words byteStart byteEnd len : Nat) : String :=
  s!"值需要 {words} 个寄存器（字节 {byteStart}..{byteEnd}），响应只有 {len} 字节"

/-- `decode_u16`. -/
def decodeU16 (bytes : Bytes) (regOffset : Nat) : Except String Nat :=
  let byteStart := regOffset * 2
  let byteEnd := byteStart + 2
  if bytes.length < byteEnd then .error (tooShort 1 byteStart byteEnd bytes.length)
  else .ok (ofBeBytes ((bytes.drop byteStart).take 2))

/-- The value of a type in its registers: the `match` of `decode_register_value`. -/
def decodeSlice (fmt : DebugFmt) (dataType : DataType) (bytes : Bytes) (wordOrder : WordOrder) :
    Except String RawValue :=
  let w4 := ofBeBytes (reorderWords4 bytes wordOrder)
  let w8 := ofBeBytes (reorderWords8 bytes wordOrder)
  match dataType with
  | .u8 => .ok (.u64 (bytes.getD 1 0).toUInt64)
  | .i8 => .ok (.i64 (Int64.ofInt (toSigned 8 (bytes.getD 1 0).toNat)))
  | .u16 => .ok (.u64 (UInt64.ofNat (ofBeBytes bytes)))
  | .i16 => .ok (.i64 (Int64.ofInt (toSigned 16 (ofBeBytes bytes))))
  | .u32 => .ok (.u64 (UInt64.ofNat w4))
  | .i32 => .ok (.i64 (Int64.ofInt (toSigned 32 w4)))
  | .f32 => .ok (.f64 (f32ToF64 (UInt32.ofNat w4)))
  | .u64 => .ok (.u64 (UInt64.ofNat w8))
  | .i64 => .ok (.i64 (Int64.ofInt (toSigned 64 w8)))
  | .f64 => .ok (.f64 (UInt64.ofNat w8))
  | t => .error ("类型 " ++ fmt.dataType t ++ " 不参与 Modbus 寄存器解码")

/-- The value of an item, from the data of its frame. -/
def decodeRegisterValue (fmt : DebugFmt) (kind : RegisterKind) (bytes : Bytes) (regOffset : Nat)
    (dataType : Option DataType) (wordOrder : WordOrder) : Except String RawValue :=
  match dataType with
  | none =>
    if kind.isBit then (decodeBit bytes regOffset).map .bool
    else (decodeU16 bytes regOffset).map fun v => .u64 (UInt64.ofNat v)
  | some t =>
    if kind.isBit then
      match t with
      | .bool => (decodeBit bytes regOffset).map .bool
      | t => .error ("位段只支持 Bool 类型，收到 " ++ fmt.dataType t)
    else
      match t with
      | .bool => .error ("寄存器段（" ++ kind.debug ++ "）不支持 Bool 类型，请改用位段地址")
      | t =>
        match registerWidth t with
        | none => .error ("类型 " ++ fmt.dataType t ++ " 不参与 Modbus 寄存器解码")
        | some words =>
          let byteStart := regOffset * 2
          let byteEnd := byteStart + words * 2
          if bytes.length < byteEnd then
            .error (tooShort words byteStart byteEnd bytes.length)
          else decodeSlice fmt t ((bytes.drop byteStart).take (words * 2)) wordOrder

/-! ## Planning -/

/-- The registers of one request. -/
def maxRegistersPerRequest : Nat := 125

/-- The bits of one request. -/
def maxBitsPerRequest : Nat := 2000

/-- The limit of a frame. -/
def readLimit (kind : RegisterKind) : Nat :=
  if kind.isBit then maxBitsPerRequest else maxRegistersPerRequest

/-- The registers or bits of an item. -/
def itemWidth (kind : RegisterKind) (expectedType : Option DataType) : Nat :=
  if kind.isBit then 1 else (expectedType.bind registerWidth).getD 1

/-- An item with its address. -/
structure GroupEntry where
  itemId : Nat
  address : ModbusAddress
  expectedType : Option DataType

/-- The units that an entry takes. -/
def GroupEntry.width (e : GroupEntry) : Nat := itemWidth e.address.kind e.expectedType

/-- An item of a plan. -/
structure PlannedItem where
  itemId : Nat
  offsetInFrame : Nat
  expectedType : Option DataType
  width : Nat

/-- One read request, and the items that it serves. -/
structure ReadPlan where
  unitId : UInt8
  kind : RegisterKind
  startOffset : Nat
  quantity : Nat
  items : List PlannedItem

/-- The keys of the groups: unit and segment. -/
abbrev GroupKey := UInt8 × RegisterKind

/-- The order of the `BTreeMap`. -/
def GroupKey.le (k l : GroupKey) : Bool :=
  k.1 < l.1 ∨ (k.1 = l.1 ∧ k.2.rank ≤ l.2.rank)

/-- The key of an entry. -/
def GroupEntry.key (e : GroupEntry) : GroupKey := (e.address.unitId, e.address.kind)

/-- The first loop of `plan_batch`, for one item. -/
def parseItem (fmt : DebugFmt) (defaultUnitId : UInt8) (item : DriverReadItem) :
    Except DriverErrorInfo GroupEntry :=
  match parseAddress fmt item.address defaultUnitId with
  | .error e => .error (.invalidAddress (e.text fmt))
  | .ok address =>
    let width := itemWidth address.kind item.expectedType
    if address.offset + width > 65536 then
      let canonical := address.canonical
      .error (.invalidAddress s!"地址 {canonical} 连同类型宽度 {width} 超出协议偏移上限 65535")
    else .ok ⟨item.id, address, item.expectedType⟩

/-- An entry joins the run if its address is the next one. -/
def follows (run : List GroupEntry) (e : GroupEntry) : Bool :=
  match run.getLast? with
  | some prev => e.address.address = prev.address.address + 1
  | none => true

/-- An entry joins the frame if the widths still add up to at most the limit. -/
def fits (limit : Nat) (frame : List GroupEntry) (e : GroupEntry) : Bool :=
  (frame.map GroupEntry.width).sum + e.width ≤ limit

/-- The runs of a sorted group, each cut into frames. -/
def cutGroup (key : GroupKey) (group : List GroupEntry) : List (List GroupEntry) :=
  (runs follows group).flatMap (runs (fits (readLimit key.2)))

/-- `emit_plan`, for one frame. -/
def emitPlan (key : GroupKey) (frame : List GroupEntry) : ReadPlan :=
  let chunkStart := (frame.head?.map fun e => e.address.offset).getD 0
  let items := frame.map fun e : GroupEntry =>
    { itemId := e.itemId, offsetInFrame := e.address.offset - chunkStart
      expectedType := e.expectedType, width := e.width : PlannedItem }
  { unitId := key.1, kind := key.2, startOffset := chunkStart
    quantity := (items.getLast?.map fun last => last.offsetInFrame + last.width).getD 0, items }

/-- The frames of a batch. -/
def framesOf (entries : List GroupEntry) : List (GroupKey × List GroupEntry) :=
  batches GroupKey.le GroupEntry.key (·.address.address) cutGroup entries

/-- The plans of a batch, or the error of its first bad address. -/
def planBatch (fmt : DebugFmt) (items : List DriverReadItem) (defaultUnitId : UInt8) :
    Except DriverErrorInfo (List ReadPlan) := do
  let entries ← items.mapM (parseItem fmt defaultUnitId)
  .ok ((framesOf entries).map fun f => emitPlan f.1 f.2)

/-! ## Frames -/

/-- A read request over TCP. -/
def buildTcpReadRequest (transactionId : UInt16) (unitId function : UInt8)
    (startOffset quantity : UInt16) : Bytes :=
  beBytes 2 transactionId.toNat ++ [0, 0] ++ beBytes 2 6 ++ [unitId, function] ++
    beBytes 2 startOffset.toNat ++ beBytes 2 quantity.toNat

/-- A read request on a serial line. -/
def buildRtuReadRequest (unitId function : UInt8) (startOffset quantity : UInt16) : Bytes :=
  let frame := [unitId, function] ++ beBytes 2 startOffset.toNat ++ beBytes 2 quantity.toNat
  frame ++ leBytes 2 (crc16 frame).toNat

/-! ## Sessions -/

variable (peer : Peer)

/-- `write_all` of a read request, after a check that the stream is there. -/
def requestBytes (missing failed : String) (frame : Bytes) : DriverM Own Unit := do
  if ← isConnected then
    match ← writeAll peer .read frame with
    | .ok () => pure ()
    | .error e => fail (.connectionLost (failed ++ e.text))
  else fail (.connectionLost missing)

/-- The checks of the body of a TCP answer. -/
def checkReadBody (function : UInt8) (quantity : UInt16) (body : Bytes) : Except Stop Bytes :=
  match body with
  | [] => .error (.error (.invalidResponse "响应体为空"))
  | raw :: rest =>
    let response := raw &&& 0x7F
    if response ≠ function then
      .error (.error (.invalidResponse
        ("功能码不匹配（期望 " ++ hex8 function ++ "，收到 " ++ hex8 response ++ "）")))
    else if raw &&& 0x80 ≠ 0 then
      if body.length ≠ 2 then
        .error (.error (.invalidResponse
          ("异常响应长度不符（" ++ toString body.length ++ " 字节，期望 2）")))
      else do
        let code ← byteAt body 1
        .error (.error (modbusException code (exceptionCodeName code)))
    else
      let expected := expectedDataLen function quantity
      let count := rest.getD 0 0
      if body.length ≠ expected + 2 ∨ count.toNat ≠ expected then
        .error (.error (.invalidResponse
          ("响应体长度不符（声明 " ++ toString count ++ " 字节计数，body " ++ toString body.length ++
            " 字节，期望 " ++ toString (expected + 2) ++ "）")))
      else .ok (body.drop 2)

/-- `TcpTransport::read_transaction`. -/
def readTcp (unitId function : UInt8) (startOffset quantity : UInt16) : DriverM Own Bytes := do
  let missing := "TCP 连接未建立或已断开"
  modifyOwn fun own => { own with transactionId := own.transactionId + 1 }
  let transactionId := (← getOwn).transactionId
  let request := buildTcpReadRequest transactionId unitId function startOffset quantity
  requestBytes peer missing "发送请求失败：" request
  let header ← readBytes peer missing 7
  let response ← liftExcept (parseTcpResponseHeader header)
  if response.transactionId ≠ transactionId then
    let got := response.transactionId
    fail (.invalidResponse s!"事务号不匹配（期望 {transactionId}，收到 {got}）")
  else if response.unitId ≠ unitId then
    let got := response.unitId
    fail (.invalidResponse s!"从站号不匹配（期望 {unitId}，收到 {got}）")
  else
    let body ← readBytes peer missing response.dataLen
    liftExcept (checkReadBody function quantity body)

/-- The checks of a complete RTU answer. -/
def checkReadFrame (function : UInt8) (quantity : UInt16) (frame : Bytes) : Except Stop Bytes :=
  if ¬crcVerify frame then .error (.error (.invalidResponse "RTU 帧 CRC 校验失败"))
  else do
    let response ← parseRtuResponseMeta frame
    if response.function ≠ function then
      .error (.error (.invalidResponse ("RTU 功能码不匹配（期望 " ++ hex8 function ++ "，收到 " ++
        hex8 response.function ++ "）")))
    else if response.isException then do
      let code ← byteAt frame 2
      .error (.error (modbusException code (exceptionCodeName code)))
    else do
      let expected := expectedDataLen function quantity
      let count ← byteAt frame 2
      if count.toNat ≠ expected then
        .error (.error (.invalidResponse
          s!"RTU 字节计数不符（声明 {count}，期望 {expected}）"))
      else slice frame 3 (frame.length - 2)

/-- `RtuTransport::read_transaction`. -/
def readRtu (unitId function : UInt8) (startOffset quantity : UInt16) : DriverM Own Bytes := do
  let missing := "串口未打开或已关闭"
  let request := buildRtuReadRequest unitId function startOffset quantity
  requestBytes peer missing "发送 RTU 帧失败：" request
  let head ← readBytes peer missing 2
  let got ← liftExcept (byteAt head 0)
  if got ≠ unitId then
    fail (.invalidResponse s!"RTU 从站号不匹配（期望 {unitId}，收到 {got}）")
  else
    let total ← liftExcept (rtuResponseTotalLen head function quantity)
    let rest ← readBytes peer missing (total - 2)
    liftExcept (checkReadFrame function quantity (head ++ rest))

/-- A read transaction on either line. -/
def readTransaction : Line → UInt8 → UInt8 → UInt16 → UInt16 → DriverM Own Bytes
  | .tcp _ _ => readTcp peer
  | .rtu _ => readRtu peer

/-! ## The driver -/

/-- Read the data of a plan; an error of the transport drops the line. -/
def requestPlan (config : ModbusConfig) (plan : ReadPlan) : DriverM Own Bytes := do
  match ← attempt (readTransaction peer config.line plan.unitId plan.kind.functionCode
    (UInt16.ofNat plan.startOffset) (UInt16.ofNat plan.quantity)) with
  | .ok data => pure data
  | .error e =>
    if isTransportLevel e then
      dropStream
      fail e
    else fail e

/-- The result of an item. -/
def decodeItem (fmt : DebugFmt) (kind : RegisterKind) (data : Bytes) (wordOrder : WordOrder)
    (planned : PlannedItem) : RawReadResult :=
  match decodeRegisterValue fmt kind data planned.offsetInFrame planned.expectedType wordOrder with
  | .ok value => .good planned.itemId value
  | .error message => .failed planned.itemId (.decodeError message)

/-- The loop of `read_batch` over the plans, with the results so far. -/
def readPlans (fmt : DebugFmt) (config : ModbusConfig) :
    List ReadPlan → List RawReadResult → DriverM Own (List RawReadResult)
  | [], results => pure results
  | plan :: plans, results => do
    ensureConnectedBeforePlan peer config
    match ← attempt (requestPlan peer config plan) with
    | .ok data =>
      readPlans fmt config plans
        (results ++ plan.items.map (decodeItem fmt plan.kind data config.wordOrder))
    | .error e =>
      if isTransportLevel e then fail e
      else readPlans fmt config plans (results ++ plan.items.map (.failed ·.itemId e))

/-- A batch read. -/
def readBatch (fmt : DebugFmt) (config : ModbusConfig) (items : List DriverReadItem) :
    DriverM Own (List RawReadResult) := do
  match planBatch fmt items config.unitId with
  | .error e => fail e
  | .ok plans =>
    let results ← readPlans peer fmt config plans []
    return sortByKey RawReadResult.itemId results

end ForgeLink.Drivers.Modbus
