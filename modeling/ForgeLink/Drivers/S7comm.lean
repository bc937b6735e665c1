import ForgeLink.Drivers.Transport

/-!
# The S7 driver: frames and sessions

`cotp.rs`, `pdu.rs` and `session.rs`.  Connecting is three steps: TCP, the COTP
connection request, and the setup that negotiates the size of a PDU.  The plans of a
batch depend on that size, so the driver connects first and plans afterwards.  The
answer to a job must carry the reference number of the job.
-/

namespace ForgeLink.Drivers.S7comm

open Lib

/-! ## Errors -/

/-- `S7Error::unexpected_function_code`. -/
def unexpectedFunctionCode (expected got : UInt8) : DriverErrorInfo :=
  .new "unexpected_function_code"
    ("响应功能码错位：期望 " ++ hex8 expected ++ "，收到 " ++ hex8 got) false

/-- `S7Error::s7_error_response`. -/
def s7ErrorResponse (errorClass errorCode : UInt8) : DriverErrorInfo :=
  { code := "s7_error_response"
    message := "S7 整体否定响应：error class " ++ hex8 errorClass ++ ", code " ++ hex8 errorCode
    protocolCode := some (errorClass.toNat * 256 + errorCode.toNat : Nat)
    retryable := false }

/-- `S7Error::access_denied`. -/
def accessDenied (returnCode : UInt8) : DriverErrorInfo :=
  { code := "access_denied", message := "S7 访问被拒（item return " ++ hex8 returnCode ++ "）"
    protocolCode := some returnCode.toNat, retryable := false }

/-- `S7Error::s7_item_error`. -/
def s7ItemError (returnCode : UInt8) : DriverErrorInfo :=
  { code := "s7_item_error", message := "S7 项失败（item return " ++ hex8 returnCode ++ "）"
    protocolCode := some returnCode.toNat, retryable := false }

/-- The error of an item with another return code than success. -/
def itemReturnError (returnCode : UInt8) : DriverErrorInfo :=
  if returnCode = 0x07 then accessDenied returnCode else s7ItemError returnCode

/-- `S7Error::is_transport_level`. -/
def isTransportLevel (e : DriverErrorInfo) : Bool :=
  e.code ∈
    ["connection_lost", "connection_failed", "timeout", "invalid_response",
      "unexpected_function_code"]

/-! ## COTP -/

/-- The address of the PLC in the handshake. -/
def remoteTsap (rack slot : UInt8) : Bytes := [0x03, (rack <<< 5) ||| slot]

/-- The first frame of the handshake. -/
def connectionRequest (localTsap remoteTsap : Bytes) : Bytes :=
  [0x0E, 0xE0, 0x00, 0x00, 0x00, 0x0F, 0x00, 0xC1, 0x02] ++ localTsap ++ [0xC2, 0x02] ++ remoteTsap

/-- A data frame, without its header. -/
def dataTpdu (payload : Bytes) : Bytes := [0x02, 0xF0, 0x80] ++ payload

/-- The frames of the transport that are known. -/
inductive CotpFrame where
  | connectionConfirm
  | data (payload : Bytes)
deriving DecidableEq, Repr

/-- The parser of frames. -/
def parseFrame (frame : Bytes) : Except Stop CotpFrame := do
  let illegal ← shortOr (frame.length < 4) do
    shortOr ((← byteAt frame 0) ≠ 3) (return (← byteAt frame 1) ≠ 0)
  if illegal then
    .error (.error (.invalidResponse ("TPKT 头非法：version=" ++ hex8 (frame.getD 0 0) ++
      " reserved=" ++ hex8 (frame.getD 1 0))))
  else do
    let declared := (← u16Be frame 2).toNat
    if ¬(4 ≤ declared ∧ declared ≤ 65579) ∨ declared ≠ frame.length then
      let length := frame.length
      .error (.error (.invalidResponse s!"TPKT 长度不符：声明 {declared}，实际 {length}"))
    else
      let body ← slice frame 4 frame.length
      if body.length < 2 then .error (.error (.invalidResponse "COTP 头截断"))
      else do
        let li := (← byteAt body 0).toNat
        let tpdu ← byteAt body 1
        if tpdu = 0xD0 then .ok .connectionConfirm
        else if tpdu = 0xF0 then
          let broken ← shortOr (li < 2 ∨ body.length < li + 1)
            (return (← byteAt body 2) &&& 0x80 = 0)
          if broken then .error (.error (.invalidResponse "COTP DT 结构非法"))
          else return .data (← slice body (li + 1) body.length)
        else .error (.error (.invalidResponse ("未预期的 COTP 类型 " ++ hex8 tpdu)))

/-! ## PDUs -/

/-- A pointer into the memory of the PLC. -/
structure AnyItem where
  transportSize : UInt8
  length : UInt16
  areaCode : UInt8
  db : UInt16
  byteOffset : UInt32
  bit : UInt8
deriving DecidableEq, Repr

/-- A pointer in a job. -/
def AnyItem.encode (item : AnyItem) : Bytes :=
  let addr := (item.byteOffset <<< 3) ||| item.bit.toUInt32
  [0x12, 0x0A, 0x10, item.transportSize] ++ beBytes 2 item.length.toNat ++
    beBytes 2 item.db.toNat ++ [item.areaCode] ++ beBytes 3 addr.toNat

/-- A job. -/
def buildJob (pduRef : UInt16) (param data : Bytes) : Bytes :=
  [0x32, 0x01, 0x00, 0x00] ++ beBytes 2 pduRef.toNat ++ beBytes 2 param.length ++
    beBytes 2 data.length ++ param ++ data

/-- The job that negotiates the size of PDUs. -/
def buildSetup (pduRef proposedPdu : UInt16) : Bytes :=
  buildJob pduRef
    ([0xF0, 0x00] ++ beBytes 2 proposedPdu.toNat ++ beBytes 2 proposedPdu.toNat) []

/-- The size of PDUs that the PLC grants. -/
def parseSetupAck (param : Bytes) : Except Stop UInt16 :=
  if 8 ≤ param.length ∧ param[0]? = some 0xF0 then u16Be param 6
  else if 4 ≤ param.length ∧ param[0]? = some 0xF0 then u16Be param 2
  else .error (.error (unexpectedFunctionCode 0xF0 (param.getD 0 0)))

/-- The data of one item of a write job. -/
def writeData (item : AnyItem) (payload : Bytes) : Bytes :=
  [0x00, item.transportSize] ++ beBytes 2 item.length.toNat ++ payload ++
    (if payload.length % 2 = 1 then [0x00] else [])

/-- A write job. -/
def buildWrite (pduRef : UInt16) (items : List (AnyItem × Bytes)) : Bytes :=
  buildJob pduRef
    ([0x05, UInt8.ofNat items.length] ++ items.flatMap fun p => p.1.encode)
    (items.flatMap fun p => writeData p.1 p.2)

/-- `AckParts` and `AckOwned`. -/
structure AckParts where
  pduRef : UInt16
  param : Bytes
  data : Bytes
deriving DecidableEq, Repr

/-- The parser of acknowledgements. -/
def parseAck (pdu : Bytes) : Except Stop AckParts := do
  if ← shortOr (pdu.length < 12) (return (← byteAt pdu 0) ≠ 0x32) then
    let length := pdu.length
    .error (.error (.invalidResponse (s!"Ack 头非法或截断：len={length} b0=" ++ hex8 (pdu.getD 0 0))))
  else do
    let rosctr ← byteAt pdu 1
    if rosctr ≠ 0x03 then .error (.error (unexpectedFunctionCode 0x03 rosctr))
    else do
      let pduRef ← u16Be pdu 4
      let paramLen := (← u16Be pdu 6).toNat
      let dataLen := (← u16Be pdu 8).toNat
      let total := pdu.length
      if total < 12 + paramLen + dataLen then
        .error (.error (.invalidResponse
          s!"Ack 截断：声明参数 {paramLen} + 数据 {dataLen}，总长 {total}"))
      else if 12 + paramLen + dataLen < total then
        .error (.error (.invalidResponse
          s!"Ack 帧有多余尾字节：声明参数 {paramLen} + 数据 {dataLen}，总长 {total}"))
      else do
        let errorClass ← byteAt pdu 10
        let errorCode ← byteAt pdu 11
        if errorClass ≠ 0 ∨ errorCode ≠ 0 then
          .error (.error (s7ErrorResponse errorClass errorCode))
        else do
          let param ← slice pdu 12 (12 + paramLen)
          let data ← slice pdu (12 + paramLen) (12 + paramLen + dataLen)
          .ok { pduRef, param, data }

/-- The return codes of a write answer. -/
def parseWriteResponse (param data : Bytes) (expectedItems : Nat) : Except Stop Bytes := do
  if ← shortOr (param.length < 2) (return (← byteAt param 0) ≠ 0x05) then
    .error (.error (unexpectedFunctionCode 0x05 (param.getD 0 0)))
  else do
    let count ← byteAt param 1
    if count.toNat ≠ expectedItems then
      .error (.error (.invalidResponse
        s!"写响应 item count 不符：期望 {expectedItems}，收到 {count}"))
    else if data.length ≠ expectedItems then
      let length := data.length
      .error (.error (.invalidResponse
        s!"写响应数据区长度不符：期望 {expectedItems} 字节，收到 {length}"))
    else .ok data

/-! ## Sessions -/

/-- What a session keeps: the last reference number, and the negotiated size. -/
structure Own where
  pduRef : UInt16
  negotiatedPdu : UInt16

/-- `S7Config`, the fields that a batch write reads. -/
structure S7Config where
  host : String
  port : UInt16
  rack : UInt8
  slot : UInt8
  reconnect : Bool
  reconnectMaxAttempts : Nat
  maxItemsPerPdu : Nat

variable (peer : Peer)

/-- Send a frame with its header. -/
def sendFrame (kind : FrameKind) (tpdu : Bytes) : DriverM Own Unit := do
  if ← isConnected then
    let len := tpdu.length + 4
    if len > 65579 then fail (.invalidResponse "TPKT 帧超长")
    else sendStream peer dropStream kind ([0x03, 0x00] ++ beBytes 2 len ++ tpdu)
  else fail (.connectionLost "会话未建立")

/-- Read a frame: its header, and as many bytes as it declares. -/
def readFrame : DriverM Own Bytes := do
  if ← isConnected then
    let header ← readStream peer dropStream 4
    if header[0]? ≠ some 3 ∨ header[1]? ≠ some 0 then
      dropStream
      fail (.invalidResponse ("TPKT 版本非法：" ++ hex8 (header.getD 0 0)))
    else
      let declared := max (← liftExcept (u16Be header 2)).toNat 4
      let rest ← readStream peer dropStream (declared - 4)
      pure (header ++ rest)
  else fail (.connectionLost "会话未建立")

/-- The next reference. -/
def nextRef : DriverM Own UInt16 := do
  modifyOwn fun own => { own with pduRef := own.pduRef + 1 }
  pure (← getOwn).pduRef

/-- The checks of an answer: its structure, then its reference number. -/
def checkAck (expectedRef : UInt16) (pdu : Bytes) : Except Stop AckParts := do
  let ack ← parseAck pdu
  if ack.pduRef ≠ expectedRef then
    .error (.error (.invalidResponse ("pdu_ref 不匹配：期望 " ++ hex16 expectedRef ++ "，收到 " ++
      hex16 ack.pduRef)))
  else .ok ack

/-- Send a job and take its acknowledgement. -/
def exchange (kind : FrameKind) (expectedRef : UInt16) (job : Bytes) : DriverM Own AckParts := do
  sendFrame peer kind (dataTpdu job)
  let frame ← readFrame peer
  match ← liftExcept (parseFrame frame) with
  | .connectionConfirm =>
    dropStream
    fail (.invalidResponse "数据阶段收到 COTP CC（失步）")
  | .data s7 =>
    match ← attempt (liftExcept (checkAck expectedRef s7)) with
    | .ok ack => pure ack
    | .error e =>
      if isTransportLevel e then
        dropStream
        fail e
      else fail e

/-- The size of PDUs that the driver asks for. -/
def proposedPduSize : UInt16 := 500

/-- The handshake. -/
def handshake (config : S7Config) : DriverM Own Unit := do
  sendFrame peer .handshake (connectionRequest [0x01, 0x00] (remoteTsap config.rack config.slot))
  let frame ← readFrame peer
  match ← liftExcept (parseFrame frame) with
  | .data _ => fail (.invalidResponse "COTP 握手应答不是 CC")
  | .connectionConfirm =>
    let setupRef ← nextRef
    let ack ← exchange peer .handshake setupRef (buildSetup setupRef proposedPduSize)
    let offered ← liftExcept (parseSetupAck ack.param)
    if offered < 64 then
      fail (.connectionFailed s!"PLC 协商 PDU {offered} 过小（< 64），无法承载单条读取")
    else modifyOwn fun own => { own with negotiatedPdu := min proposedPduSize offered }

/-- `TcpSession::connect`. -/
def connectSession (config : S7Config) : DriverM Own Unit := do
  tcpConnect peer config.host config.port
  keepStream
  match ← attempt (handshake peer config) with
  | .ok () => pure ()
  | .error e =>
    dropStream
    fail e

/-! ## The driver -/

/-- `S7Type`. -/
inductive S7Type where
  | bit
  | byte
  | word
  | dword
deriving DecidableEq, Repr

/-- One write request, and the items that it serves. -/
structure WritePlan where
  areaCode : UInt8
  db : UInt16
  ty : S7Type
  startByte : UInt32
  bit : UInt8
  payload : Bytes
  itemIds : List Nat

/-- The pointer of a plan. -/
def WritePlan.anyItem (plan : WritePlan) : AnyItem :=
  let (transportSize, units) : UInt8 × Nat :=
    match plan.ty with
    | .bit => (0x01, 1)
    | .byte => (0x03, plan.payload.length)
    | .word => (0x04, plan.payload.length / 2)
    | .dword => (0x06, plan.payload.length / 4)
  { transportSize, length := UInt16.ofNat units, areaCode := plan.areaCode, db := plan.db
    byteOffset := plan.startByte, bit := plan.bit }

/-- `S7commDriver::connect`. -/
def connect (config : S7Config) : DriverM Own Unit := do
  if ← isConnected then pure ()
  else
    let attempts := if config.reconnect then max config.reconnectMaxAttempts 1 else 1
    retry (connectSession peer config) attempts

/-- `ensure_connected`: the size that was negotiated. -/
def ensureConnected (config : S7Config) : DriverM Own UInt16 := do
  if ← isConnected then pure (← getOwn).negotiatedPdu
  else
    connect peer config
    pure (← getOwn).negotiatedPdu

end ForgeLink.Drivers.S7comm
