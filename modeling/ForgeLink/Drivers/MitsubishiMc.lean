import ForgeLink.Drivers.Transport

/-!
# The MC driver

`mc.rs` and `session.rs`, for 3E binary frames.  There is no handshake, and an
answer carries nothing of its request: it is matched by its subheader, the echo
of the routing bytes and its length.

`transact` connects by itself when there is no stream.
-/

namespace ForgeLink.Drivers.MitsubishiMc

open Lib

/-! ## Errors -/

/-- An answer with another subheader. -/
def unexpectedSubheader (got : UInt16) : DriverErrorInfo :=
  .new "unexpected_subheader" ("应答副头错位：期望 0x00D0，收到 " ++ hex16 got) false

/-- An answer with an end code. -/
def mcErrorResponse (endCode : UInt16) : DriverErrorInfo :=
  { code := "mc_error_response", message := "MC 结束代码 " ++ hex16 endCode
    protocolCode := some endCode.toNat, retryable := false }

/-! ## Frames -/

/-- The devices of a PLC. -/
inductive DeviceKind where
  | x
  | y
  | m
  | b
  | s
  | sm
  | d
  | w
  | r
  | zr
  | sd
deriving DecidableEq, Repr

/-- The code of a device in a request. -/
def DeviceKind.code : DeviceKind → UInt8
  | .x => 0x9C
  | .y => 0x9D
  | .m => 0x90
  | .b => 0xA0
  | .s => 0x98
  | .sm => 0x91
  | .d => 0xA8
  | .w => 0xB4
  | .r => 0xAF
  | .zr => 0xB0
  | .sd => 0xA9

/-- The devices of bits. -/
def DeviceKind.isBit (kind : DeviceKind) : Bool := kind ∈ [.x, .y, .m, .b, .s, .sm]

/-- `Routing`. -/
structure Routing where
  networkNo : UInt8
  pcNo : UInt8
  moduleIo : UInt16
  moduleStation : UInt8
deriving DecidableEq, Repr

/-- A routing in a frame. -/
def Routing.encode (routing : Routing) : Bytes :=
  [routing.networkNo, routing.pcNo] ++ leBytes 2 routing.moduleIo.toNat ++ [routing.moduleStation]

/-- The routing of a frame that is long enough. -/
def Routing.decode (frame : Bytes) : Except Stop (Option Routing) :=
  if frame.length < 7 then .ok none
  else do
    .ok (some
      { networkNo := ← byteAt frame 2, pcNo := ← byteAt frame 3, moduleIo := ← u16Le frame 4
        moduleStation := ← byteAt frame 6 })

/-- `Routing` as `{:?}` writes it. -/
def Routing.text (routing : Routing) : String :=
  "Routing \x7b network_no: " ++ toString routing.networkNo ++ ", pc_no: " ++
    toString routing.pcNo ++ ", module_io: " ++ toString routing.moduleIo ++
    ", module_station: " ++ toString routing.moduleStation ++ " \x7d"

/-- `build_command_body`; the monitoring timer is filled in later. -/
def buildCommandBody (command : UInt16) (kind : DeviceKind) (startNumber : UInt32)
    (points : UInt16) (data : Bytes) : Bytes :=
  [0, 0] ++ leBytes 2 command.toNat ++ [0, 0] ++ [kind.code] ++ leBytes 3 startNumber.toNat ++
    leBytes 2 points.toNat ++ data

/-- A request frame, with its length and its timer. -/
def assembleFrame (subheader : UInt16) (routing : Routing) (monitoringTimer : UInt16)
    (body : Bytes) : Bytes :=
  let frame := leBytes 2 subheader.toNat ++ routing.encode ++ leBytes 2 body.length ++ body
  (frame.set 9 (UInt8.ofNat monitoringTimer.toNat)).set 10
    (UInt8.ofNat (monitoringTimer.toNat >>> 8))

/-- A write request. -/
def buildWriteRequest (kind : DeviceKind) (startNumber : UInt32) (points : UInt16) (data : Bytes)
    (monitoringTimer : UInt16) (routing : Routing) : Bytes :=
  let command := if kind.isBit then 0x1402 else 0x1401
  assembleFrame 0x0050 routing monitoringTimer
    (buildCommandBody command kind startNumber points data)

/-- What the head of an answer says. -/
structure ResponseHead where
  endCode : UInt16
  declaredLen : Nat
deriving DecidableEq, Repr

/-- `parse_response_head`: the head, and the body it declares. -/
def parseResponseHead (frame : Bytes) (expectRouting : Routing) :
    Except Stop (ResponseHead × Bytes) :=
  let length := frame.length
  if length < 9 then .error (.error (.invalidResponse s!"应答帧截断：{length} < 9"))
  else do
    let subheader ← u16Le frame 0
    if subheader ≠ 0x00D0 then .error (.error (unexpectedSubheader subheader))
    else
      match ← Routing.decode frame with
      | none => .error (.error (.invalidResponse "应答帧截断"))
      | some gotRouting =>
        if gotRouting ≠ expectRouting then
          .error (.error (.invalidResponse
            ("应答路由区回声不符：期望 " ++ expectRouting.text ++ "，收到 " ++ gotRouting.text)))
        else do
          let declaredLen := (← u16Le frame 7).toNat
          if length < 9 + declaredLen then
            let actual := length - 9
            .error (.error (.invalidResponse s!"应答体不足：声明 {declaredLen}，实际 {actual}"))
          else do
            let body ← slice frame 9 (9 + declaredLen)
            if body.length < 2 then .error (.error (.invalidResponse "应答缺结束代码"))
            else do
              .ok ({ endCode := ← u16Le body 0, declaredLen }, body)

/-- How long the answer to a command is. -/
def expectedRespBodyLen (command points : UInt16) : Nat :=
  if command = 0x0401 then 2 + points.toNat * 2
  else if command = 0x0402 then 2 + (points.toNat + 7) / 8
  else 2

/-! ## Sessions -/

/-- `McConfig`, the fields that a batch write reads. -/
structure McConfig where
  host : String
  port : UInt16
  routing : Routing
  monitoringTimer : UInt16
  maxWordPointsPerAccess : UInt16
  maxBitPointsPerAccess : UInt16

variable (peer : Peer)

/-- `TcpSession::ensure_connected`: three attempts. -/
def ensureConnected (config : McConfig) : DriverM Unit Unit := do
  if ← isConnected then pure ()
  else
    retry (do tcpConnect peer config.host config.port; keepStream) 3

/-- Read a frame: nine bytes, and as many as they declare. -/
def readFrame : DriverM Unit Bytes := do
  if ← isConnected then
    let head ← readStream peer dropStream 9
    let declared := (← liftExcept (u16Le head 7)).toNat
    let body ← readStream peer dropStream declared
    pure (head ++ body)
  else fail (.connectionLost "会话未建立")

/-- The command area of a request: the part that its own length field covers. -/
def commandArea (request : Bytes) : Except Stop Bytes := do
  let dataLen := (← u16Le request 7).toNat
  slice request 9 (9 + dataLen)

/-- The length of the answer body that a command area asks for. -/
def respLenOf (area : Bytes) : Except Stop Nat := do
  .ok (expectedRespBodyLen (← u16Le area 2) (← u16Le area 10))

/-- Send a request and take its answer. -/
def transact (config : McConfig) (kind : FrameKind) (request : Bytes) : DriverM Unit Bytes := do
  ensureConnected peer config
  let area ← liftExcept (commandArea request)
  if area.length < 12 then
    dropStream
    fail (.invalidResponse "请求指令区截断")
  else
    let expectedRespLen ← liftExcept (respLenOf area)
    sendStream peer dropStream kind request
    let frame ← readFrame peer
    let (head, _) ← liftExcept (parseResponseHead frame config.routing)
    let isErrorReply := head.endCode ≠ 0 ∧ head.declaredLen = 2
    if head.declaredLen ≠ expectedRespLen ∧ ¬isErrorReply then
      dropStream
      let declared := head.declaredLen
      fail (.invalidResponse
        s!"应答数据长与期望不符：声明 {declared}，按请求推算 {expectedRespLen}")
    else pure frame

/-! ## The driver -/

/-- One write request, and the items that it serves. -/
structure WritePlan where
  kind : DeviceKind
  startNumber : UInt32
  points : UInt16
  data : Bytes
  itemIds : List Nat

end ForgeLink.Drivers.MitsubishiMc
