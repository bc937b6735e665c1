import ForgeLink.Drivers.Transport

/-!
# The Modbus driver

`crc.rs`, `frame.rs` and `session.rs`: the frames over TCP (MBAP) and over a
serial line (RTU), and the session of a device.
-/

namespace ForgeLink.Drivers.Modbus

open Lib

/-! ## Errors -/

/-- An exception answer. -/
def modbusException (code : UInt8) (name : String) : DriverErrorInfo :=
  { code := "modbus_exception"
    message := "Modbus 异常 " ++ hex8 code ++ ": " ++ name
    protocolCode := some code.toNat
    retryable := ¬(0x01 ≤ code ∧ code ≤ 0x03) }

/-- The errors after which the line is dropped. -/
def isTransportLevel (e : DriverErrorInfo) : Bool :=
  e.code ∈ ["connection_lost", "connection_failed", "timeout", "invalid_response"]

/-- `map_io_error`. -/
def ioError : IoError → DriverErrorInfo := mapIoError "请求超时：设备未在期限内响应" "I/O 失败："

/-! ## CRC -/

/-- One of the eight shifts of a byte. -/
def crcShift (crc : UInt16) : UInt16 :=
  if crc &&& 1 ≠ 0 then (crc >>> 1) ^^^ 0xA001 else crc >>> 1

/-- One byte of `crc16`. -/
def crcByte (crc : UInt16) (byte : UInt8) : UInt16 :=
  (List.range 8).foldl (fun crc _ => crcShift crc) (crc ^^^ byte.toUInt16)

/-- `crc16`. -/
def crc16 (data : Bytes) : UInt16 := data.foldl crcByte 0xFFFF

/-- `verify`: the last two bytes are the CRC, low byte first. -/
def crcVerify (frame : Bytes) : Bool :=
  if frame.length < 2 then false
  else crc16 (frame.take (frame.length - 2)) =
    UInt16.ofNat (ofLeBytes (frame.drop (frame.length - 2)))

/-! ## Frames -/

/-- `FrameError`; both kinds carry a text, and only the text is used. -/
inductive FrameError where
  | truncated (text : String)
  | invalid (text : String)
deriving DecidableEq, Repr

/-- `frame_error_message`, as the error it is wrapped in. -/
def frameError : FrameError → DriverErrorInfo
  | .truncated m => .invalidResponse ("响应帧无效：" ++ m)
  | .invalid m => .invalidResponse ("响应帧无效：" ++ m)

/-- `is_write_function`: FC05, FC06, FC15 and FC16. -/
def isWriteFunction (function : UInt8) : Bool := function ∈ [0x05, 0x06, 0x0F, 0x10]

/-- How much data the answer to a function has. -/
def expectedDataLen (function : UInt8) (quantity : UInt16) : Nat :=
  if function ∈ [0x01, 0x02] then (quantity.toNat + 7) / 8
  else if function ∈ [0x03, 0x04] then quantity.toNat * 2
  else if isWriteFunction function then 4
  else 0

/-- What the header of an answer says. -/
structure TcpResponseHeader where
  transactionId : UInt16
  unitId : UInt8
  dataLen : Nat
deriving DecidableEq, Repr

/-- `parse_tcp_response_header`, with its error wrapped. -/
def parseTcpResponseHeader (header : Bytes) : Except Stop TcpResponseHeader :=
  if header.length < 7 then .error (.error (frameError (.truncated "MBAP 头不足 7 字节")))
  else do
    let protocol ← u16Be header 2
    if protocol ≠ 0 then .error (.error (frameError (.invalid "protocol id 非 0")))
    else do
      let length ← u16Be header 4
      if length.toNat < 2 then .error (.error (frameError (.invalid "MBAP length 小于 2")))
      else do
        .ok { transactionId := ← u16Be header 0, unitId := ← byteAt header 6
              dataLen := length.toNat - 1 }

/-- `rtu_response_total_len`, with its error wrapped. -/
def rtuResponseTotalLen (frame : Bytes) (requestFunction : UInt8) (requestQuantity : UInt16) :
    Except Stop Nat :=
  if frame.length < 2 then .error (.error (frameError (.truncated "RTU 响应不足 2 字节")))
  else do
    let raw ← byteAt frame 1
    let function := raw &&& 0x7F
    if function ≠ requestFunction then
      .error (.error (frameError (.invalid "响应功能码与请求不一致")))
    else
      let dataLen :=
        if raw &&& 0x80 ≠ 0 then 1
        else if isWriteFunction function then expectedDataLen function requestQuantity
        else 1 + expectedDataLen function requestQuantity
      .ok (2 + dataLen + 2)

/-- `RtuResponseMeta`, the fields that are read. -/
structure RtuResponseMeta where
  function : UInt8
  isException : Bool
deriving DecidableEq, Repr

/-- `parse_rtu_response_meta`, with its error wrapped. -/
def parseRtuResponseMeta (frame : Bytes) : Except Stop RtuResponseMeta :=
  if frame.length < 4 then .error (.error (frameError (.truncated "RTU 响应不足 4 字节")))
  else do
    let raw ← byteAt frame 1
    .ok { function := raw &&& 0x7F, isException := raw &&& 0x80 ≠ 0 }

/-- `exception_code_name`, the name. -/
def exceptionCodeName (code : UInt8) : String :=
  match code with
  | 0x01 => "illegal function"
  | 0x02 => "illegal data address"
  | 0x03 => "illegal data value"
  | 0x04 => "slave device failure"
  | 0x05 => "acknowledge"
  | 0x06 => "slave device busy"
  | 0x08 => "memory parity error"
  | 0x0A => "gateway path unavailable"
  | 0x0B => "gateway target device failed to respond"
  | _ => "unknown modbus exception"

/-! ## Sessions -/

/-- The line of a device: `TcpTransport` or `RtuTransport`. -/
inductive Line where
  | tcp (host : String) (port : UInt16)
  | rtu (serialPort : String)
deriving DecidableEq, Repr

/-- What a session keeps: the transaction number (TCP). -/
structure Own where
  transactionId : UInt16

variable (peer : Peer)

/-- `TcpTransport::connect`. -/
def connectTcp (host : String) (port : UInt16) : DriverM Own Unit := do
  if ← isConnected then pure ()
  else
    match ← ask .resolved peer.resolve with
    | .error e => fail (.connectionFailed (s!"解析主机 {host}:{port} 失败：" ++ e.text))
    | .ok targets =>
      match ← dialAll peer (List.range targets) none with
      | .error last =>
        let reason := (last.map IoError.text).getD "无解析地址"
        fail (.connectionFailed s!"连接 {host}:{port} 全部解析地址失败：{reason}")
      | .ok () =>
        match ← ask .configured peer.configure with
        | .error e => fail (.connectionFailed ("设置读超时失败：" ++ e.text))
        | .ok () =>
          match ← ask .configured peer.configure with
          | .error e => fail (.connectionFailed ("设置写超时失败：" ++ e.text))
          | .ok () => keepStream

/-- `RtuTransport::connect`. -/
def connectRtu (serialPort : String) : DriverM Own Unit := do
  if ← isConnected then pure ()
  else
    match ← ask .serialOpened peer.openSerial with
    | .error e => fail (.connectionFailed (s!"打开串口 {serialPort} 失败：" ++ e.text))
    | .ok () => keepStream

/-- `read_exact`, after a check that the stream is there. -/
def readBytes (missing : String) (len : Nat) : DriverM Own Bytes := do
  if ← isConnected then
    match ← readExact peer len with
    | .ok bytes => pure bytes
    | .error e => fail (ioError e)
  else fail (.connectionLost missing)

/-- `Transport::connect`. -/
def connectLine : Line → DriverM Own Unit
  | .tcp host port => connectTcp peer host port
  | .rtu serialPort => connectRtu peer serialPort

/-! ## The driver -/

/-- The order of the words of a number. -/
inductive WordOrder where
  | abcd
  | cdab
deriving DecidableEq, Repr

/-- `ModbusConfig`, the fields that a batch reads. -/
structure ModbusConfig where
  line : Line
  unitId : UInt8
  wordOrder : WordOrder
  reconnect : Bool
  reconnectMaxAttempts : Nat

/-- A write item as the driver takes it. -/
structure WriteRequest where
  id : Nat
  address : String
  valueType : UInt32
  value : RawValue

/-- `WritePlan`, the fields that sending it reads. -/
structure WritePlan where
  unitId : UInt8
  function : UInt8
  startOffset : UInt16
  payload : Bytes
  itemIds : List Nat

/-- Connect, as often as the configuration allows. -/
def connect (config : ModbusConfig) : DriverM Own Unit := do
  if ← isConnected then pure ()
  else
    let attempts := if config.reconnect then max config.reconnectMaxAttempts 1 else 1
    retry (connectLine peer config.line) attempts

/-- Connect if there is no connection. -/
def ensureConnectedBeforePlan (config : ModbusConfig) : DriverM Own Unit := do
  if ← isConnected then pure () else connect peer config

end ForgeLink.Drivers.Modbus
