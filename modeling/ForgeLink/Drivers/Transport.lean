import ForgeLink.Drivers.Abi
import ForgeLink.Lib.Weakest

/-!
# What the drivers do to the transport

The part that the session layers of the drivers have in common: a stream
that is there or not, calls to the operating system that may fail, and an error
that ends the batch.

What the other side does is a `Peer`: it answers every call as a function of all
the calls before it, so a theorem for every peer holds for every transport
behaviour.  A session keeps the log of its calls, newest first.  A frame is
logged when it is handed to the transport, whatever becomes of it, together with
what the driver sends it for; the log is what the results speak about, and no
driver reads it.
-/

namespace ForgeLink.Drivers

open Lib

/-! ## Errors -/

/-- `io::ErrorKind`, as far as the drivers look. -/
inductive ErrorKind where
  | timedOut
  | wouldBlock
  | other
deriving DecidableEq, Repr

/-- `io::Error`. -/
structure IoError where
  kind : ErrorKind
  text : String
deriving DecidableEq, Repr

/-- How a function of a driver ends without a value. -/
inductive Stop where
  | error (e : DriverErrorInfo)
  | panic
deriving DecidableEq, Repr

namespace DriverErrorInfo

/-- The `new` of the four error types. -/
def new (code message : String) (retryable : Bool) : DriverErrorInfo :=
  { code, message, protocolCode := none, retryable }

/-- There is no connection. -/
def connectionFailed (message : String) : DriverErrorInfo := new "connection_failed" message true

/-- The connection is lost. -/
def connectionLost (message : String) : DriverErrorInfo := new "connection_lost" message true

/-- An answer that cannot be right. -/
def invalidResponse (message : String) : DriverErrorInfo := new "invalid_response" message false

/-- An address that cannot be read. -/
def invalidAddress (message : String) : DriverErrorInfo := new "invalid_address" message false

/-- A value of another type. -/
def invalidType (message : String) : DriverErrorInfo := new "invalid_type" message false

/-- Data that cannot be decoded. -/
def decodeError (message : String) : DriverErrorInfo := new "decode_error" message false

/-- `timeout`; the text differs between the drivers. -/
def timeout (message : String) : DriverErrorInfo := new "timeout" message true

end DriverErrorInfo

/-- `map_io_error`: the text of a timeout, and what precedes the text of another
error. -/
def mapIoError (timeoutText lostPrefix : String) (e : IoError) : DriverErrorInfo :=
  match e.kind with
  | .timedOut => .timeout timeoutText
  | .wouldBlock => .timeout timeoutText
  | .other => .connectionLost (lostPrefix ++ e.text)

/-! ## Indexing -/

/-- `bs[i]`. -/
def byteAt (bs : Bytes) (i : Nat) : Except Stop UInt8 :=
  match bs[i]? with
  | some b => .ok b
  | none => .error .panic

/-- `bs[from..to]`. -/
def slice (bs : Bytes) (start stop : Nat) : Except Stop Bytes :=
  if start ≤ stop ∧ stop ≤ bs.length then .ok ((bs.drop start).take (stop - start))
  else .error .panic

/-- `first || second`: the second condition is evaluated only if the first fails. -/
def shortOr (first : Bool) (second : Except Stop Bool) : Except Stop Bool :=
  if first then .ok true else second

/-- `u16::from_be_bytes([bs[i], bs[i + 1]])`. -/
def u16Be (bs : Bytes) (i : Nat) : Except Stop UInt16 := do
  .ok (UInt16.ofNat (ofBeBytes [← byteAt bs i, ← byteAt bs (i + 1)]))

/-- `u16::from_le_bytes([bs[i], bs[i + 1]])`. -/
def u16Le (bs : Bytes) (i : Nat) : Except Stop UInt16 := do
  .ok (UInt16.ofNat (ofLeBytes [← byteAt bs i, ← byteAt bs (i + 1)]))

section

variable {E : Stop → Prop}

@[simp] theorem fails_byteAt (panics : E .panic) (bs : Bytes) (i : Nat) :
    Fails E (byteAt bs i) := by
  unfold byteAt
  split <;> simp [panics]

@[simp] theorem fails_slice (panics : E .panic) (bs : Bytes) (start stop : Nat) :
    Fails E (slice bs start stop) := by
  simp [slice, panics]

@[simp] theorem fails_u16Le (panics : E .panic) (bs : Bytes) (i : Nat) : Fails E (u16Le bs i) := by
  simp [u16Le, panics]

end

/-- `{:#06x}` of a `u16`. -/
def hex16 (n : UInt16) : String := "0x" ++ hexDigits 4 n.toNat

/-! ## Sessions -/

/-- What a frame is sent for. -/
inductive FrameKind where
  | handshake
  | discovery
  | read
  | write
deriving DecidableEq, Repr

/-- A call to the transport. -/
inductive Event where
  | resolved
  | dialled (target : Nat)
  | configured
  | serialOpened
  | sent (kind : FrameKind) (frame : Bytes)
  | awaited (len : Nat)
deriving DecidableEq, Repr

/-- Is this a write frame handed to the transport? -/
def Event.isWrite : Event → Bool
  | .sent .write _ => true
  | _ => false

/-- The other side and the operating system: an answer to every call, given the
calls before it. -/
structure Peer where
  /-- `to_socket_addrs`: how many addresses the name has. -/
  resolve : List Event → Except IoError Nat
  /-- `TcpStream::connect_timeout`. -/
  dial : List Event → Nat → Except IoError Unit
  /-- `set_read_timeout`, `set_write_timeout`, `set_nodelay`. -/
  configure : List Event → Except IoError Unit
  /-- `serialport::open`. -/
  openSerial : List Event → Except IoError Unit
  /-- `write_all`. -/
  writeAll : List Event → Bytes → Except IoError Unit
  /-- `read_exact`. -/
  readExact : List Event → (len : Nat) → Except IoError (Fin len → UInt8)

/-- The state of a driver: whether it has a stream, the calls made so far, and
what it keeps for its own protocol. -/
structure Session (κ : Type) where
  stream : Bool
  log : List Event
  own : κ

/-- A function of a driver. -/
abbrev DriverM (κ : Type) := EStateM Stop (Session κ)

section

variable {κ : Type} {α : Type}

/-- `return Err(e)`. -/
def fail (e : DriverErrorInfo) : DriverM κ α := throw (.error e)

/-- Log a call and take the answer. -/
def ask (event : Event) (answer : List Event → α) : DriverM κ α := do
  let s ← get
  set { s with log := event :: s.log }
  pure (answer s.log)

/-- `self.stream = None`. -/
def dropStream : DriverM κ Unit := modify fun s => { s with stream := false }

/-- `self.stream = Some(stream)`. -/
def keepStream : DriverM κ Unit := modify fun s => { s with stream := true }

/-- There is a stream. -/
def isConnected : DriverM κ Bool := do pure (← get).stream

/-- What the driver keeps for its protocol. -/
def getOwn : DriverM κ κ := do pure (← get).own

/-- Change what the driver keeps for its protocol. -/
def modifyOwn (f : κ → κ) : DriverM κ Unit := modify fun s => { s with own := f s.own }

/-- `match result { Ok(v) => Ok(v), Err(e) => Err(..) }`: a driver error becomes a
value, a panic goes on. -/
def attempt (m : DriverM κ α) : DriverM κ (Except DriverErrorInfo α) :=
  tryCatch (do pure (.ok (← m))) fun
    | .error e => pure (.error e)
    | .panic => throw .panic

section

variable {Q : α → Session κ → Prop} {E : Stop → Session κ → Prop} {s : Session κ}

@[simp] theorem wp_fail (e : DriverErrorInfo) :
    wp (fail e : DriverM κ α) Q E s ↔ E (.error e) s := Iff.rfl

@[simp] theorem wp_ask (event : Event) (answer : List Event → α) :
    wp (ask event answer : DriverM κ α) Q E s ↔
      Q (answer s.log) { s with log := event :: s.log } := Iff.rfl

@[simp] theorem wp_isConnected {Q : Bool → Session κ → Prop} :
    wp isConnected Q E s ↔ Q s.stream s := Iff.rfl

@[simp] theorem wp_attempt {Q : Except DriverErrorInfo α → Session κ → Prop} (m : DriverM κ α) :
    wp (attempt m) Q E s ↔
      wp m (fun a => Q (.ok a))
        (fun stop t => match stop with
          | .error e => Q (.error e) t
          | .panic => E .panic t) s := by
  rw [attempt, wp_tryCatch, wp_bind]
  unfold wp
  cases m s with
  | ok a t => rfl
  | error stop t => cases stop <;> rfl

end

variable (peer : Peer)

/-- Write a frame. -/
def writeAll (kind : FrameKind) (frame : Bytes) : DriverM κ (Except IoError Unit) :=
  ask (.sent kind frame) fun log => peer.writeAll log frame

/-- `read_exact` into a buffer of `len` bytes. -/
def readExact (len : Nat) : DriverM κ (Except IoError Bytes) :=
  ask (.awaited len) fun log => (peer.readExact log len).map List.ofFn

/-- The loop over the resolved addresses: stop at the first that answers, and
remember the last error. -/
def dialAll : List Nat → Option IoError → DriverM κ (Except (Option IoError) Unit)
  | [], last => pure (.error last)
  | target :: targets, _ => do
    match ← ask (.dialled target) fun log => peer.dial log target with
    | .ok () => pure (.ok ())
    | .error e => dialAll targets (some e)

/-- The reconnect loop: `attempts` calls of `connect`, and the error of the last
one. -/
def retry (connect : DriverM κ Unit) : Nat → DriverM κ Unit
  | 0 => throw .panic
  | attempts + 1 => do
    match ← attempt connect with
    | .ok () => pure ()
    | .error e => if attempts = 0 then fail e else retry connect attempts

/-! ## A TCP session -/

/-- `tcp_connect` of the S7, MC and EtherNet/IP drivers. -/
def tcpConnect (host : String) (port : UInt16) : DriverM κ Unit := do
  match ← ask .resolved peer.resolve with
  | .error e => fail (.connectionFailed (s!"地址解析失败 {host}:{port}: " ++ e.text))
  | .ok targets =>
    match ← dialAll peer (List.range targets) none with
    | .ok () =>
      -- the results of `set_nodelay` and of the two timeouts are dropped
      let _ ← ask .configured peer.configure
      let _ ← ask .configured peer.configure
      let _ ← ask .configured peer.configure
    | .error last =>
      let reason := (last.map IoError.text).getD "无可用地址"
      fail (.connectionFailed s!"TCP 建连失败 {host}:{port}: {reason}")

/-- `WriteRequest` of the S7, MC and EtherNet/IP drivers. -/
structure WriteRequest where
  id : Nat
  address : String
  value : RawValue

/-- The text of a timeout of the PLC drivers. -/
def plcTimeoutText : String := "请求超时：PLC 未在期限内响应"

/-- `map_io_error` of the S7, MC and EtherNet/IP drivers. -/
def plcIoError : IoError → DriverErrorInfo := mapIoError plcTimeoutText ""

variable (disconnect : DriverM κ Unit)

/-- The part that the three `send_frame` have in common: a failed write drops the
stream. -/
def sendStream (kind : FrameKind) (frame : Bytes) : DriverM κ Unit := do
  if ← isConnected then
    match ← writeAll peer kind frame with
    | .ok () => pure ()
    | .error e =>
      disconnect
      fail (plcIoError e)
  else fail (.connectionLost "会话未建立")

/-- A `read_exact` of the three `read_frame`: a failed read drops the stream. -/
def readStream (len : Nat) : DriverM κ Bytes := do
  match ← readExact peer len with
  | .ok bytes => pure bytes
  | .error e =>
    disconnect
    fail (plcIoError e)

end

end ForgeLink.Drivers
