import ForgeLink.Drivers.ModbusRead
import ForgeLink.Drivers.Replies

/-!
# A Modbus device

A device is its memory: a bit or a register for every unit, segment and offset.
`Serves` says that a transport gives the driver what the memory holds, for every
read that the protocol allows; the results about batch reads assume no more of
the other side.  `device_serves` gives such a device for every memory, over TCP
and over a serial line, down to the bytes of its answers.
-/

namespace ForgeLink.Drivers.Modbus

open Lib

/-- The contents of a device. -/
structure Memory where
  bit : UInt8 → RegisterKind → Nat → Bool
  register : UInt8 → RegisterKind → Nat → UInt16

/-- The data of an answer: bits are packed, registers come high byte first. -/
def Memory.answer (memory : Memory) (unitId : UInt8) (kind : RegisterKind)
    (offset quantity : Nat) : Bytes :=
  if kind.isBit then
    Drivers.packBits ((List.range quantity).map fun i => memory.bit unitId kind (offset + i))
  else
    (List.range quantity).flatMap fun i =>
      beBytes 2 (memory.register unitId kind (offset + i)).toNat

/-- What the driver reads is what the memory holds.  `idle` are the sessions between
two transactions. -/
structure Serves (peer : Peer) (config : ModbusConfig) (memory : Memory)
    (idle : Session Own → Prop) : Prop where
  connects : ∀ s, idle s →
    Returns (ensureConnectedBeforePlan peer config) (fun _ t => idle t ∧ t.stream = true) s
  reads : ∀ s unitId kind (offset quantity : Nat), idle s → s.stream = true → 1 ≤ quantity →
    quantity ≤ readLimit kind → offset + quantity ≤ 65536 →
    Returns
      (readTransaction peer config.line unitId kind.functionCode (UInt16.ofNat offset)
        (UInt16.ofNat quantity))
      (fun data t => data = memory.answer unitId kind offset quantity ∧ idle t) s

/-! ## The length of an answer -/

theorem length_answer (memory : Memory) (unitId : UInt8) (kind : RegisterKind)
    (offset : Nat) {quantity : Nat} (small : quantity ≤ readLimit kind) :
    (memory.answer unitId kind offset quantity).length =
      expectedDataLen kind.functionCode (UInt16.ofNat quantity) := by
  have fits : quantity < 65536 := by
    revert small
    unfold readLimit maxBitsPerRequest maxRegistersPerRequest
    split <;> omega
  have same : (UInt16.ofNat quantity).toNat = quantity := by simp; omega
  cases kind with
  | coil | discreteInput | inputRegister | holdingRegister =>
    simp [Memory.answer, RegisterKind.isBit, expectedDataLen, RegisterKind.functionCode, same]

theorem length_answer_le (memory : Memory) (unitId : UInt8) (kind : RegisterKind)
    (offset : Nat) {quantity : Nat} (small : quantity ≤ readLimit kind) :
    (memory.answer unitId kind offset quantity).length ≤ 250 := by
  revert small
  unfold readLimit maxBitsPerRequest maxRegistersPerRequest Memory.answer
  split
  · simp
    omega
  · simp
    omega

/-! ## The bytes of a device -/

/-- The segment that a function reads. -/
def kindOfFunction (function : UInt8) : Option RegisterKind :=
  [RegisterKind.coil, .discreteInput, .inputRegister, .holdingRegister].find?
    (·.functionCode = function)

@[simp] theorem kindOfFunction_functionCode (kind : RegisterKind) :
    kindOfFunction kind.functionCode = some kind := by
  cases kind <;> rfl

/-- The answer of a unit, without what the line adds; a function that reads nothing
is answered with an exception. -/
def Memory.body (memory : Memory) (unitId function : UInt8) (start quantity : Bytes) : Bytes :=
  match kindOfFunction function with
  | some kind =>
    let data := memory.answer unitId kind (ofBeBytes start) (ofBeBytes quantity)
    [unitId, function, UInt8.ofNat data.length] ++ data
  | none => [unitId, function ||| 0x80, 0x01]

/-- The answer to a read request. -/
def Memory.device (memory : Memory) : Line → Bytes → Bytes
  | .tcp _ _, [t₁, t₂, _, _, _, _, unitId, function, o₁, o₂, q₁, q₂] =>
    let body := memory.body unitId function [o₁, o₂] [q₁, q₂]
    [t₁, t₂, 0, 0] ++ beBytes 2 body.length ++ body
  | .rtu _, [unitId, function, o₁, o₂, q₁, q₂, _, _] =>
    let body := memory.body unitId function [o₁, o₂] [q₁, q₂]
    body ++ leBytes 2 (crc16 body).toNat
  | _, _ => []

section

variable (memory : Memory) (unitId : UInt8) (kind : RegisterKind) {offset quantity : Nat}

theorem ofBeBytes_u16 {n : Nat} (small : n < 65536) :
    ofBeBytes [UInt8.ofNat (n / 256), UInt8.ofNat n] = n := by
  rw [← beBytes_two, ofBeBytes_beBytes]
  omega

theorem body_read (start : offset < 65536) (count : quantity < 65536) {data : Bytes}
    (data_eq : memory.answer unitId kind offset quantity = data) :
    memory.body unitId kind.functionCode [UInt8.ofNat (offset / 256), UInt8.ofNat offset]
      [UInt8.ofNat (quantity / 256), UInt8.ofNat quantity] =
    unitId :: kind.functionCode :: UInt8.ofNat data.length :: data := by
  rw [Memory.body, kindOfFunction_functionCode]
  simp only [ofBeBytes_u16 start, ofBeBytes_u16 count, data_eq, List.cons_append, List.nil_append]

theorem device_tcp (host : String) (port transactionId : UInt16) (start : offset < 65536)
    (count : quantity < 65536) {data : Bytes}
    (data_eq : memory.answer unitId kind offset quantity = data) :
    memory.device (.tcp host port)
      (buildTcpReadRequest transactionId unitId kind.functionCode (UInt16.ofNat offset)
        (UInt16.ofNat quantity)) =
    (beBytes 2 transactionId.toNat ++ [0, 0] ++ beBytes 2 (data.length + 3) ++ [unitId]) ++
      kind.functionCode :: UInt8.ofNat data.length :: data := by
  have offset_eq : (UInt16.ofNat offset).toNat = offset := by simp; omega
  have quantity_eq : (UInt16.ofNat quantity).toNat = quantity := by simp; omega
  simp only [buildTcpReadRequest, beBytes_two, offset_eq, quantity_eq, List.cons_append,
    List.nil_append, Memory.device, body_read memory unitId kind start count data_eq,
    List.length_cons]

theorem device_rtu (serialPort : String) (start : offset < 65536) (count : quantity < 65536)
    {data body : Bytes} (data_eq : memory.answer unitId kind offset quantity = data)
    (body_eq : unitId :: kind.functionCode :: UInt8.ofNat data.length :: data = body) :
    memory.device (.rtu serialPort)
      (buildRtuReadRequest unitId kind.functionCode (UInt16.ofNat offset)
        (UInt16.ofNat quantity)) =
    body ++ leBytes 2 (crc16 body).toNat := by
  have offset_eq : (UInt16.ofNat offset).toNat = offset := by simp; omega
  have quantity_eq : (UInt16.ofNat quantity).toNat = quantity := by simp; omega
  simp only [buildRtuReadRequest, beBytes_two, offset_eq, quantity_eq, List.cons_append,
    List.nil_append, leBytes_succ, leBytes_zero, Memory.device,
    body_read memory unitId kind start count data_eq, body_eq]

end

/-! ## The driver takes the answers -/

theorem functionCode_plain (kind : RegisterKind) :
    kind.functionCode &&& 0x7F = kind.functionCode ∧ kind.functionCode &&& 0x80 = 0 := by
  cases kind <;> decide

theorem checkReadBody_answer (kind : RegisterKind) {quantity : UInt16} {data : Bytes}
    (len : data.length = expectedDataLen kind.functionCode quantity) (le : data.length ≤ 250) :
    checkReadBody kind.functionCode quantity
      (kind.functionCode :: UInt8.ofNat data.length :: data) = .ok data := by
  have count : data.length % 256 = data.length := by omega
  simp [checkReadBody, functionCode_plain, ← len, count]

theorem parseTcpResponseHeader_answer (transactionId : UInt16) (unitId : UInt8) {n : Nat}
    (small : n ≤ 250) :
    parseTcpResponseHeader (beBytes 2 transactionId.toNat ++ [0, 0] ++ beBytes 2 (n + 3) ++
      [unitId]) = .ok { transactionId, unitId, dataLen := n + 2 } := by
  obtain ⟨t₁, t₂, t_eq, transaction⟩ := exists_beBytes_two transactionId.toNat
  obtain ⟨l₁, l₂, l_eq, length⟩ := exists_beBytes_two (n + 3)
  have protocol : UInt16.ofNat (ofBeBytes [0, 0]) = 0 := rfl
  have enough : ¬(n + 3) % 65536 < 2 := by omega
  have rest : (n + 3) % 65536 - 1 = n + 2 := by omega
  simp [parseTcpResponseHeader, t_eq, l_eq, u16Be, byteAt, bind, Except.bind, length, transaction,
    protocol, enough, rest]

theorem crcVerify_append (frame : Bytes) :
    crcVerify (frame ++ leBytes 2 (crc16 frame).toNat) = true := by
  have small := (crc16 frame).toNat_lt
  have crc : ofLeBytes (leBytes 2 (crc16 frame).toNat) = (crc16 frame).toNat := by
    rw [ofLeBytes_leBytes]
    omega
  simp [crcVerify, crc]

theorem checkReadFrame_answer (unitId : UInt8) (kind : RegisterKind) {quantity : UInt16}
    {data body : Bytes} (len : data.length = expectedDataLen kind.functionCode quantity)
    (le : data.length ≤ 250)
    (body_eq : unitId :: kind.functionCode :: UInt8.ofNat data.length :: data = body) :
    checkReadFrame kind.functionCode quantity (body ++ leBytes 2 (crc16 body).toNat) =
      .ok data := by
  have count : data.length % 256 = data.length := by omega
  have long : ¬data.length + 2 + 1 + 1 + 1 < 4 := by omega
  rw [checkReadFrame, crcVerify_append]
  simp [← body_eq, parseRtuResponseMeta, byteAt, bind, Except.bind, functionCode_plain, ← len,
    count, slice, long]

theorem rtuResponseTotalLen_answer (unitId : UInt8) (kind : RegisterKind) (quantity : UInt16) :
    rtuResponseTotalLen [unitId, kind.functionCode] kind.functionCode quantity =
      .ok (5 + expectedDataLen kind.functionCode quantity) := by
  have read : isWriteFunction kind.functionCode = false := by cases kind <;> rfl
  have sum : 2 + (1 + expectedDataLen kind.functionCode quantity) + 2 =
      5 + expectedDataLen kind.functionCode quantity := by omega
  simp [rtuResponseTotalLen, byteAt, bind, Except.bind, functionCode_plain, read, sum]

section

variable {reply : Bytes → Bytes} {s : Session Own}

theorem returns_requestBytes (missing failed : String) (frame : Bytes) (connected : s.stream = true)
    (idle : Idle reply s) :
    Returns (requestBytes (replying reply) missing failed frame)
      (fun _ t => t.stream = true ∧ inbox reply t.log = reply frame) s := by
  unfold Idle at idle
  simp [Returns, requestBytes, connected, idle]

theorem returns_readBytes (missing : String) {front back : Bytes} {len : Nat}
    (connected : s.stream = true) (unread : inbox reply s.log = front ++ back)
    (len_eq : len = front.length) :
    Returns (readBytes (replying reply) missing len)
      (fun bytes t => bytes = front ∧ t.stream = true ∧ inbox reply t.log = back) s := by
  subst len_eq
  have enough : front.length ≤ (inbox reply s.log).length := by simp [unread]
  simp [Returns, readBytes, connected, wp_readExact_replying enough, unread]

end

theorem readLimit_lt (kind : RegisterKind) : readLimit kind < 65536 := by
  cases kind <;> decide

section

variable (memory : Memory) {s : Session Own} (unitId : UInt8) (kind : RegisterKind)
  {offset quantity : Nat} (small : quantity ≤ readLimit kind) (start : offset < 65536)

include small start

/-- A read of the device by TCP. -/
theorem readTcp_device (host : String) (port : UInt16)
    (idle : Idle (memory.device (.tcp host port)) s) (connected : s.stream = true) :
    Returns
      (readTcp (replying (memory.device (.tcp host port))) unitId kind.functionCode
        (UInt16.ofNat offset) (UInt16.ofNat quantity))
      (fun data t => data = memory.answer unitId kind offset quantity ∧
        Idle (memory.device (.tcp host port)) t) s := by
  have len := length_answer memory unitId kind offset small
  have le := length_answer_le memory unitId kind offset small
  have count := Nat.lt_of_le_of_lt small (readLimit_lt kind)
  obtain ⟨data, data_eq⟩ : ∃ data, memory.answer unitId kind offset quantity = data := ⟨_, rfl⟩
  rw [data_eq] at len le ⊢
  have reply := fun transactionId =>
    device_tcp memory unitId kind host port transactionId start count data_eq
  unfold readTcp
  rw [returns_modifyOwn_bind, returns_getOwn_bind]
  -- the request
  refine .bind (returns_requestBytes _ _ _ connected idle) ?_
  rintro _ t ⟨connected, unread⟩
  rw [reply] at unread
  -- the header
  refine .bind (returns_readBytes _ connected unread (by simp)) ?_
  rintro _ t ⟨rfl, connected, unread⟩
  refine returns_liftExcept_bind _ (parseTcpResponseHeader_answer _ unitId le) ?_
  simp only [ne_eq, not_true_eq_false, if_false]
  -- the body
  refine .bind (returns_readBytes _ connected (unread.trans (List.append_nil _).symm) (by simp)) ?_
  rintro _ t ⟨rfl, connected, unread⟩
  exact returns_liftExcept (checkReadBody_answer kind len le) ⟨rfl, unread⟩

/-- A read of the serial device. -/
theorem readRtu_device (serialPort : String)
    (idle : Idle (memory.device (.rtu serialPort)) s) (connected : s.stream = true) :
    Returns
      (readRtu (replying (memory.device (.rtu serialPort))) unitId kind.functionCode
        (UInt16.ofNat offset) (UInt16.ofNat quantity))
      (fun data t => data = memory.answer unitId kind offset quantity ∧
        Idle (memory.device (.rtu serialPort)) t) s := by
  have len := length_answer memory unitId kind offset small
  have le := length_answer_le memory unitId kind offset small
  have count := Nat.lt_of_le_of_lt small (readLimit_lt kind)
  obtain ⟨data, data_eq⟩ : ∃ data, memory.answer unitId kind offset quantity = data := ⟨_, rfl⟩
  rw [data_eq] at len le ⊢
  obtain ⟨body, body_eq⟩ : ∃ body,
    unitId :: kind.functionCode :: UInt8.ofNat data.length :: data = body := ⟨_, rfl⟩
  have checked := checkReadFrame_answer unitId kind len le body_eq
  have reply := device_rtu memory unitId kind serialPort start count data_eq body_eq
  obtain ⟨rest, rest_eq, rest_len⟩ : ∃ rest, body ++ leBytes 2 (crc16 body).toNat =
      [unitId, kind.functionCode] ++ rest ∧ rest.length = data.length + 3 := by
    refine ⟨UInt8.ofNat data.length :: data ++ leBytes 2 (crc16 body).toNat, ?_, by simp⟩
    rw [← body_eq]
    simp
  rw [rest_eq] at reply checked
  unfold readRtu
  refine .bind (returns_requestBytes _ _ _ connected idle) ?_
  rintro _ t ⟨connected, unread⟩
  rw [reply] at unread
  -- unit and function
  refine .bind (returns_readBytes _ connected unread (by simp)) ?_
  rintro _ t ⟨rfl, connected, unread⟩
  refine returns_liftExcept_bind (b := unitId) _ rfl ?_
  simp only [ne_eq, not_true_eq_false, if_false]
  refine returns_liftExcept_bind _ (rtuResponseTotalLen_answer unitId kind _) ?_
  -- the rest
  refine .bind (returns_readBytes _ connected (unread.trans (List.append_nil _).symm)
    (by rw [rest_len, len]; omega)) ?_
  rintro _ t ⟨rfl, connected, unread⟩
  exact returns_liftExcept checked ⟨rfl, unread⟩

end

theorem connectLine_device (reply : Bytes → Bytes) (line : Line) {s : Session Own}
    (apart : s.stream = false) :
    Returns (connectLine (replying reply) line) (fun _ t => Idle reply t ∧ t.stream = true) s := by
  cases line with
  | tcp host port =>
    unfold connectLine connectTcp
    rw [returns_isConnected_bind, apart]
    exact ⟨rfl, rfl⟩
  | rtu serialPort =>
    unfold connectLine connectRtu
    rw [returns_isConnected_bind, apart]
    exact ⟨rfl, rfl⟩

/-- Connecting leaves an idle stream. -/
theorem ensureConnected_device (reply : Bytes → Bytes) (config : ModbusConfig) {s : Session Own}
    (idle : Idle reply s) :
    Returns (ensureConnectedBeforePlan (replying reply) config)
      (fun _ t => Idle reply t ∧ t.stream = true) s := by
  unfold ensureConnectedBeforePlan
  rw [returns_isConnected_bind]
  cases stream : s.stream with
  | true => exact ⟨idle, stream⟩
  | false =>
    unfold connect
    simp only [Bool.false_eq_true, if_false, returns_isConnected_bind, stream]
    obtain ⟨attempts, eq⟩ : ∃ n,
        (if config.reconnect then max config.reconnectMaxAttempts 1 else 1) = n + 1 :=
      ⟨_, (Nat.succ_pred_eq_of_pos (by split <;> omega)).symm⟩
    rw [eq, retry]
    refine .bind (R := fun r t => r = .ok () ∧ Idle reply t ∧ t.stream = true) ?_ ?_
    · exact (wp_attempt _).mpr (wp_mono (connectLine_device reply config.line stream)
        (fun _ _ done => ⟨rfl, done⟩) fun _ _ stopped => stopped.elim)
    · rintro _ t ⟨rfl, done⟩
      exact done

/-- For every memory there is a device that serves it. -/
theorem device_serves (memory : Memory) (config : ModbusConfig) :
    Serves (replying (memory.device config.line)) config memory
      (Idle (memory.device config.line)) where
  connects _ idle := ensureConnected_device _ config idle
  reads s unitId kind offset quantity idle connected asked small inside := by
    have start : offset < 65536 := by omega
    cases line : config.line with
    | tcp host port =>
      rw [line] at idle
      exact readTcp_device memory unitId kind small start host port idle connected
    | rtu serialPort =>
      rw [line] at idle
      exact readRtu_device memory unitId kind small start serialPort idle connected

end ForgeLink.Drivers.Modbus
