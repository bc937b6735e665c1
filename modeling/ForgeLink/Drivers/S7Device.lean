import ForgeLink.Drivers.Replies
import ForgeLink.Drivers.S7Read

/-!
# A PLC that answers reads of bits

`ServesBits` says that a PLC answers a pointer of transport size `BIT` and length
one with the value of the bit that it addresses.  `plc_servesBits` gives such a
PLC for every memory of bits, down to the bytes of its frames.
-/

namespace ForgeLink.Drivers.S7comm

open Lib

/-- The bits of a PLC, by area, data block and number of the bit. -/
abbrev BitMemory := UInt8 → Nat → Nat → Bool

/-- The pointer to one bit. -/
def bitPointer (areaCode : UInt8) (db key : Nat) : AnyItem :=
  { transportSize := 0x01, length := 1, areaCode, db := UInt16.ofNat db
    byteOffset := UInt32.ofNat (key / 8), bit := UInt8.ofNat (key % 8) }

/-- The PLC answers a pointer to a bit with the bit.  `idle` are the sessions between two
transactions, and `pdu` is the size they negotiate. -/
structure ServesBits (peer : Peer) (config : S7Config) (pdu : UInt16) (memory : BitMemory)
    (idle : Session Own → Prop) : Prop where
  connects : ∀ s, idle s →
    Returns (ensureConnected peer config) (fun n t => n = pdu ∧ idle t ∧ t.stream = true) s
  reads : ∀ s areaCode db key, idle s → s.stream = true → db < 65536 → key < 2 ^ 24 →
    Returns (readPointer peer (bitPointer areaCode db key))
      (fun r t => r.returnCode = 0xFF ∧
        (∃ byte, r.payload = [byte] ∧ bitOf byte 0 = memory areaCode db key) ∧
        idle t ∧ t.stream = true) s

/-! ## Frames -/

/-- A TPKT frame. -/
def tpkt (tpdu : Bytes) : Bytes := [0x03, 0x00] ++ beBytes 2 (tpdu.length + 4) ++ tpdu

/-- An `Ack_Data`. -/
def ackData (pduRef param data : Bytes) : Bytes :=
  [0x32, 0x03, 0x00, 0x00] ++ pduRef ++ beBytes 2 param.length ++ beBytes 2 data.length ++
    [0x00, 0x00] ++ param ++ data

theorem exists_tpkt {payload : Bytes} (small : payload.length < 60000) :
    ∃ a b, tpkt (dataTpdu payload) = 0x03 :: 0x00 :: a :: b :: 0x02 :: 0xF0 :: 0x80 :: payload ∧
      ofBeBytes [a, b] = payload.length + 7 := by
  obtain ⟨a, b, eq, value⟩ := exists_beBytes_two (payload.length + 7)
  refine ⟨a, b, ?_, by omega⟩
  simp [tpkt, dataTpdu, eq]

theorem parseFrame_tpkt {payload : Bytes} (small : payload.length < 60000) :
    parseFrame (tpkt (dataTpdu payload)) = .ok (.data payload) := by
  obtain ⟨a, b, eq, value⟩ := exists_tpkt small
  have declared : (UInt16.ofNat (ofBeBytes [a, b])).toNat = payload.length + 7 := by
    rw [value]
    simp only [UInt16.toNat_ofNat']
    omega
  have bounds : payload.length + 7 ≤ 65579 := by omega
  have length : 4 ≤ payload.length + 7 := by omega
  have header : ¬payload.length + 1 + 1 + 1 + 1 + 1 + 1 + 1 < 4 := by omega
  have body : ¬payload.length + 1 + 1 + 1 < 2 := by omega
  have dataBody : ¬payload.length + 1 + 1 + 1 < 3 := by omega
  rw [eq]
  simp [parseFrame, u16Be, byteAt, shortOr, bind, Except.bind, pure, Except.pure, declared, bounds,
    length, header, body, dataBody, slice]

/-- An acknowledgement is read back. -/
theorem parseAck_ackData {r₁ r₂ : UInt8} {param data : Bytes} (small : param.length < 1000)
    (small' : data.length < 1000) :
    parseAck (ackData [r₁, r₂] param data) =
      .ok ⟨UInt16.ofNat (ofBeBytes [r₁, r₂]), param, data⟩ := by
  obtain ⟨p₁, p₂, p_eq, p_value⟩ := exists_beBytes_two param.length
  obtain ⟨d₁, d₂, d_eq, d_value⟩ := exists_beBytes_two data.length
  have p_len : (UInt16.ofNat (ofBeBytes [p₁, p₂])).toNat = param.length := by
    rw [p_value]
    simp only [UInt16.toNat_ofNat']
    omega
  have d_len : (UInt16.ofNat (ofBeBytes [d₁, d₂])).toNat = data.length := by
    rw [d_value]
    simp only [UInt16.toNat_ofNat']
    omega
  have whole : ackData [r₁, r₂] param data =
      0x32 :: 0x03 :: 0x00 :: 0x00 :: r₁ :: r₂ :: p₁ :: p₂ :: d₁ :: d₂ :: 0x00 :: 0x00 ::
        (param ++ data) := by
    simp [ackData, p_eq, d_eq]
  have tail : (0x32 :: 0x03 :: 0x00 :: 0x00 :: r₁ :: r₂ :: p₁ :: p₂ :: d₁ :: d₂ :: 0x00 :: 0x00 ::
      (param ++ data)).drop (12 + param.length) = data := by
    rw [← List.drop_drop]
    simp
  have long : ¬param.length + data.length + 1 + 1 + 1 + 1 + 1 + 1 + 1 + 1 + 1 + 1 + 1 + 1 < 12 := by
    omega
  rw [whole]
  simp [parseAck, u16Be, byteAt, shortOr, bind, Except.bind, pure, Except.pure, p_len, d_len, slice,
    tail, long]
  rw [if_neg (by omega), if_neg (by omega), if_pos (by omega), if_pos (by omega)]

/-! ## Exchanges -/

section

variable {reply : Bytes → Bytes} {s : Session Own}

theorem returns_sendFrame (kind : FrameKind) {tpdu : Bytes} (idle : Idle reply s)
    (connected : s.stream = true) (short : tpdu.length < 65000) :
    Returns (sendFrame (replying reply) kind tpdu)
      (fun _ t => inbox reply t.log = reply (tpkt tpdu) ∧ t.stream = true ∧ t.own = s.own) s := by
  have allowed : ¬65579 < tpdu.length + 4 := by omega
  unfold Idle at idle
  simp [Returns, sendFrame, sendStream, connected, allowed, idle, tpkt]

/-- A whole frame is read from the stream. -/
theorem returns_readFrame {payload : Bytes} (short : payload.length < 60000)
    (unread : inbox reply s.log = tpkt (dataTpdu payload)) (connected : s.stream = true) :
    Returns (readFrame (replying reply))
      (fun frame t => frame = tpkt (dataTpdu payload) ∧ Idle reply t ∧ t.stream = true ∧
        t.own = s.own) s := by
  obtain ⟨a, b, eq, value⟩ := exists_tpkt short
  have declared : (UInt16.ofNat (ofBeBytes [a, b])).toNat = payload.length + 7 := by
    rw [value]
    simp only [UInt16.toNat_ofNat']
    omega
  rw [eq] at unread ⊢
  unfold readFrame
  rw [returns_isConnected_bind, connected]
  have head : inbox reply s.log = [0x03, 0x00, a, b] ++ 0x02 :: 0xF0 :: 0x80 :: payload := unread
  refine .bind (returns_readStream head (by simp)) ?_
  rintro _ t ⟨rfl, unread, stream, own⟩
  refine returns_liftExcept_bind _ (b := UInt16.ofNat (ofBeBytes [a, b])) rfl ?_
  refine .bind (returns_readStream (unread.trans (List.append_nil _).symm)
    (by simp only [declared, List.length_cons]; omega)) ?_
  rintro _ u ⟨rfl, unread, stream', own'⟩
  exact ⟨rfl, unread, stream'.trans (stream.trans connected), own'.trans own⟩

theorem length_ackData (r₁ r₂ : UInt8) (param data : Bytes) :
    (ackData [r₁, r₂] param data).length = 12 + param.length + data.length := by
  simp [ackData]
  omega

/-- A job that the PLC answers with an acknowledgement. -/
theorem returns_exchange (kind : FrameKind) {job param data : Bytes} {r₁ r₂ : UInt8} {r : UInt16}
    (idle : Idle reply s) (connected : s.stream = true) (short : job.length < 60000)
    (answered : reply (tpkt (dataTpdu job)) = tpkt (dataTpdu (ackData [r₁, r₂] param data)))
    (ref : UInt16.ofNat (ofBeBytes [r₁, r₂]) = r)
    (small : param.length < 1000) (small' : data.length < 1000) :
    Returns (exchange (replying reply) kind r job)
      (fun ack t => ack = ⟨r, param, data⟩ ∧ Idle reply t ∧ t.stream = true ∧ t.own = s.own) s := by
  have ack_short : (ackData [r₁, r₂] param data).length < 60000 := by
    rw [length_ackData]
    omega
  have checked : checkAck r (ackData [r₁, r₂] param data) = .ok ⟨r, param, data⟩ := by
    rw [checkAck, parseAck_ackData small small', ref]
    simp [bind, Except.bind]
  unfold exchange
  refine .bind (returns_sendFrame kind idle connected (by simp [dataTpdu]; omega)) ?_
  rintro _ t ⟨unread, connected, own⟩
  rw [answered] at unread
  refine .bind (returns_readFrame ack_short unread connected) ?_
  rintro _ u ⟨rfl, idle, connected, own'⟩
  refine returns_liftExcept_bind _ (parseFrame_tpkt ack_short) ?_
  simp only [checked]
  exact ⟨rfl, idle, connected, own'.trans own⟩

end

/-! ## The PLC -/

/-- The answer to a pointer, given what follows the function code of the job. -/
def bitReply (memory : BitMemory) (r₁ r₂ : UInt8) : Bytes → Bytes
  | [_, _, _, _, _, _, _, d₁, d₂, area, a₁, a₂, a₃] =>
    let bit := memory area (ofBeBytes [d₁, d₂]) (ofBeBytes [a₁, a₂, a₃])
    tpkt (dataTpdu (ackData [r₁, r₂] [0x04, 0x01]
      [0xFF, 0x01, 0x00, 0x01, if bit then 1 else 0]))
  | _ => []

/-- The answer to a job. -/
def jobReply (pdu : UInt16) (memory : BitMemory) : Bytes → Bytes
  | _ :: _ :: _ :: _ :: r₁ :: r₂ :: _ :: _ :: _ :: _ :: function :: rest =>
    if function = 0xF0 then
      tpkt (dataTpdu (ackData [r₁, r₂]
        ([0xF0, 0x00, 0x00, 0x01, 0x00, 0x01] ++ beBytes 2 pdu.toNat) []))
    else bitReply memory r₁ r₂ rest
  | _ => []

/-- A PLC with these bits: it confirms a connection, agrees to `pdu`, and answers a pointer
to one bit. -/
def plc (pdu : UInt16) (memory : BitMemory) (frame : Bytes) : Bytes :=
  if frame[5]? = some 0xE0 then
    [0x03, 0x00, 0x00, 0x0B, 0x06, 0xD0, 0x00, 0x0F, 0x00, 0x01, 0x00]
  else jobReply pdu memory (frame.drop 7)

/-- The address field of a pointer to a bit is the number of the bit. -/
theorem encode_bitPointer {areaCode : UInt8} {db key : Nat} (db_lt : db < 65536)
    (key_lt : key < 2 ^ 24) :
    (bitPointer areaCode db key).encode =
      [0x12, 0x0A, 0x10, 0x01, 0x00, 0x01] ++ beBytes 2 db ++ [areaCode] ++ beBytes 3 key := by
  have address : ((UInt32.ofNat (key / 8) <<< 3) ||| (UInt8.ofNat (key % 8)).toUInt32).toNat =
      key := by
    have low : key % 8 < 2 ^ 3 := Nat.mod_lt _ (by decide)
    have sum := Nat.shiftLeft_add_eq_or_of_lt low (key / 8)
    have whole : (key / 8) <<< 3 + key % 8 = key := by
      rw [Nat.shiftLeft_eq]
      omega
    have high : (key / 8) <<< 3 < 2 ^ 32 := by omega
    have byte : key / 8 % 2 ^ 32 = key / 8 := by omega
    have bit : key % 8 % 2 ^ 8 = key % 8 := by omega
    simp only [UInt32.toNat_or, UInt32.toNat_shiftLeft, UInt8.toNat_toUInt32, UInt8.toNat_ofNat',
      UInt32.toNat_ofNat', byte, bit]
    rw [show UInt32.toNat 3 % 32 = 3 from rfl, Nat.mod_eq_of_lt high, ← sum, whole]
  have block : (UInt16.ofNat db).toNat = db := by
    simp only [UInt16.toNat_ofNat']
    omega
  simp only [bitPointer, AnyItem.encode, address, block]
  rfl

/-- The device answers a read of one bit. -/
theorem plc_bitPointer (pdu : UInt16) (memory : BitMemory) (r : UInt16) (areaCode : UInt8)
    {db key : Nat} (db_lt : db < 65536) (key_lt : key < 2 ^ 24) :
    ∃ r₁ r₂, UInt16.ofNat (ofBeBytes [r₁, r₂]) = r ∧
      plc pdu memory (tpkt (dataTpdu (buildRead r [bitPointer areaCode db key]))) =
        tpkt (dataTpdu (ackData [r₁, r₂] [0x04, 0x01]
          [0xFF, 0x01, 0x00, 0x01, if memory areaCode db key then 1 else 0])) := by
  obtain ⟨r₁, r₂, r_eq, r_value⟩ := exists_beBytes_two r.toNat
  obtain ⟨d₁, d₂, d_eq, d_value⟩ := exists_beBytes_two db
  obtain ⟨a₁, a₂, a₃, a_eq, a_value⟩ := exists_beBytes_three key
  refine ⟨r₁, r₂, by rw [r_value]; exact UInt16.toNat_inj.mp (by simp), ?_⟩
  rw [Nat.mod_eq_of_lt db_lt] at d_value
  rw [Nat.mod_eq_of_lt key_lt] at a_value
  obtain ⟨job, job_eq⟩ : ∃ job, job = buildRead r [bitPointer areaCode db key] := ⟨_, rfl⟩
  have bytes : job =
      [0x32, 0x01, 0x00, 0x00, r₁, r₂, 0x00, 0x0E, 0x00, 0x00, 0x04, 0x01, 0x12, 0x0A, 0x10, 0x01,
        0x00, 0x01, d₁, d₂, areaCode, a₁, a₂, a₃] := by
    rw [job_eq]
    simp [buildRead, encode_bitPointer db_lt key_lt, buildJob, r_eq, d_eq, a_eq]
    rfl
  obtain ⟨l₁, l₂, eq, _⟩ := exists_tpkt (show job.length < 60000 by simp [bytes])
  rw [← job_eq, eq, plc, if_neg (by simp)]
  show jobReply pdu memory job = _
  rw [bytes, jobReply, if_neg (by decide)]
  simp only [bitReply, d_value, a_value]

theorem parseReadResponse_bit (byte : UInt8) :
    parseReadResponse [0x04, 0x01] [0xFF, 0x01, 0x00, 0x01, byte] 1 = .ok [⟨0xFF, [byte]⟩] := rfl

/-- For every memory of bits there is a PLC that serves it. -/
theorem plc_servesBits (config : S7Config) (pdu : UInt16) (memory : BitMemory) :
    ServesBits (replying (plc pdu memory)) config pdu memory
      (fun s => Idle (plc pdu memory) s ∧ s.stream = true ∧ s.own.negotiatedPdu = pdu) where
  connects := by
    rintro s ⟨idle, connected, negotiated⟩
    unfold ensureConnected
    rw [returns_isConnected_bind, connected]
    exact ⟨negotiated, ⟨idle, connected, negotiated⟩, connected⟩
  reads := by
    rintro s areaCode db key ⟨idle, connected, negotiated⟩ _ db_lt key_lt
    obtain ⟨r₁, r₂, ref, answered⟩ :=
      plc_bitPointer pdu memory (s.own.pduRef + 1) areaCode db_lt key_lt
    unfold readPointer nextRef
    refine .bind (R := fun r t => r = s.own.pduRef + 1 ∧ Idle (plc pdu memory) t ∧
      t.stream = true ∧ t.own.negotiatedPdu = pdu) ⟨rfl, idle, connected, negotiated⟩ ?_
    rintro _ t ⟨rfl, idle, connected, negotiated⟩
    refine .bind (returns_exchange .read idle connected ?_ answered ref (by decide) (by simp)) ?_
    · simp [buildRead, buildJob, encode_bitPointer db_lt key_lt]
    rintro _ u ⟨rfl, idle, connected, own⟩
    refine returns_liftExcept_bind _ (parseReadResponse_bit _) ?_
    refine ⟨rfl, ⟨_, rfl, ?_⟩, ⟨idle, connected, own ▸ negotiated⟩, connected⟩
    cases memory areaCode db key <;> rfl

end ForgeLink.Drivers.S7comm
