import ForgeLink.Drivers.McRead
import ForgeLink.Drivers.Replies

/-!
# A PLC that answers MC reads

A PLC is its memory: a bit or a word for every device and number.  `Serves` says
that the driver gets what the memory holds, for every read that the limits
allow; bits come eight to a byte, the first one in the lowest place, and words
low byte first.  `plc_serves` gives such a PLC for every memory, down to the
bytes of its frames.
-/

namespace ForgeLink.Drivers.MitsubishiMc

open Lib

/-- The contents of a PLC. -/
structure Memory where
  bit : DeviceKind → Nat → Bool
  word : DeviceKind → Nat → UInt16

/-- The data of an answer. -/
def Memory.answer (memory : Memory) (kind : DeviceKind) (start points : Nat) : Bytes :=
  if kind.isBit then packBits ((List.range points).map fun i => memory.bit kind (start + i))
  else (List.range points).flatMap fun i => leBytes 2 (memory.word kind (start + i)).toNat

/-- What the driver reads is what the memory holds.  `idle` are the sessions between two
transactions. -/
structure Serves (peer : Peer) (config : ReadConfig) (memory : Memory)
    (idle : Session Unit → Prop) : Prop where
  connects : ∀ s, idle s →
    Returns (ensureConnected peer config.toMcConfig) (fun _ t => idle t ∧ t.stream = true) s
  reads : ∀ s kind (start points : Nat), idle s → s.stream = true → start < 2 ^ 24 →
    points ≤ 960 →
    Returns (readPoints peer config kind start (UInt16.ofNat points))
      (fun r t => r.endCode = 0 ∧ r.data = memory.answer kind start points ∧ idle t ∧
        t.stream = true) s

theorem length_answer_le (memory : Memory) (kind : DeviceKind) (start : Nat) {points : Nat}
    (small : points ≤ 960) : (memory.answer kind start points).length ≤ 1920 := by
  unfold Memory.answer
  split
  · simp
    omega
  · simp
    omega

/-! ## Frames -/

/-- The device that a code stands for. -/
def kindOfCode (code : UInt8) : Option DeviceKind :=
  [DeviceKind.x, .y, .m, .b, .s, .sm, .d, .w, .r, .zr, .sd].find? (·.code = code)

@[simp] theorem kindOfCode_code (kind : DeviceKind) : kindOfCode kind.code = some kind := by
  cases kind <;> rfl

/-- The answer to a request that was routed here: an end code, and data. -/
def answerFrame (routing : Bytes) (data : Bytes) : Bytes :=
  [0xD0, 0x00] ++ routing ++ leBytes 2 (data.length + 2) ++ [0x00, 0x00] ++ data

/-- The PLC: the answer to a read request. -/
def Memory.plc (memory : Memory) : Bytes → Bytes
  | [_, _, r₁, r₂, r₃, r₄, r₅, _, _, _, _, _, _, _, _, code, n₁, n₂, n₃, p₁, p₂] =>
    match kindOfCode code with
    | some kind =>
      answerFrame [r₁, r₂, r₃, r₄, r₅]
        (memory.answer kind (ofLeBytes [n₁, n₂, n₃]) (ofLeBytes [p₁, p₂]))
    | none => []
  | _ => []

/-- The bytes of a read request. -/
theorem exists_request (kind : DeviceKind) {start points : Nat} (start_lt : start < 2 ^ 24)
    (points_lt : points < 65536) (timer : UInt16) (routing : Routing) :
    ∃ r₃ r₄ c₁ c₂ n₁ n₂ n₃ p₁ p₂,
      buildReadRequest kind (UInt32.ofNat start) (UInt16.ofNat points) timer routing =
        [0x50, 0x00, routing.networkNo, routing.pcNo, r₃, r₄, routing.moduleStation, 12, 0,
          UInt8.ofNat timer.toNat, UInt8.ofNat (timer.toNat >>> 8), c₁, c₂, 0, 0, kind.code, n₁,
            n₂, n₃, p₁, p₂] ∧
      ofLeBytes [r₃, r₄] = routing.moduleIo.toNat ∧
      ofLeBytes [c₁, c₂] = (if kind.isBit then 0x0402 else 0x0401) ∧
      ofLeBytes [n₁, n₂, n₃] = start ∧ ofLeBytes [p₁, p₂] = points := by
  obtain ⟨r₃, r₄, r_eq, r_value⟩ := exists_leBytes_two routing.moduleIo.toNat
  obtain ⟨c₁, c₂, c_eq, c_value⟩ :=
    exists_leBytes_two (if kind.isBit then 0x0402 else 0x0401 : UInt16).toNat
  obtain ⟨n₁, n₂, n₃, n_eq, n_value⟩ := exists_leBytes_three (UInt32.ofNat start).toNat
  obtain ⟨p₁, p₂, p_eq, p_value⟩ := exists_leBytes_two (UInt16.ofNat points).toNat
  have io := routing.moduleIo.toNat_lt
  have start_eq : (UInt32.ofNat start).toNat = start := by
    simp only [UInt32.toNat_ofNat']
    omega
  have points_eq : (UInt16.ofNat points).toNat = points := by
    simp only [UInt16.toNat_ofNat']
    omega
  refine ⟨r₃, r₄, c₁, c₂, n₁, n₂, n₃, p₁, p₂, ?_, by omega, ?_, by omega, by omega⟩
  · simp only [buildReadRequest, buildCommandBody, assembleFrame, Routing.encode, r_eq, c_eq, n_eq,
      p_eq]
    simp [leBytes_succ]
  · rw [c_value]
    split <;> rfl

/-- The bytes of an answer. -/
theorem exists_answerFrame (r₁ r₂ r₃ r₄ r₅ : UInt8) {data : Bytes} (short : data.length ≤ 1920) :
    ∃ l₁ l₂, answerFrame [r₁, r₂, r₃, r₄, r₅] data =
        [0xD0, 0x00, r₁, r₂, r₃, r₄, r₅, l₁, l₂] ++ (0x00 :: 0x00 :: data) ∧
      ofLeBytes [l₁, l₂] = data.length + 2 := by
  obtain ⟨l₁, l₂, eq, value⟩ := exists_leBytes_two (data.length + 2)
  exact ⟨l₁, l₂, by simp [answerFrame, eq], by omega⟩

/-! ## The driver takes the answers -/

/-- The head of an answer is read back. -/
theorem parseResponseHead_answer {routing : Routing} {r₃ r₄ l₁ l₂ : UInt8} {data : Bytes}
    (io : ofLeBytes [r₃, r₄] = routing.moduleIo.toNat)
    (len : ofLeBytes [l₁, l₂] = data.length + 2) (short : data.length ≤ 1920) :
    parseResponseHead
      ([0xD0, 0x00, routing.networkNo, routing.pcNo, r₃, r₄, routing.moduleStation, l₁, l₂] ++
        (0x00 :: 0x00 :: data)) routing =
      .ok (⟨0, data.length + 2⟩, 0x00 :: 0x00 :: data) := by
  have subheader : UInt16.ofNat (ofLeBytes [0xD0, 0x00]) = 0x00D0 := rfl
  have endCode : UInt16.ofNat (ofLeBytes [0x00, 0x00]) = 0 := rfl
  have declared : (data.length + 2) % 65536 = data.length + 2 := by omega
  simp [parseResponseHead, Routing.decode, u16Le, byteAt, bind, Except.bind, io, len, slice,
    -ofLeBytes_cons, subheader, declared]
  rw [if_neg (by omega), if_neg (by omega)]
  simp only [if_true]
  rw [if_neg (by omega), if_pos (by omega)]
  simp [endCode, -ofLeBytes_cons]

section

variable {reply : Bytes → Bytes} {s : Session Unit}

theorem returns_readFrame {head body : Bytes} {l : UInt16} (head_len : head.length = 9)
    (declared : u16Le head 7 = .ok l) (len : l.toNat = body.length)
    (unread : inbox reply s.log = head ++ body) (connected : s.stream = true) :
    Returns (readFrame (replying reply))
      (fun frame t => frame = head ++ body ∧ Idle reply t ∧ t.stream = true) s := by
  unfold readFrame
  rw [returns_isConnected_bind, connected]
  refine .bind (returns_readStream unread head_len.symm) ?_
  rintro _ t ⟨rfl, unread, stream, _⟩
  refine returns_liftExcept_bind _ declared ?_
  refine .bind (returns_readStream (unread.trans (List.append_nil _).symm) len) ?_
  rintro _ u ⟨rfl, unread, stream', _⟩
  exact ⟨rfl, unread, stream'.trans (stream.trans connected)⟩

theorem returns_ensureConnected (config : McConfig) (idle : Idle reply s) :
    Returns (ensureConnected (replying reply) config)
      (fun _ t => Idle reply t ∧ t.stream = true) s := by
  unfold ensureConnected
  rw [returns_isConnected_bind]
  cases stream : s.stream with
  | true => exact ⟨idle, stream⟩
  | false => exact ⟨rfl, rfl⟩

/-- A request that is answered with as much as it asks for. -/
theorem returns_transact (config : McConfig) (kind : FrameKind) {request area head body : Bytes}
    {l : UInt16} {h : ResponseHead} (idle : Idle reply s)
    (area_eq : commandArea request = .ok area) (area_len : area.length = 12)
    (asked : respLenOf area = .ok h.declaredLen)
    (answered : reply request = head ++ body) (head_len : head.length = 9)
    (declared : u16Le head 7 = .ok l) (len : l.toNat = body.length)
    (parsed : parseResponseHead (head ++ body) config.routing = .ok (h, body)) :
    Returns (transact (replying reply) config kind request)
      (fun frame t => frame = head ++ body ∧ Idle reply t ∧ t.stream = true) s := by
  unfold transact
  refine .bind (returns_ensureConnected config idle) ?_
  rintro _ t ⟨idle, connected⟩
  refine returns_liftExcept_bind _ area_eq ?_
  rw [if_neg (by omega)]
  refine returns_liftExcept_bind _ asked ?_
  refine .bind (R := fun _ u => inbox reply u.log = head ++ body ∧ u.stream = true) ?_ ?_
  · unfold Idle at idle
    simp [Returns, sendStream, connected, idle, answered]
  rintro _ u ⟨unread, connected⟩
  refine .bind (returns_readFrame head_len declared len unread connected) ?_
  rintro _ v ⟨rfl, idle, connected⟩
  refine returns_liftExcept_bind _ parsed ?_
  simp only [ne_eq, not_true_eq_false, false_and, if_false]
  exact ⟨rfl, idle, connected⟩

end

/-- The length of an answer is the one that the request asks for. -/
theorem expectedRespBodyLen_answer (memory : Memory) (kind : DeviceKind)
    (start : Nat) {points : Nat}
    (small : points ≤ 960) :
    expectedRespBodyLen (UInt16.ofNat (if kind.isBit then 0x0402 else 0x0401))
      (UInt16.ofNat points) = (memory.answer kind start points).length + 2 := by
  have points_eq : points % 65536 = points := by omega
  unfold expectedRespBodyLen Memory.answer
  cases kind.isBit with
  | true | false =>
    simp [points_eq]
    omega

/-- For every memory there is a PLC that serves it. -/
theorem plc_serves (memory : Memory) (config : ReadConfig) :
    Serves (replying memory.plc) config memory (Idle memory.plc) where
  connects _ idle := returns_ensureConnected _ idle
  reads s kind start points idle connected start_lt small := by
    obtain ⟨r₃, r₄, c₁, c₂, n₁, n₂, n₃, p₁, p₂, request, io, command, start_eq, points_eq⟩ :=
      exists_request kind start_lt (show points < 65536 by omega) config.monitoringTimer
        config.routing
    have short := length_answer_le memory kind start small
    have expected := expectedRespBodyLen_answer memory kind start small
    have answered : memory.plc (buildReadRequest kind (UInt32.ofNat start) (UInt16.ofNat points)
        config.monitoringTimer config.routing) =
        answerFrame [config.routing.networkNo, config.routing.pcNo, r₃, r₄,
          config.routing.moduleStation] (memory.answer kind start points) := by
      rw [request, Memory.plc, kindOfCode_code, start_eq, points_eq]
    obtain ⟨data, data_eq⟩ : ∃ data, memory.answer kind start points = data := ⟨_, rfl⟩
    rw [data_eq] at short expected answered ⊢
    obtain ⟨l₁, l₂, frame_eq, len⟩ := exists_answerFrame config.routing.networkNo
      config.routing.pcNo r₃ r₄ config.routing.moduleStation short
    have parsed := parseResponseHead_answer io len short
    have len_eq : (UInt16.ofNat (ofLeBytes [l₁, l₂])).toNat = data.length + 2 := by
      rw [len]
      simp only [UInt16.toNat_ofNat']
      omega
    have declared : u16Le [0xD0, 0x00, config.routing.networkNo, config.routing.pcNo, r₃, r₄,
        config.routing.moduleStation, l₁, l₂] 7 = .ok (UInt16.ofNat (ofLeBytes [l₁, l₂])) := rfl
    have area : commandArea (buildReadRequest kind (UInt32.ofNat start) (UInt16.ofNat points)
        config.monitoringTimer config.routing) =
        .ok [UInt8.ofNat config.monitoringTimer.toNat,
          UInt8.ofNat (config.monitoringTimer.toNat >>> 8), c₁, c₂, 0, 0, kind.code, n₁, n₂, n₃, p₁,
          p₂] := by
      rw [request]
      rfl
    have respLen : respLenOf [UInt8.ofNat config.monitoringTimer.toNat,
        UInt8.ofNat (config.monitoringTimer.toNat >>> 8), c₁, c₂, 0, 0, kind.code, n₁, n₂, n₃, p₁,
        p₂] = .ok (data.length + 2) := by
      rw [← expected, ← command, ← points_eq]
      rfl
    rw [frame_eq] at answered
    unfold readPoints
    refine .bind (returns_transact config.toMcConfig .read idle area rfl respLen answered rfl
      declared len_eq parsed) ?_
    rintro _ t ⟨rfl, idle, connected⟩
    refine returns_liftExcept_bind _ parsed ?_
    exact ⟨rfl, rfl, idle, connected⟩

end ForgeLink.Drivers.MitsubishiMc
