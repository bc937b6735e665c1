import ForgeLink.Drivers.Hangups
import ForgeLink.Drivers.MitsubishiMc

/-!
# Whose answer an MC request takes

A 3E answer carries nothing of its request, so an answer that is left on the
stream would be taken by the next one.  The peer here answers the frames of a
connection in order, with whatever bytes; reads and writes may fail at any time
(`Answers`).  If no answer goes on after the frame that its length field
declares, nothing is left between two calls of `transact`, and what a call
returns is the answer to the request it has sent.

The errors of a call drop the stream, apart from one: an answer whose head is
refused.
-/

namespace ForgeLink.Drivers.MitsubishiMc

open Lib

/-! ## Peers -/

/-- What is read are the next bytes of the answers to the frames of the connection. -/
def Answers (peer : Peer) (answer : List Event → Bytes → Bytes) : Prop :=
  ∀ log len bytes, peer.readExact log len = .ok bytes →
    List.ofFn bytes = (unread answer log).take len

theorem answers_answering (answer : List Event → Bytes → Bytes) :
    Answers (answering answer) answer := by
  intro log len bytes answered
  unfold answering at answered
  dsimp only at answered
  split at answered
  next enough =>
    cases answered
    refine List.ext_getElem (by simp [enough]) fun i _ _ => ?_
    simp
  next => cases answered

/-- Nothing follows the frame that the length field declares. -/
def OneFrame (bytes : Bytes) : Prop :=
  ∀ declared, u16Le bytes 7 = .ok declared → bytes.length ≤ 9 + declared.toNat

/-- Nothing lies unread on the stream, if there is one. -/
def Settled (answer : List Event → Bytes → Bytes) (s : Session Unit) : Prop :=
  s.stream = true → unread answer s.log = []

/-- The frame is the answer to the request that was sent last. -/
def OwnAnswer (answer : List Event → Bytes → Bytes) (kind : FrameKind) (request frame : Bytes)
    (t : Session Unit) : Prop :=
  ∃ n log, t.log = .awaited n :: .awaited 9 :: .sent kind request :: log ∧
    frame = answer log request

variable {peer : Peer} {answer : List Event → Bytes → Bytes} (config : McConfig)
  {s : Session Unit}

/-- Every end without a stream. -/
abbrev Gone (_ : Stop) (t : Session Unit) : Prop := t.stream = false

theorem gone_closes : Closes Gone := fun _ _ closed => closed

theorem Settled.of_gone {t : Session Unit} (gone : t.stream = false) : Settled answer t :=
  fun connected => absurd connected (by rw [gone]; decide)

/-! ## One call -/

theorem wp_ensureConnected :
    wp (ensureConnected peer config)
      (fun _ t => t.stream = true ∧ ∀ answer, Settled answer s → unread answer t.log = [])
      Gone s := by
  rw [ensureConnected, wp_bind, wp_isConnected, wp_ite]
  refine ⟨fun connected => ⟨connected, fun _ settled => settled connected⟩, fun closed => ?_⟩
  refine wp_retry gone_closes (fun _ _ gone _ _ => gone) (fun s closed => ?_) 3
    (by simpa using closed)
  exact wp_seq (wp_tcpConnect peer _ _)
    (fun _ t connected => ⟨rfl, fun answer _ => connected.2 answer⟩)
    fun _ _ same => same.trans closed

/-- A frame that is read is the whole answer. -/
theorem wp_readFrame (answers : Answers peer answer) {reply : Bytes} (framed : OneFrame reply)
    (connected : s.stream = true) (waiting : unread answer s.log = reply) :
    wp (readFrame peer)
      (fun frame t => frame = reply ∧ t.stream = true ∧ unread answer t.log = [] ∧
        ∃ n, t.log = .awaited n :: .awaited 9 :: s.log) Gone s := by
  rw [readFrame, wp_bind, wp_isConnected, wp_ite]
  refine ⟨fun _ => ?_, fun closed => absurd connected closed⟩
  refine wp_seq (wp_readStream peer drops_dropStream gone_closes 9) (fun head t read => ?_)
    fun _ _ => id
  obtain ⟨rfl, head, answered, rfl⟩ := read
  have head_eq := answers _ _ _ answered
  rw [waiting] at head_eq
  have long : 9 ≤ reply.length := by
    have lengths := congrArg List.length head_eq
    rw [List.length_ofFn, List.length_take] at lengths
    omega
  obtain ⟨declared, length⟩ : ∃ declared, u16Le reply 7 = .ok declared := by
    simp [u16Le, byteAt, show 7 < reply.length by omega, show 8 < reply.length by omega, bind,
      Except.bind]
  have head_length : u16Le (reply.take 9) 7 = u16Le reply 7 := by simp [u16Le, byteAt]
  rw [head_eq, head_length, length, wp_bind, wp_liftExcept]
  refine ⟨fun _ eq => ?_, fails_ok _⟩
  cases eq
  refine wp_seq (wp_readStream peer drops_dropStream gone_closes _) (fun body t read => ?_)
    fun _ _ => id
  obtain ⟨rfl, body, answered', rfl⟩ := read
  have body_eq := answers _ _ _ answered'
  rw [unread_awaited, waiting] at body_eq
  have fits := framed declared length
  have all : (reply.drop 9).take declared.toNat = reply.drop 9 :=
    List.take_of_length_le (by rw [List.length_drop]; omega)
  refine ⟨?_, connected, ?_, declared.toNat, rfl⟩
  · rw [body_eq, all, List.take_append_drop]
  · rw [unread_awaited, unread_awaited, waiting, List.drop_drop]
    exact List.drop_of_length_le fits

/-- From a settled session, a call returns its own answer and leaves a settled session. -/
theorem wp_transact (answers : Answers peer answer)
    (framed : ∀ log frame, OneFrame (answer log frame)) (settled : Settled answer s)
    (kind : FrameKind) (request : Bytes) :
    wp (transact peer config kind request)
      (fun frame t => Settled answer t ∧ OwnAnswer answer kind request frame t)
      (fun _ t => Settled answer t) s := by
  have gone : ∀ stop (t : Session Unit), Gone stop t → Settled answer t :=
    fun _ _ => Settled.of_gone
  have dropped : ∀ {α : Type} {Q : α → Session Unit → Prop} {e : DriverErrorInfo}
      {u : Session Unit}, wp (do dropStream; fail e) Q (fun _ t => Settled answer t) u :=
    wp_mono (drops_dropStream.fail gone_closes _) (fun _ _ => id) gone
  rw [transact]
  refine wp_seq (wp_ensureConnected config) (fun _ t connected => ?_) gone
  obtain ⟨connected, empty⟩ := connected
  have empty := empty answer settled
  rw [wp_bind, wp_liftExcept]
  refine ⟨fun area _ => ?_, fun _ _ _ => empty⟩
  rw [wp_ite]
  refine ⟨fun _ => dropped, fun _ => ?_⟩
  rw [wp_bind, wp_liftExcept]
  refine ⟨fun expected _ => ?_, fun _ _ _ => empty⟩
  refine wp_seq (wp_sendStream peer drops_dropStream gone_closes kind request)
    (fun _ u sent => ?_) gone
  obtain ⟨_, rfl⟩ := sent
  have waiting : unread answer (.sent kind request :: t.log) = answer t.log request := by
    rw [unread_sent, empty, List.nil_append]
  refine wp_seq (wp_readFrame answers (framed _ _) connected waiting) (fun frame u read => ?_) gone
  obtain ⟨own, _, rest, n, log⟩ := read
  rw [wp_bind, wp_liftExcept]
  refine ⟨fun head _ => ?_, fun _ _ _ => rest⟩
  simp only [wp_ite]
  exact ⟨fun _ => dropped, fun _ => ⟨fun _ => rest, n, t.log, log, own⟩⟩

/-! ## Errors -/

/-- The part of `transact` up to the whole answer, with the length that is expected. -/
def received (peer : Peer) (config : McConfig) (kind : FrameKind) (request : Bytes) :
    DriverM Unit (Nat × Bytes) := do
  ensureConnected peer config
  let area ← liftExcept (commandArea request)
  if area.length < 12 then
    dropStream
    fail (.invalidResponse "请求指令区截断")
  else
    let expectedRespLen ← liftExcept (respLenOf area)
    sendStream peer dropStream kind request
    let frame ← readFrame peer
    pure (expectedRespLen, frame)

/-- The rest of `transact`. -/
def checkLength (config : McConfig) (expectedRespLen : Nat) (frame : Bytes) :
    DriverM Unit Bytes := do
  let (head, _) ← liftExcept (parseResponseHead frame config.routing)
  let isErrorReply := head.endCode ≠ 0 ∧ head.declaredLen = 2
  if head.declaredLen ≠ expectedRespLen ∧ ¬isErrorReply then
    dropStream
    let declared := head.declaredLen
    fail (.invalidResponse
      s!"应答数据长与期望不符：声明 {declared}，按请求推算 {expectedRespLen}")
  else pure frame

theorem transact_eq (kind : FrameKind) (request : Bytes) :
    transact peer config kind request =
      received peer config kind request >>= fun r => checkLength config r.1 r.2 := by
  rw [transact, received, bind_assoc]
  refine congrArg _ (funext fun _ => ?_)
  rw [bind_assoc]
  refine congrArg _ (funext fun area => ?_)
  split
  · rfl
  · simp only [bind_assoc, pure_bind]
    rfl

/-- The first part ends with a whole answer on the stream, or without a stream. -/
theorem wp_received (kind : FrameKind) (request : Bytes) :
    wp (received peer config kind request) (fun _ t => t.stream = true) Hung s := by
  rw [received]
  refine wp_seq (wp_ensureConnected config) (fun _ t connected => ?_)
    fun _ _ gone _ _ => gone
  rw [wp_bind, wp_liftExcept]
  refine ⟨fun area _ => ?_, by simp [commandArea, Hung]⟩
  rw [wp_ite]
  refine ⟨fun _ => drops_dropStream.fail hung_closes _, fun _ => ?_⟩
  rw [wp_bind, wp_liftExcept]
  refine ⟨fun expected _ => ?_, by simp [respLenOf, Hung]⟩
  refine wp_seq (wp_sendStream peer drops_dropStream hung_closes kind request)
    (fun _ u sent => ?_) fun _ _ => id
  obtain ⟨_, rfl⟩ := sent
  rw [wp_bind, readFrame, wp_bind, wp_isConnected, wp_ite]
  refine ⟨fun _ => ?_, fun closed => absurd connected.1 closed⟩
  refine wp_seq (wp_readStream peer drops_dropStream hung_closes 9) (fun head u read => ?_)
    fun _ _ => id
  obtain ⟨rfl, _⟩ := read
  rw [wp_bind, wp_liftExcept]
  refine ⟨fun declared _ => ?_, fails_u16Le nofun _ _⟩
  refine wp_seq (wp_readStream peer drops_dropStream hung_closes _) (fun body u read => ?_)
    fun _ _ => id
  obtain ⟨rfl, _⟩ := read
  exact connected.1

/-- The head of the answer is not refused. -/
def HeadAccepted (config : McConfig) (frame : Bytes) : Prop :=
  ∀ e, parseResponseHead frame config.routing ≠ .error (.error e)

theorem wp_checkLength {expectedRespLen : Nat} {frame : Bytes} (connected : s.stream = true) :
    wp (checkLength config expectedRespLen frame) (fun _ _ => True) Hung s ↔
      HeadAccepted config frame := by
  rw [checkLength, wp_bind, wp_liftExcept]
  constructor
  · intro h e refused
    have closed := h.2 _ refused e rfl
    rw [connected] at closed
    cases closed
  · intro accepted
    refine ⟨fun head _ => ?_, fun stop refused e eq => absurd (eq ▸ refused) (accepted e)⟩
    simp only [wp_ite]
    exact ⟨fun _ => drops_dropStream.fail hung_closes _, fun _ => trivial⟩

/-! ## All calls -/

/-- `t` is the session after `m` from `s`, however it ends. -/
def After {α : Type} (m : DriverM Unit α) (s t : Session Unit) : Prop :=
  wp m (fun _ u => u = t) (fun _ u => u = t) s

/-- The sessions that calls lead to. -/
inductive Reached (peer : Peer) (config : McConfig) : Session Unit → Prop where
  | start : Reached peer config ⟨false, [], ()⟩
  | connect {s t} : Reached peer config s → After (ensureConnected peer config) s t →
      Reached peer config t
  | disconnect {s t} : Reached peer config s → After dropStream s t → Reached peer config t
  | transact {s t} (kind : FrameKind) (request : Bytes) : Reached peer config s →
      After (transact peer config kind request) s t → Reached peer config t

theorem After.of_wp {α : Type} {m : DriverM Unit α} {t : Session Unit} {P : Session Unit → Prop}
    (after : After m s t) (h : wp m (fun _ u => P u) (fun _ u => P u) s) : P t := by
  unfold After wp at after
  unfold wp at h
  cases run : m s with
  | ok a u | error e u =>
    rw [run] at after h
    exact after ▸ h

theorem settled_of_reached (answers : Answers peer answer)
    (framed : ∀ log frame, OneFrame (answer log frame)) (reached : Reached peer config s) :
    Settled answer s := by
  induction reached with
  | start => exact nofun
  | connect _ after settled =>
    exact after.of_wp (wp_mono (wp_ensureConnected config)
      (fun _ _ connected _ => connected.2 answer settled) fun _ _ => Settled.of_gone)
  | disconnect _ after =>
    exact after.of_wp (wp_mono (drops_dropStream _) (fun _ _ => Settled.of_gone)
      fun _ _ => False.elim)
  | transact kind request _ after settled =>
    exact after.of_wp (wp_mono (wp_transact config answers framed settled kind request)
      (fun _ _ done => done.1) fun _ _ => id)

/-- Every error of a call drops the stream, just if the head of a whole answer is not
refused. -/
theorem hangs_up_iff (kind : FrameKind) (request : Bytes) :
    (∀ e t, transact peer config kind request s = .error (.error e) t → t.stream = false) ↔
      ∀ r t, received peer config kind request s = .ok r t → HeadAccepted config r.2 := by
  have hung : (∀ e t, transact peer config kind request s = .error (.error e) t →
      t.stream = false) ↔
      wp (transact peer config kind request) (fun _ _ => True) Hung s := by
    unfold wp
    cases transact peer config kind request s with
    | ok frame t =>
      refine iff_of_true (fun e u eq => ?_) trivial
      cases eq
    | error stop t =>
      refine ⟨fun h e eq => h e t (by rw [eq]), fun h e u eq => ?_⟩
      cases eq
      exact h e rfl
  rw [hung, transact_eq, wp_bind]
  have first : wp (received peer config kind request) (fun _ t => t.stream = true) Hung s :=
    wp_received config kind request
  constructor
  · intro h r t whole
    rw [wp, whole] at first h
    exact (wp_checkLength config first).mp h
  · intro accepted
    unfold wp at first ⊢
    cases whole : received peer config kind request s with
    | ok r t =>
      rw [whole] at first
      exact (wp_checkLength config first).mpr (accepted r t whole)
    | error stop t =>
      rw [whole] at first
      exact first

/-- With a peer no answer of which goes on after its frame, every call returns the answer to its
own request.  With any peer, every error of a call drops the stream, just if the head of a whole
answer is not refused. -/
theorem transact_attribution (peer : Peer) (kind : FrameKind) (request : Bytes) :
    (∀ answer s, Answers peer answer → (∀ log frame, OneFrame (answer log frame)) →
      Reached peer config s → ∀ frame t, transact peer config kind request s = .ok frame t →
        OwnAnswer answer kind request frame t) ∧
    ∀ s, (∀ e t, transact peer config kind request s = .error (.error e) t → t.stream = false) ↔
      ∀ r t, received peer config kind request s = .ok r t → HeadAccepted config r.2 := by
  refine ⟨fun answer s answers framed reached frame t returned => ?_,
    fun s => hangs_up_iff config kind request⟩
  have settled := settled_of_reached config answers framed reached
  have done := wp_transact config answers framed settled kind request
  rw [wp, returned] at done
  exact done.2

/-- A routing, a configuration and a write request. -/
def sampleConfig : McConfig := ⟨"plc", 5007, ⟨0, 0xFF, 0x03FF, 0⟩, 0x10, 960, 720⟩

/-- A write of one word. -/
def sampleRequest : Bytes :=
  buildWriteRequest .d 0 1 [0x34, 0x12] sampleConfig.monitoringTimer sampleConfig.routing

/-- An answer with an end code. -/
def endReply (endCode : UInt8) : Bytes :=
  [0xD0, 0x00, 0x00, 0xFF, 0xFF, 0x03, 0x00, 0x02, 0x00, endCode, 0x00]

theorem oneFrame_endReply (endCode : UInt8) : OneFrame (endReply endCode) := by
  intro declared eq
  cases eq
  exact (by decide : 11 ≤ 9 + (UInt16.ofNat (ofLeBytes [2, 0])).toNat)

/-- The first request of a session takes its answer. -/
theorem transact_attribution_first :
    outcome (transact (answering fun _ _ => endReply 0) sampleConfig .write sampleRequest
      ⟨false, [], ()⟩) = .ok (endReply 0) ∧
    ∀ frame t, transact (answering fun _ _ => endReply 0) sampleConfig .write sampleRequest
      ⟨false, [], ()⟩ = .ok frame t → frame = endReply 0 := by
  refine ⟨by rfl, fun frame t returned => ?_⟩
  obtain ⟨n, log, _, own⟩ := (transact_attribution sampleConfig _ .write sampleRequest).1 _ _
    (answers_answering fun _ _ => endReply 0) (fun _ _ => oneFrame_endReply 0) .start frame t
    returned
  exact own

/-- A first answer of two frames, the first with a wrong subheader: the error keeps the stream,
and the second request, which the PLC refuses, takes the frame that is left as its own. -/
def straddling (log : List Event) (_ : Bytes) : Bytes :=
  if log.any Event.isWrite then endReply 0x55
  else (endReply 0).set 0 0xD1 ++ endReply 0

/-- The answer to the first request is taken for that to the second. -/
theorem transact_misattributes :
    Answers (answering straddling) straddling ∧
    (match transact (answering straddling) sampleConfig .write sampleRequest ⟨false, [], ()⟩ with
      | .error (.error _) t =>
        t.stream && match transact (answering straddling) sampleConfig .write sampleRequest t with
          | .ok frame _ => frame == endReply 0 && straddling t.log sampleRequest == endReply 0x55
          | .error _ _ => false
      | _ => false) = true :=
  ⟨answers_answering straddling, by decide⟩

end ForgeLink.Drivers.MitsubishiMc
