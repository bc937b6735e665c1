import ForgeLink.Lib.Run
import ForgeLink.Lib.Window
import ForgeLink.Buffer.Model

/-!
# The worker of the local buffer

`worker.rs`: the thread that owns the database and the in-memory queue, the
commands that callers send it, and their reply channels.

The worker's loop is cut where a statement can fail: a round up to
`flush_pending_push`, each pass of the flush, and each command.  A label carries
what the environment decides, which is the clock, the outcome of each statement
and the numbers an insert skips.  How long the worker waits for a command is
left out, so a `timeout` is possible whenever it waits.

A call of a `LocalBuffer` method goes by a `CallId`, which names its reply
channel and, for `next`, its delivery confirmation.  A caller gives up by
dropping the call; an answer to it is then dropped.  A call that finds the
worker gone is answered `Closed` by the handle.

`log` and `PendingPush.first` record what happened; the worker does not read
them.
-/

namespace ForgeLink.Buffer

open Lib

/-- How many commands may wait for the worker. -/
def channelCapacity : Nat := 1024

/-- How many calls may wait for one record. -/
def maxWaitersPerRecord : Nat := 1024

/-- `u64::saturating_add`. -/
def saturatingAdd (a b : Nat) : Nat := min (a + b) (2 ^ 64 - 1)

/-! ## Metrics -/

/-- `WalMetrics`, with a registry. -/
structure WalMetrics where
  inflight : Int
  diskBytes : Nat
  ackDropped : Nat
  replayed : Nat
deriving DecidableEq, Repr

namespace WalMetrics

/-- A record was stored. -/
def observePersisted (m : WalMetrics) (costBytes : Nat) : WalMetrics :=
  { m with inflight := m.inflight + 1, diskBytes := m.diskBytes + costBytes }

/-- The gauges at the start, from what is in the table. -/
def observeRestored (count bytes : Nat) : WalMetrics :=
  { inflight := count, diskBytes := bytes, ackDropped := 0, replayed := 0 }

/-- Expired records were removed. -/
def observeExpired (m : WalMetrics) (n bytes : Nat) : WalMetrics :=
  { m with
    inflight := m.inflight - n
    diskBytes := m.diskBytes - bytes
    ackDropped := m.ackDropped + n }

/-- A record was acknowledged. -/
def observeAcked (m : WalMetrics) (costBytes : Nat) : WalMetrics :=
  { m with inflight := m.inflight - 1, diskBytes := m.diskBytes - costBytes }

/-- Records were refused for want of room. -/
def observeCapacityRejected (m : WalMetrics) (n : Nat) : WalMetrics :=
  { m with ackDropped := m.ackDropped + n }

/-- A record was handed out as a replay. -/
def observeReplayed (m : WalMetrics) : WalMetrics := { m with replayed := m.replayed + 1 }

end WalMetrics

/-! ## Commands and state -/

/-- A call of a method of `LocalBuffer`. -/
abbrev CallId := Nat

/-- What a call asks for. -/
inductive Request where
  | push (batch : ObservationBatch)
  | next
  | ack (localSeq : Int)
  | requeue (localSeq : Int)
  | shutdown
deriving DecidableEq, Repr

/-- `Cmd`: a request and its reply channel. -/
structure Cmd where
  call : CallId
  request : Request
deriving DecidableEq, Repr

/-- What a call is answered. -/
inductive Answer where
  | done (result : Except LocalBufferError Unit)
  | taken (result : Except LocalBufferError (Option StoredBatch))
deriving DecidableEq

/-- `PendingPush`, with the call that started the wait. -/
structure PendingPush where
  record : MemRecord
  replies : List CallId
  first : CallId
deriving DecidableEq, Repr

/-- A record that was handed out, and the call that has not taken it yet. -/
structure PendingConfirm where
  localSeq : Int
  call : CallId
deriving DecidableEq, Repr

/-- The variables of the worker. -/
structure WorkerState where
  mem : List MemRecord
  inflight : List MemRecord
  pendingPush : List PendingPush
  lastLoadedSeq : Int
  recoverWatermark : Int
  loadError : Option LocalBufferError
  bytes : Nat
  pendingConfirm : List PendingConfirm

/-- Where the worker is: at the top of its loop, in `flush_pending_push` (with
the progress made so far), waiting for a command, or gone. -/
inductive Pc where
  | top
  | flushing (progress : Bool)
  | waiting
  | closed
deriving DecidableEq, Repr

/-- What the log records. -/
inductive Event where
  /-- A record starts to wait for room. -/
  | queued (call : CallId) (record : MemRecord)
  /-- The record of a call is inserted, after a wait or at once. -/
  | inserted (call : CallId) (row : MemRecord) (waited : Bool)
  | answered (call : CallId) (answer : Answer)
  | acked (row : MemRecord)
  | expired (row : MemRecord)
deriving DecidableEq

/-- The worker, its database and its callers. -/
structure State extends WorkerState where
  table : Batches
  metrics : WalMetrics
  pc : Pc
  queue : List Cmd
  /-- The request of each call that was made. -/
  sent : CallId → Option Request
  answers : CallId → List Answer
  /-- The caller has dropped the call. -/
  gone : CallId → Bool
  /-- The caller has taken the answer. -/
  extracted : CallId → Bool
  log : List Event

namespace State

/-! ## Replies -/

/-- `reply.send`. -/
def reply (s : State) (call : CallId) (answer : Answer) : State :=
  if s.gone call then s
  else
    { s with
      answers := Function.update s.answers call (s.answers call ++ [answer])
      log := .answered call answer :: s.log }

/-- Answer the waiters of a record. -/
def replyAll (s : State) (calls : List CallId) (result : Except LocalBufferError Unit) : State :=
  calls.foldl (fun s call => s.reply call (.done result)) s

/-! ## The window -/

/-- Put a record back into the queue, in its place. -/
def handleRequeue (s : State) (localSeq : Int) : State :=
  match s.inflight.find? fun r => r.localSeq = localSeq with
  | some record =>
    { s with
      inflight := s.inflight.filter fun r => r.localSeq ≠ record.localSeq
      mem := s.mem.orderedInsert (fun a b => a.localSeq < b.localSeq) record }
  | none => s

/-- `check_pending_confirm`, and whether a record was put back.  The order of
`pending_confirm` does not matter. -/
def checkPendingConfirm (s : State) : State × Bool :=
  let open_ := s.pendingConfirm.filter fun p => !s.extracted p.call
  let cancelled := open_.filter fun p => s.gone p.call
  (cancelled.foldl (fun s p => s.handleRequeue p.localSeq)
      { s with pendingConfirm := open_.filter fun p => !s.gone p.call },
    !cancelled.isEmpty)

/-- `cleanup_expired`, and whether records were deleted. -/
def cleanupExpired (s : State) (cutoffNs : Int) (fault : Fault) : State × Bool :=
  let expired := s.mem.filter fun r => r.createdAtNs < cutoffNs
  let keep (r : MemRecord) : Bool := r.localSeq ∉ expired.map MemRecord.localSeq
  if expired.isEmpty then (s, false)
  else
    match fault with
    | some _ => (s, false)
    | none =>
      ({ s with
          table := s.table.filter keep
          mem := s.mem.filter keep
          bytes := s.bytes - totalCost expired
          metrics := s.metrics.observeExpired expired.length (totalCost expired)
          log := expired.map .expired ++ s.log },
        true)

/-- The number of records in memory. -/
def held (s : State) : Nat := s.mem.length + s.inflight.length

/-- `load_more`, with the caller's update of `load_error`. -/
def loadMore (s : State) (config : LocalBufferConfig) (fault : Fault) : State :=
  if s.held ≥ config.memoryRecords then s
  else
    match fault with
    | some reason => { s with loadError := some (.db reason) }
    | none =>
      let loaded := s.table.page
        (Window.water MemRecord.localSeq s.mem s.inflight s.lastLoadedSeq)
        (config.memoryRecords - s.held)
      { s with
        mem := s.mem ++ loaded
        lastLoadedSeq := (loaded.getLast?.map MemRecord.localSeq).getD s.lastLoadedSeq
        loadError := none }

/-! ## Pushes -/

/-- There is no room for as many bytes. -/
def capacityFull (s : State) (config : LocalBufferConfig) (requested : Nat) : Bool :=
  saturatingAdd s.bytes requested > config.diskMaxBytes

/-- What follows a successful insert: the record is counted, and it enters the
memory window if there is room and no page is missing. -/
def store (s : State) (config : LocalBufferConfig) (call : CallId) (waited : Bool)
    (record : MemRecord) (table : Batches) : State :=
  { s with
    table
    bytes := saturatingAdd s.bytes (recordCost record)
    mem := if s.loadError.isNone ∧ s.held < config.memoryRecords then s.mem ++ [record] else s.mem
    metrics := s.metrics.observePersisted (recordCost record)
    log := .inserted call record waited :: s.log }

/-- Forget the calls that have gone, and the records that none waits for. -/
def pruneCancelledWaiters (s : State) : State :=
  { s with
    pendingPush := (s.pendingPush.map fun p =>
      { p with replies := p.replies.filter fun call => !s.gone call }).filter fun p =>
        !p.replies.isEmpty }

/-- One pass of `flush_pending_push`. -/
def flush (s : State) (config : LocalBufferConfig) (progress : Bool)
    (outcome : Except String Nat) : State :=
  let leave := { s with pc := if progress then .top else .waiting }
  match s.pendingPush with
  | [] => leave
  | front :: rest =>
    if s.capacityFull config (recordCost front.record) then leave
    else
      let s := { s with pendingPush := rest }
      match s.table.insertRecord front.record outcome with
      | .ok (localSeq, table) =>
        { (s.store config front.first true { front.record with localSeq } table).replyAll
            front.replies (.ok ()) with pc := .flushing true }
      | .error e => s.replyAll front.replies (.error e)

/-- The record of a batch, before it has a number. -/
def newRecord (batch : ObservationBatch) (topic : String) (payload : Bytes) (nowNs : Int) :
    MemRecord where
  localSeq := 0
  messageId := batch.messageId
  topic
  payload
  createdAtNs := nowNs
  sentCount := 0

/-- Another waiter joins the first entry of a message. -/
def addWaiter (messageId : String) (call : CallId) : List PendingPush → List PendingPush
  | [] => []
  | p :: rest =>
    if p.record.messageId = messageId then { p with replies := p.replies ++ [call] } :: rest
    else p :: addWaiter messageId call rest

/-- The message waits for room already. -/
def join (s : State) (call : CallId) (messageId : String) (waiting : PendingPush) : State :=
  if waiting.replies.length ≥ maxWaitersPerRecord then
    s.reply call (.done (.error (.capacityExceeded .memory maxWaitersPerRecord
      waiting.replies.length 1)))
  else { s with pendingPush := addWaiter messageId call s.pendingPush }

/-- The push of a record that is nowhere yet. -/
def pushNew (s : State) (config : LocalBufferConfig) (call : CallId) (record : MemRecord)
    (outcome : Except String Nat) : State :=
  let requested := recordCost record
  let full : Except LocalBufferError Unit :=
    .error (.capacityExceeded .disk config.diskMaxBytes s.bytes requested)
  let rejected := { s with metrics := s.metrics.observeCapacityRejected 1 }.reply call (.done full)
  if requested > config.diskMaxBytes then rejected
  else if s.capacityFull config requested then
    if s.pendingPush.length ≥ config.memoryRecords then rejected
    else
      match config.capacityPolicy with
      | .reject => rejected
      | .backpressure =>
        { s with
          pendingPush := s.pendingPush ++ [{ record, replies := [call], first := call }]
          log := .queued call record :: s.log }
  else
    match s.table.insertRecord record outcome with
    | .ok (localSeq, table) =>
      (s.store config call false { record with localSeq } table).reply call (.done (.ok ()))
    | .error e => s.reply call (.done (.error e))

/-- The push of a record: it may be in flight, waiting or in the table. -/
def pushRecord (s : State) (config : LocalBufferConfig) (call : CallId) (record : MemRecord)
    (fault : Fault) (outcome : Except String Nat) : State :=
  if s.inflight.any fun r => r.messageId = record.messageId then s.reply call (.done (.ok ()))
  else
    match s.pendingPush.find? fun p => p.record.messageId = record.messageId with
    | some waiting => s.join call record.messageId waiting
    | none =>
      match fault with
      | some reason => s.reply call (.done (.error (.db reason)))
      | none =>
        if s.table.rows.any fun r => r.messageId = record.messageId then
          s.reply call (.done (.ok ()))
        else s.pushNew config call record outcome

/-- The push of a batch. -/
def pushInner (s : State) (config : LocalBufferConfig) (serde : Serde) (call : CallId)
    (batch : ObservationBatch) (nowNs : Int) (fault : Fault) (outcome : Except String Nat) :
    State :=
  match telemetryTopic serde batch with
  | .error e => s.reply call (.done (.error e))
  | .ok topic =>
    match serde.toVec batch with
    | .error e => s.reply call (.done (.error (.invalidBatch ("Batch 序列化失败: " ++ e))))
    | .ok payload =>
      s.pushRecord config call (newRecord batch topic payload nowNs) fault outcome

/-! ## Next and ack -/

/-- Hand out the first record. -/
def handleNext (s : State) (serde : Serde) (fault : Fault) :
    State × Except LocalBufferError (Option StoredBatch) :=
  match s.mem with
  | [] =>
    (s, match s.loadError with
      | some e => .error e
      | none => .ok none)
  | record :: rest =>
    match serde.fromSlice record.payload with
    | .error e =>
      (s, .error (.db ("已持久化 Batch 反序列化失败（记录 local_seq=" ++
        toString record.localSeq ++ "）: " ++ e)))
    | .ok batch =>
      let replay := record.sentCount > 0 || record.localSeq ≤ s.recoverWatermark
      let batch := if replay then { batch with replayed := true } else batch
      let metrics := if replay then s.metrics.observeReplayed else s.metrics
      let sentCount := record.sentCount + 1
      match fault with
      | some reason => ({ s with metrics }, .error (.db reason))
      | none =>
        ({ s with
            metrics
            mem := rest
            table := s.table.touch ((sentCountTo sentCount).only record.localSeq)
            inflight := { record with sentCount } ::
              s.inflight.filter fun r => r.localSeq ≠ record.localSeq },
          .ok (some { localSeq := record.localSeq, topic := record.topic, batch }))

/-- The sequence of the record that a `next` hands out. -/
def takenSeq : Except LocalBufferError (Option StoredBatch) → Option Int
  | .ok (some stored) => some stored.localSeq
  | _ => none

/-- The delivery of a record is to be confirmed. -/
def awaitConfirm (s : State) (localSeq : Int) (call : CallId) : State :=
  { s with pendingConfirm := s.pendingConfirm ++ [⟨localSeq, call⟩] }

/-- The command `Next`: a record whose caller is gone is put back, and the
delivery of any other is to be confirmed. -/
def commandNext (s : State) (serde : Serde) (call : CallId) (fault : Fault) : State :=
  let (s, result) := s.handleNext serde fault
  let gone := s.gone call
  let s := s.reply call (.taken result)
  match takenSeq result with
  | none => s
  | some localSeq =>
    if gone then s.handleRequeue localSeq
    else s.awaitConfirm localSeq call

/-- Delete the row of a record. -/
def handleAck (s : State) (localSeq : Int) (fault : Fault) :
    State × Except LocalBufferError Unit :=
  match fault with
  | some reason => (s, .error (.db reason))
  | none =>
    let deleted := s.table.rows.filter fun r => r.localSeq = localSeq
    let s := { s with
      table := s.table.delete localSeq
      log := deleted.map .acked ++ s.log }
    let s :=
      if deleted.isEmpty then s
      else
        match s.inflight.find? fun r => r.localSeq = localSeq with
        | some record =>
          { s with
            inflight := s.inflight.filter fun r => r.localSeq ≠ record.localSeq
            bytes := s.bytes - recordCost record
            metrics := s.metrics.observeAcked (recordCost record) }
        | none => s
    (s, .ok ())

/-! ## Commands -/

/-- Answer a command after the shutdown. -/
def rejectCmd (s : State) (cmd : Cmd) : State :=
  match cmd.request with
  | .push _ | .ack _ | .requeue _ => s.reply cmd.call (.done (.error .closed))
  | .next => s.reply cmd.call (.taken (.error .closed))
  | .shutdown => s.reply cmd.call (.done (.ok ()))

/-- The command `Shutdown`: the waiting pushes and the commands that are still
in the channel are refused. -/
def shutdown (s : State) (call : CallId) : State :=
  let refused := s.pendingPush.foldl (fun s p => s.replyAll p.replies (.error .closed))
    { s with pendingPush := [], queue := [], pc := .closed }
  (s.queue.foldl rejectCmd refused).reply call (.done (.ok ()))

/-- One command. -/
def command (s : State) (config : LocalBufferConfig) (serde : Serde) (cmd : Cmd) (nowNs : Int)
    (fault : Fault) (outcome : Except String Nat) : State :=
  match cmd.request with
  | .push batch =>
    s.pruneCancelledWaiters.pushInner config serde cmd.call batch nowNs fault outcome
  | .next => s.commandNext serde cmd.call fault
  | .ack localSeq =>
    let (s, result) := s.handleAck localSeq fault
    s.reply cmd.call (.done result)
  | .requeue localSeq => (s.handleRequeue localSeq).reply cmd.call (.done (.ok ()))
  | .shutdown => s.shutdown cmd.call

/-! ## Opening -/

/-- The state after `open_db`, when nobody has called yet. -/
def opened (config : LocalBufferConfig) (table : Batches) : State where
  mem := table.rows.take config.memoryRecords
  inflight := []
  pendingPush := []
  lastLoadedSeq :=
    ((table.rows.take config.memoryRecords).getLast?.map MemRecord.localSeq).getD 0
  recoverWatermark := (table.rows.getLast?.map MemRecord.localSeq).getD 0
  loadError := none
  bytes := table.sqlBytes
  pendingConfirm := []
  table
  metrics := .observeRestored table.rows.length table.sqlBytes
  pc := .top
  queue := []
  sent _ := none
  answers _ := []
  gone _ := false
  extracted _ := false
  log := []

/-- `LocalBuffer::open` on a database with a valid schema. -/
def openDb (config : LocalBufferConfig) (table : Batches) : Except LocalBufferError State := do
  config.validate
  .ok (opened config table)

/-- The process dies, or is shut down, and is started again on the database:
the callers are gone with it. -/
def restart (s : State) (config : LocalBufferConfig) : State :=
  { opened config s.table with
    sent := s.sent
    answers := s.answers
    gone := fun call => s.gone call || ((s.sent call).isSome && !s.extracted call)
    extracted := s.extracted
    log := s.log }

/-! ## The machine -/

/-- A step of the worker or of a caller. -/
inductive Label where
  /-- A caller sends a command. -/
  | send (call : CallId) (request : Request)
  /-- A caller drops its call before it has taken the answer. -/
  | giveUp (call : CallId)
  /-- A caller takes its answer, and confirms the delivery. -/
  | extract (call : CallId)
  /-- A round of the loop up to `flush_pending_push`. -/
  | round (cutoffNs : Int) (cleanup load : Fault)
  | flush (outcome : Except String Nat)
  /-- No command arrives in time. -/
  | timeout
  /-- A command arrives; `fault` is the outcome of its first statement. -/
  | receive (nowNs : Int) (fault : Fault) (outcome : Except String Nat)
  /-- All handles are dropped. -/
  | hangUp
  | restart

/-- The process is started again. -/
def Label.isRestart : Label → Bool
  | .restart => true
  | _ => false

/-- The answer of a handle that finds the worker gone. -/
def refusal : Request → Answer
  | .next => .taken (.error .closed)
  | _ => .done (.error .closed)

/-- A caller sends a command: it is queued, or refused if the worker is gone. -/
def send (s : State) (call : CallId) (request : Request) : Option State :=
  if s.sent call = none then
    let s := { s with sent := Function.update s.sent call (some request) }
    if s.pc = .closed then some (s.reply call (refusal request))
    else if s.queue.length < channelCapacity then
      some { s with queue := s.queue ++ [⟨call, request⟩] }
    else none
  else none

/-- A round up to `flush_pending_push`. -/
def round (s : State) (config : LocalBufferConfig) (cutoffNs : Int) (cleanup load : Fault) :
    State :=
  let (s, requeued) := s.checkPendingConfirm
  let (s, expired) := s.cleanupExpired cutoffNs cleanup
  { s.loadMore config load with pc := .flushing (requeued || expired) }

/-- One step, if it is enabled. -/
def step (config : LocalBufferConfig) (serde : Serde) (s : State) : Label → Option State
  | .send call request => s.send call request
  | .giveUp call =>
    if (s.sent call).isSome ∧ s.extracted call = false ∧ s.gone call = false then
      some { s with gone := Function.update s.gone call true }
    else none
  | .extract call =>
    if s.answers call ≠ [] ∧ s.extracted call = false ∧ s.gone call = false then
      some { s with extracted := Function.update s.extracted call true }
    else none
  | .round cutoffNs cleanup load =>
    if s.pc = .top then some (s.round config cutoffNs cleanup load) else none
  | .flush outcome =>
    match s.pc with
    | .flushing progress => some (s.flush config progress outcome)
    | _ => none
  | .timeout => if s.pc = .waiting then some { s with pc := .top } else none
  | .receive nowNs fault outcome =>
    match s.pc, s.queue with
    | .waiting, cmd :: queue =>
      let s := ({ s with queue, pc := .top }.checkPendingConfirm).1
      some (s.command config serde cmd nowNs fault outcome)
    | _, _ => none
  | .hangUp =>
    if s.pc = .waiting ∧ s.queue = [] ∧ (s.pendingPush.flatMap PendingPush.replies).all s.gone
    then some { s with pc := .closed } else none
  | .restart => some (s.restart config)

end State

/-- The buffer as a machine. -/
def bufferMachine (config : LocalBufferConfig) (serde : Serde) :
    Lib.Machine State State.Label :=
  ⟨State.step config serde⟩

/-! ## A sample buffer -/

/-- A small configuration. -/
def sampleConfig : LocalBufferConfig where
  dbPath := "wal.db"
  memoryRecords := 2
  diskMaxBytes := 4096
  retention := 1000
  capacityPolicy := .backpressure

/-- A batch without observations. -/
def sampleBatch (messageId : String) : ObservationBatch where
  messageId
  siteId := "plant"
  deviceId := "press"
  replayed := false
  rest := []

/-- The JSON of a sample batch, whose names need no escapes. -/
def sampleBytes (batch : ObservationBatch) : Bytes :=
  ("\x7b\"schema\":\"forgelink.telemetry.v1\",\"message_id\":\"" ++ batch.messageId ++
    "\",\"site_id\":\"" ++ batch.siteId ++ "\",\"device_id\":\"" ++ batch.deviceId ++
    "\",\"sequence\":0,\"sent_at_ns\":0,\"replayed\":" ++
    (if batch.replayed then "true" else "false") ++
    ",\"observations\":[]\x7d").toByteArray.data.toList

/-- The JSON of the sample batches with the names `a`, `b` and `c`. -/
def sampleSerde : Serde where
  toVec batch := .ok (sampleBytes batch)
  fromSlice bytes :=
    match ["a", "b", "c"].find? fun messageId => sampleBytes (sampleBatch messageId) = bytes with
    | some messageId => .ok (sampleBatch messageId)
    | none => .error "expected value at line 1 column 1"
  debug text := "\"" ++ text ++ "\""

/-- A caller makes a call, and the worker goes through a round in which nothing
fails. -/
def served (call : CallId) (request : Request) : List State.Label :=
  [.send call request, .round 0 none none, .flush (.ok 0), .receive 0 none (.ok 0)]

end ForgeLink.Buffer
