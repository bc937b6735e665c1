import ForgeLink.Lib.AssocMap
import ForgeLink.Lib.Run
import Mathlib.Algebra.Ring.Nat

/-!
# The data pipeline

`data-pipeline` collects observations per device and sends them on in batches.
One task owns the two maps, the outbox and the counters; callers put
observations into a bounded channel, and the task gets permits of the output
channel.  A label is one arm of the `select!` of `run`, one turn of the loops
that follow it, or a step of a caller.

A send of a `tokio` channel first acquires a permit and then puts the value in.
The two are different labels, since the receiver may be closed in between.
`Pipeline::shutdown` takes the pipeline by value, so no call of `ingest` is in
progress then and none can follow.  The keys of a hash map are visited in some
order, which the label names.

A subtraction below zero and an `expect` on a missing value stop the task
(`Phase.panicked`).  Clocks are left out: when a tick, a deadline or a permit
comes is up to the label.
-/

namespace ForgeLink.Pipeline

open Lib

/-! ## Configuration -/

/-- The buffer, in batches of the greatest size. -/
def bufferBatchMultiplier : Nat := 16

/-- `PipelineConfig`; the times are in nanoseconds. -/
structure PipelineConfig where
  collectorSessionId : String
  siteId : String
  maxBatchSize : Nat
  flushInterval : Nat
  inputCapacity : Nat
  drainTimeout : Nat
deriving DecidableEq, Repr

/-- The configurations that `spawn` accepts. -/
def PipelineConfig.validate (config : PipelineConfig) : Except String Unit :=
  if config.siteId.isEmpty then .error "site_id 不能为空"
  else if config.collectorSessionId.isEmpty then .error "collector_session_id 不能为空"
  else if config.maxBatchSize = 0 then .error "max_batch_size 必须大于 0"
  else if ¬config.maxBatchSize * bufferBatchMultiplier < 2 ^ 64 then
    let size := config.maxBatchSize
    .error s!"max_batch_size（{size}）× BUFFER_BATCH_MULTIPLIER（{bufferBatchMultiplier}）溢出，配置过大"
  else if config.flushInterval = 0 then .error "flush_interval 必须大于 0"
  else if config.inputCapacity = 0 then .error "input_capacity 必须大于 0"
  else if config.drainTimeout = 0 then .error "drain_timeout 必须大于 0"
  else .ok ()

/-- The limit of `buffered` in `run`. -/
def PipelineConfig.bufferLimit (config : PipelineConfig) : Nat :=
  config.maxBatchSize * bufferBatchMultiplier

/-! ## Batches -/

/-- `Observation`.  The pipeline reads the device; the other fields are one value. -/
structure Observation where
  deviceId : String
  rest : Nat
deriving DecidableEq, Repr

/-- The schema of a batch. -/
def telemetrySchema : String := "forgelink.telemetry.v1"

/-- `ObservationBatch`, without the time it was made. -/
structure ObservationBatch where
  schema : String
  messageId : String
  siteId : String
  deviceId : String
  sequence : Nat
  replayed : Bool
  observations : List Observation
deriving DecidableEq, Repr

/-- A batch with its identifier. -/
def ObservationBatch.new (siteId collectorSessionId deviceId : String) (sequence : Nat)
    (observations : List Observation) : ObservationBatch where
  schema := telemetrySchema
  messageId :=
    let sessionLen := collectorSessionId.utf8ByteSize
    let deviceLen := deviceId.utf8ByteSize
    s!"{sessionLen}:{collectorSessionId}{deviceLen}:{deviceId}{sequence}"
  siteId := siteId
  deviceId := deviceId
  sequence := sequence
  replayed := false
  observations := observations

/-- A batch that is being filled. -/
structure PendingBatch where
  sequence : Nat
  observations : List Observation
deriving DecidableEq, Repr

/-- What the drain at the shutdown did. -/
structure DrainStats where
  batchesEmitted : Nat
  observationsEmitted : Nat
  batchesDropped : Nat
  observationsDropped : Nat
deriving DecidableEq, Repr

/-- The number of observations in some batches. -/
def countOf (batches : List ObservationBatch) : Nat :=
  (batches.map fun b => b.observations.length).sum

/-! ## The state -/

/-- Why `run` returned. -/
inductive Ending where
  | shutdown
  | outputClosed
  | cancelled
deriving DecidableEq, Repr

/-- Where `run` is. -/
inductive Phase where
  /-- In the `select!` of its loop. -/
  | running
  /-- In the `recv` loop of `terminate_on_output_closed`. -/
  | terminating
  /-- In `drain_outbox`. -/
  | draining
  | ended (how : Ending)
  | panicked
deriving DecidableEq, Repr

/-- The two channels, the task, and the history of what went in and came out. -/
structure State where
  /-- The input channel. -/
  queue : List Observation
  /-- Permits of the input channel that a call of `ingest` holds. -/
  permits : Nat
  /-- The receiver of the input channel is closed or gone. -/
  closed : Bool
  /-- The `Pipeline` exists, or its `shutdown` has not returned. -/
  alive : Bool
  /-- `shutdown` has sent its signal. -/
  signalled : Bool
  /-- The receiver of the output channel exists. -/
  outputOpen : Bool
  phase : Phase
  pending : AssocMap String PendingBatch
  deviceSequence : AssocMap String Nat
  outbox : List ObservationBatch
  buffered : Nat
  stats : DrainStats
  /-- What `ingest` has put into the channel, oldest first. -/
  ingested : List Observation
  /-- What the task has sent, oldest first. -/
  emitted : List ObservationBatch
  /-- What the task has thrown away, oldest first. -/
  dropped : List ObservationBatch

/-- `PipelineError`. -/
inductive PipelineError where
  | invalidConfig (reason : String)
  | closed
  | taskFailed (reason : String)
deriving DecidableEq, Repr

/-- The state in which `run` enters its loop. -/
def State.start : State where
  queue := []
  permits := 0
  closed := false
  alive := true
  signalled := false
  outputOpen := true
  phase := .running
  pending := .empty
  deviceSequence := .empty
  outbox := []
  buffered := 0
  stats := ⟨0, 0, 0, 0⟩
  ingested := []
  emitted := []
  dropped := []

/-- Start the pipeline. -/
def spawnInner (config : PipelineConfig) : Except PipelineError State :=
  match config.validate with
  | .error reason => .error (.invalidConfig reason)
  | .ok _ => .ok .start

namespace State

/-! ## Collecting and flushing -/

/-- `aggregate_observation`; the arm of `recv` does the same. -/
def aggregateObservation (s : State) (o : Observation) : State :=
  match s.pending.get? o.deviceId with
  | some entry =>
    { s with pending := s.pending.insert o.deviceId
              { entry with observations := entry.observations ++ [o] } }
  | none =>
    match s.deviceSequence.get? o.deviceId with
    | some sequence => { s with pending := s.pending.insert o.deviceId ⟨sequence, [o]⟩ }
    | none =>
      { s with
        pending := s.pending.insert o.deviceId ⟨0, [o]⟩
        deviceSequence := s.deviceSequence.insert o.deviceId 0 }

/-- The end of the arm of `recv`: a full batch goes to the outbox. -/
def pushFull (config : PipelineConfig) (s : State) (deviceId : String) : State :=
  match s.pending.get? deviceId with
  | none => { s with phase := .panicked }
  | some entry =>
    if config.maxBatchSize ≤ entry.observations.length then
      { s with
        pending := s.pending.erase deviceId
        outbox := s.outbox ++ [.new config.siteId config.collectorSessionId deviceId
          entry.sequence entry.observations]
        deviceSequence := s.deviceSequence.modify deviceId (· + 1) }
    else s

/-- The loop of `flush_pending_to_outbox` over the observations of a device: the
batches it makes and the next number.  A batch takes at least one observation,
so the loop has no more turns than there are observations. -/
def split (config : PipelineConfig) (deviceId : String) :
    (turns sequence : Nat) → List Observation → List ObservationBatch × Nat
  | 0, sequence, _ => ([], sequence)
  | _ + 1, sequence, [] => ([], sequence)
  | turns + 1, sequence, o :: os =>
    let take := min (o :: os).length config.maxBatchSize
    let rest := split config deviceId turns (sequence + 1) ((o :: os).drop take)
    (.new config.siteId config.collectorSessionId deviceId sequence ((o :: os).take take) ::
      rest.1, rest.2)

/-- The turn of `flush_pending_to_outbox` for one device. -/
def flushDevice (config : PipelineConfig) (s : State) (deviceId : String) : State :=
  match s.pending.get? deviceId with
  | none => { s with phase := .panicked }
  | some entry =>
    let made := split config deviceId entry.observations.length entry.sequence
      entry.observations
    { s with
      pending := s.pending.erase deviceId
      outbox := s.outbox ++ made.1
      deviceSequence := s.deviceSequence.modify deviceId fun _ => made.2 }

/-- `flush_pending_to_outbox`, which visits the devices in the order `deviceIds`. -/
def flushPendingToOutbox (config : PipelineConfig) (s : State) (deviceIds : List String) : State :=
  deviceIds.foldl (flushDevice config) s

/-- `deviceIds` are the keys of `pending`. -/
def Visits (s : State) (deviceIds : List String) : Prop :=
  deviceIds.Perm (s.pending.toList.map Prod.fst)

instance (s : State) (deviceIds : List String) : Decidable (s.Visits deviceIds) :=
  inferInstanceAs (Decidable (List.Perm _ _))

/-! ## Sending and dropping -/

/-- A batch is sent, and counted. -/
def emit (s : State) (batch : ObservationBatch) (rest : List ObservationBatch) : State :=
  { s with
    outbox := rest
    emitted := s.emitted ++ [batch]
    stats := { s.stats with
      batchesEmitted := s.stats.batchesEmitted + 1
      observationsEmitted := s.stats.observationsEmitted + batch.observations.length } }

/-- `drop_outbox_rest`, and the end of `terminate_on_output_closed`. -/
def dropOutbox (s : State) : State :=
  { s with
    outbox := []
    dropped := s.dropped ++ s.outbox
    stats := { s.stats with
      batchesDropped := s.stats.batchesDropped + s.outbox.length
      observationsDropped := s.stats.observationsDropped + countOf s.outbox } }

/-- `run` returns; the receiver of the input goes with it. -/
def finish (s : State) (how : Ending) : State := { s with phase := .ended how, closed := true }

end State

/-! ## The steps -/

/-- A step of a caller, of the consumer or of the task. -/
inductive Label where
  /-- A call of `ingest` gets a permit. -/
  | acquire
  /-- A call of `ingest` is given up while it holds a permit. -/
  | release
  /-- A call of `ingest` puts its observation in and succeeds. -/
  | send (observation : Observation)
  /-- `Pipeline::shutdown` is called. -/
  | shutdown
  /-- The `Pipeline`, or a `shutdown` that waits, is dropped. -/
  | dropHandle
  /-- The consumer drops the receiver of the output. -/
  | closeOutput
  /-- The arm of `flush.tick`. -/
  | tick (deviceIds : List String)
  /-- The arm of `ingest_rx.recv`, or a turn of the loop of
  `terminate_on_output_closed`. -/
  | recv
  /-- The arm of `output_tx.reserve` with a permit, or the one of `drain_outbox`. -/
  | permit
  /-- The arm of `output_tx.closed`, or of a failed `output_tx.reserve`. -/
  | outputClosed
  /-- The loop of `terminate_on_output_closed` is over. -/
  | terminate (deviceIds : List String)
  /-- The arm of `shutdown_rx.changed`. -/
  | changed (deviceIds : List String)
  /-- `drain_outbox` passes its deadline. -/
  | deadline
  /-- `drain_outbox` fails to get a permit. -/
  | drainClosed
  /-- `drain_outbox` finds the outbox empty. -/
  | drained
deriving DecidableEq, Repr

namespace State

/-- The arm of `ingest_rx.recv`. -/
def recv (config : PipelineConfig) (s : State) : Option State :=
  match s.phase, s.queue with
  | .running, o :: rest =>
    if s.buffered < config.bufferLimit then
      some ({ s with queue := rest, buffered :=
        s.buffered + 1 }.aggregateObservation o |>.pushFull
        config o.deviceId)
    else none
  | .running, [] =>
    -- Only a channel without senders gives `None`.
    if s.buffered < config.bufferLimit ∧ s.alive = false then some (s.finish .cancelled) else none
  | .terminating, o :: rest => some ({ s with queue := rest }.aggregateObservation o)
  | _, _ => none

/-- A permit of the output channel. -/
def permit (s : State) : Option State :=
  match s.phase, s.outbox with
  | .running, batch :: rest =>
    if s.outputOpen then
      let count := batch.observations.length
      if count ≤ s.buffered then
        some ({ s with buffered := s.buffered - count }.emit batch rest)
      else some { s with phase := .panicked }
    else none
  | .draining, batch :: rest => if s.outputOpen then some (s.emit batch rest) else none
  | _, _ => none

/-- The arm of `shutdown_rx.changed`. -/
def changed (config : PipelineConfig) (s : State) (deviceIds : List String) : Option State :=
  if s.phase = .running then
    if s.signalled then
      let filled := s.queue.foldl aggregateObservation { s with queue := [] }
      if filled.Visits deviceIds then
        let flushed := filled.flushPendingToOutbox config deviceIds
        some { flushed with
          phase := if flushed.phase = .panicked then .panicked else .draining }
      else none
    else if s.alive = false then some (s.finish .cancelled)
    else none
  else none

/-- `run` and its environment. -/
def step (config : PipelineConfig) (s : State) : Label → Option State
  | .acquire =>
    if s.alive ∧ ¬s.signalled ∧ ¬s.closed ∧ s.queue.length + s.permits < config.inputCapacity
    then some { s with permits := s.permits + 1 } else none
  | .release => if 0 < s.permits then some { s with permits := s.permits - 1 } else none
  | .send o =>
    if 0 < s.permits then
      some { s with
        permits := s.permits - 1, queue := s.queue ++ [o], ingested := s.ingested ++ [o] }
    else none
  | .shutdown =>
    if s.alive ∧ ¬s.signalled ∧ s.permits = 0 then some { s with signalled := true } else none
  | .dropHandle => if s.alive ∧ s.permits = 0 then some { s with alive := false } else none
  | .closeOutput => some { s with outputOpen := false }
  | .tick deviceIds =>
    if s.phase = .running ∧ s.Visits deviceIds then
      some (s.flushPendingToOutbox config deviceIds) else none
  | .recv => s.recv config
  | .permit => s.permit
  | .outputClosed =>
    if s.phase = .running ∧ s.outputOpen = false then
      some { s with closed := true, phase := .terminating } else none
  | .terminate deviceIds =>
    if s.phase = .terminating ∧ s.queue = [] ∧ s.permits = 0 ∧ s.Visits deviceIds then
      let flushed := s.flushPendingToOutbox config deviceIds
      if flushed.phase = .panicked then some flushed
      else some (flushed.dropOutbox.finish .outputClosed)
    else none
  | .changed deviceIds => s.changed config deviceIds
  | .deadline =>
    if s.phase = .draining ∧ s.outbox ≠ [] then some (s.dropOutbox.finish .shutdown) else none
  | .drainClosed =>
    if s.phase = .draining ∧ s.outbox ≠ [] ∧ s.outputOpen = false then
      some (s.dropOutbox.finish .shutdown) else none
  | .drained =>
    if s.phase = .draining ∧ s.outbox = [] then some (s.finish .shutdown) else none

end State

/-- The pipeline as a machine. -/
def machine (config : PipelineConfig) : Machine State Label := ⟨State.step config⟩

end ForgeLink.Pipeline
