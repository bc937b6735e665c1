import ForgeLink.Buffer.Worker

/-!
# What a step of the worker can do

The commands of the worker as relations, with their guards and the states they
lead to (`Pushes`, `Takes`, `Acks`, `Flushes`), and the steps of the machine
(`Move`).  They are proved once from the functions, and the invariants of the
buffer are proved by cases on them.
-/

namespace ForgeLink.Buffer

open Lib

variable {batch : ObservationBatch} {outcome : Except String Nat} {fault : Fault}

/-- The records and the bytes that the metrics show. -/
def WalMetrics.gauges (m : WalMetrics) : Int × Nat := (m.inflight, m.diskBytes)

namespace State

variable {config : LocalBufferConfig} {serde : Serde} {s s' : State} {call : CallId}
  {localSeq : Int}

/-! ## Replies -/

/-- What a list of replies leaves alone. -/
structure Answered (s s' : State) : Prop where
  worker : s'.toWorkerState = s.toWorkerState
  table : s'.table = s.table
  pc : s'.pc = s.pc
  queue : s'.queue = s.queue
  sent : s'.sent = s.sent
  gone : s'.gone = s.gone
  extracted : s'.extracted = s.extracted
  metrics : s'.metrics = s.metrics

theorem Answered.refl (s : State) : Answered s s := ⟨rfl, rfl, rfl, rfl, rfl, rfl, rfl, rfl⟩

theorem Answered.trans {s₁ s₂ s₃ : State} (h : Answered s₁ s₂) (h' : Answered s₂ s₃) :
    Answered s₁ s₃ :=
  ⟨h'.worker.trans h.worker, h'.table.trans h.table, h'.pc.trans h.pc, h'.queue.trans h.queue,
    h'.sent.trans h.sent, h'.gone.trans h.gone, h'.extracted.trans h.extracted,
    h'.metrics.trans h.metrics⟩

section

variable (s) (call) (answer : Answer)

/-- A reply adds to the answers, and to nothing else. -/
theorem answered_reply : Answered s (s.reply call answer) := by
  rw [reply]
  split <;> exact ⟨rfl, rfl, rfl, rfl, rfl, rfl, rfl, rfl⟩

@[simp] theorem reply_toWorkerState : (s.reply call answer).toWorkerState = s.toWorkerState :=
  (answered_reply s call answer).worker

@[simp] theorem reply_table : (s.reply call answer).table = s.table :=
  (answered_reply s call answer).table

@[simp] theorem reply_pc : (s.reply call answer).pc = s.pc :=
  (answered_reply s call answer).pc

@[simp] theorem reply_queue : (s.reply call answer).queue = s.queue :=
  (answered_reply s call answer).queue

@[simp] theorem reply_sent : (s.reply call answer).sent = s.sent :=
  (answered_reply s call answer).sent

@[simp] theorem reply_gone : (s.reply call answer).gone = s.gone :=
  (answered_reply s call answer).gone

@[simp] theorem reply_extracted : (s.reply call answer).extracted = s.extracted :=
  (answered_reply s call answer).extracted

@[simp] theorem reply_metrics : (s.reply call answer).metrics = s.metrics :=
  (answered_reply s call answer).metrics

end

theorem reply_answers {answer : Answer} (here : s.gone call = false) :
    (s.reply call answer).answers call = s.answers call ++ [answer] := by
  simp [reply, here]

theorem answered_replyAll (s : State) (calls : List CallId)
    (result : Except LocalBufferError Unit) : Answered s (s.replyAll calls result) := by
  induction calls generalizing s with
  | nil => exact .refl s
  | cons call calls ih => exact (answered_reply s call _).trans (ih _)

theorem answered_rejectCmd (s : State) (cmd : Cmd) : Answered s (s.rejectCmd cmd) := by
  rw [rejectCmd]
  split <;> exact answered_reply ..

/-- The state in which a shutdown answers everyone. -/
def shut (s : State) : State := { s with pendingPush := [], queue := [], pc := .closed }

theorem answered_shutdown (s : State) (call : CallId) : Answered s.shut (s.shutdown call) := by
  have waiters : ∀ (pending : List PendingPush) (s₀ : State), Answered s₀
      (pending.foldl (fun s p => s.replyAll p.replies (.error .closed)) s₀) := by
    intro pending
    induction pending with
    | nil => exact Answered.refl
    | cons p pending ih => exact fun s₀ => (answered_replyAll s₀ p.replies _).trans (ih _)
  have commands : ∀ (queue : List Cmd) (s₀ : State), Answered s₀ (queue.foldl rejectCmd s₀) := by
    intro queue
    induction queue with
    | nil => exact Answered.refl
    | cons cmd queue ih => exact fun s₀ => (answered_rejectCmd s₀ cmd).trans (ih _)
  exact ((waiters s.pendingPush s.shut).trans (commands s.queue _)).trans (answered_reply ..)

/-! ## Putting records back -/

/-- What a put-back leaves alone. -/
structure Requeued (s s' : State) : Prop where
  pendingPush : s'.pendingPush = s.pendingPush
  lastLoadedSeq : s'.lastLoadedSeq = s.lastLoadedSeq
  recoverWatermark : s'.recoverWatermark = s.recoverWatermark
  loadError : s'.loadError = s.loadError
  bytes : s'.bytes = s.bytes
  pendingConfirm : s'.pendingConfirm = s.pendingConfirm
  table : s'.table = s.table
  metrics : s'.metrics = s.metrics
  pc : s'.pc = s.pc
  queue : s'.queue = s.queue
  sent : s'.sent = s.sent
  answers : s'.answers = s.answers
  gone : s'.gone = s.gone
  extracted : s'.extracted = s.extracted
  log : s'.log = s.log

theorem requeued_handleRequeue (s : State) (localSeq : Int) :
    Requeued s (s.handleRequeue localSeq) := by
  rw [handleRequeue]
  split <;> exact ⟨rfl, rfl, rfl, rfl, rfl, rfl, rfl, rfl, rfl, rfl, rfl, rfl, rfl, rfl, rfl⟩

/-- The confirmations that are still awaited. -/
def unconfirmed (s : State) : List PendingConfirm :=
  (s.pendingConfirm.filter fun p => !s.extracted p.call).filter fun p => !s.gone p.call

/-- What a property must keep to be kept by `check_pending_confirm`. -/
theorem checkPendingConfirm_induct {P : State → Prop}
    (start : P { s with pendingConfirm := s.unconfirmed })
    (requeue : ∀ s localSeq, P s → P (s.handleRequeue localSeq)) : P s.checkPendingConfirm.1 := by
  rw [checkPendingConfirm]
  generalize (s.pendingConfirm.filter fun p => !s.extracted p.call).filter (fun p => s.gone p.call)
    = cancelled
  change P (cancelled.foldl (fun s p => s.handleRequeue p.localSeq)
    { s with pendingConfirm := s.unconfirmed })
  generalize { s with pendingConfirm := s.unconfirmed } = s₀ at start
  induction cancelled generalizing s₀ with
  | nil => exact start
  | cons p cancelled ih => exact ih _ (requeue s₀ p.localSeq start)

theorem requeued_checkPendingConfirm (s : State) :
    Requeued { s with pendingConfirm := s.unconfirmed } s.checkPendingConfirm.1 := by
  refine checkPendingConfirm_induct
    (P := Requeued { s with pendingConfirm := s.unconfirmed }) ?_ fun s₁ localSeq h => ?_
  · exact ⟨rfl, rfl, rfl, rfl, rfl, rfl, rfl, rfl, rfl, rfl, rfl, rfl, rfl, rfl, rfl⟩
  · have h' := requeued_handleRequeue s₁ localSeq
    exact ⟨h'.pendingPush.trans h.pendingPush, h'.lastLoadedSeq.trans h.lastLoadedSeq,
      h'.recoverWatermark.trans h.recoverWatermark, h'.loadError.trans h.loadError,
      h'.bytes.trans h.bytes, h'.pendingConfirm.trans h.pendingConfirm, h'.table.trans h.table,
      h'.metrics.trans h.metrics, h'.pc.trans h.pc, h'.queue.trans h.queue, h'.sent.trans h.sent,
      h'.answers.trans h.answers, h'.gone.trans h.gone, h'.extracted.trans h.extracted,
      h'.log.trans h.log⟩

/-- The state in which a command is handled, with the rest of the channel. -/
def handling (s : State) (queue : List Cmd) : State :=
  ({ s with queue, pc := .top }.checkPendingConfirm).1

/-- Callers, channel and waiting records stay as they are. -/
structure Silent (s s' : State) : Prop where
  pendingPush : s'.pendingPush = s.pendingPush
  queue : s'.queue = s.queue
  sent : s'.sent = s.sent
  answers : s'.answers = s.answers
  gone : s'.gone = s.gone
  extracted : s'.extracted = s.extracted

theorem Silent.trans {s₁ s₂ s₃ : State} (h : Silent s₁ s₂) (h' : Silent s₂ s₃) : Silent s₁ s₃ :=
  ⟨h'.pendingPush.trans h.pendingPush, h'.queue.trans h.queue, h'.sent.trans h.sent,
    h'.answers.trans h.answers, h'.gone.trans h.gone, h'.extracted.trans h.extracted⟩

theorem Requeued.silent (h : Requeued s s') : Silent s s' :=
  ⟨h.pendingPush, h.queue, h.sent, h.answers, h.gone, h.extracted⟩

theorem silent_checkPendingConfirm (s : State) : Silent s s.checkPendingConfirm.1 :=
  have h := requeued_checkPendingConfirm s
  ⟨h.pendingPush, h.queue, h.sent, h.answers, h.gone, h.extracted⟩

theorem silent_handling (s : State) (queue : List Cmd) :
    Silent { s with queue } (s.handling queue) :=
  have h := silent_checkPendingConfirm { s with queue, pc := .top }
  ⟨h.pendingPush, h.queue, h.sent, h.answers, h.gone, h.extracted⟩

theorem handling_pc (s : State) (queue : List Cmd) : (s.handling queue).pc = .top :=
  (requeued_checkPendingConfirm { s with queue, pc := .top }).pc

theorem silent_cleanupExpired (s : State) (cutoffNs : Int) (fault : Fault) :
    Silent s (s.cleanupExpired cutoffNs fault).1 := by
  unfold cleanupExpired
  dsimp only
  split
  · exact ⟨rfl, rfl, rfl, rfl, rfl, rfl⟩
  · split <;> exact ⟨rfl, rfl, rfl, rfl, rfl, rfl⟩

theorem loadMore_same (config : LocalBufferConfig) (s : State) (fault : Fault) :
    Silent s (s.loadMore config fault) ∧ (s.loadMore config fault).table = s.table ∧
      (s.loadMore config fault).log = s.log := by
  unfold loadMore
  split
  · exact ⟨⟨rfl, rfl, rfl, rfl, rfl, rfl⟩, rfl, rfl⟩
  · cases fault <;> exact ⟨⟨rfl, rfl, rfl, rfl, rfl, rfl⟩, rfl, rfl⟩

theorem silent_round (config : LocalBufferConfig) (s : State) (cutoffNs : Int)
    (cleanup load : Fault) : Silent s (s.round config cutoffNs cleanup load) :=
  have h := ((silent_checkPendingConfirm s).trans (silent_cleanupExpired _ cutoffNs cleanup)).trans
    (loadMore_same config _ load).1
  ⟨h.pendingPush, h.queue, h.sent, h.answers, h.gone, h.extracted⟩

/-- A round adds no row. -/
theorem mem_round {cutoffNs : Int} {cleanup load : Fault} {row : MemRecord}
    (h : row ∈ (s.round config cutoffNs cleanup load).table.rows) : row ∈ s.table.rows := by
  have loaded : row ∈ (s.checkPendingConfirm.1.cleanupExpired cutoffNs cleanup).1.table.rows :=
    (loadMore_same config _ load).2.1 ▸ h
  rw [← (requeued_checkPendingConfirm s).table]
  unfold cleanupExpired at loaded
  dsimp only at loaded
  split at loaded
  · exact loaded
  · split at loaded
    · exact loaded
    · exact List.mem_of_mem_filter loaded

/-! ## Pushes -/

/-- A record of the message is in flight or in the table. -/
def Known (s : State) (messageId : String) : Prop :=
  (∃ r ∈ s.inflight, r.messageId = messageId) ∨ ∃ r ∈ s.table.rows, r.messageId = messageId

/-- The record that a push makes of a batch. -/
def IsRecord (serde : Serde) (batch : ObservationBatch) (record : MemRecord) : Prop :=
  ∃ topic payload nowNs, telemetryTopic serde batch = .ok topic ∧
    serde.toVec batch = .ok payload ∧ record = newRecord batch topic payload nowNs

theorem IsRecord.messageId {record : MemRecord} (h : IsRecord serde batch record) :
    record.messageId = batch.messageId := by
  obtain ⟨_, _, _, _, _, rfl⟩ := h
  rfl

/-- No entry waits for the message and no row has it. -/
def Unknown (s : State) (messageId : String) : Prop :=
  ¬s.Known messageId ∧ ∀ p ∈ s.pendingPush, p.record.messageId ≠ messageId

/-- How a push ends. -/
inductive Pushes (config : LocalBufferConfig) (serde : Serde) (s : State) (call : CallId)
    (batch : ObservationBatch) : State → Prop where
  | known :
      s.Known batch.messageId → Pushes config serde s call batch (s.reply call (.done (.ok ())))
  | refused {metrics e} :
      metrics.gauges = s.metrics.gauges →
      Pushes config serde s call batch ({ s with metrics }.reply call (.done (.error e)))
  | joins {waiting} :
      s.pendingPush.find? (fun p => p.record.messageId = batch.messageId) = some waiting →
      waiting.replies.length < maxWaitersPerRecord →
      Pushes config serde s call batch
        { s with pendingPush := addWaiter batch.messageId call s.pendingPush }
  | waits {record} :
      IsRecord serde batch record → s.Unknown batch.messageId →
      s.pendingPush.length < config.memoryRecords →
      Pushes config serde s call batch
        { s with
          pendingPush := s.pendingPush ++ [{ record, replies := [call], first := call }]
          log := .queued call record :: s.log }
  | stores {record outcome n table} :
      IsRecord serde batch record → s.Unknown batch.messageId →
      s.capacityFull config (recordCost record) = false →
      s.table.insertRecord record outcome = .ok (n, table) →
      Pushes config serde s call batch
        ((s.store config call false { record with localSeq := n } table).reply call
          (.done (.ok ())))

theorem pushes_pushNew {record : MemRecord} (of : IsRecord serde batch record)
    (unknown : s.Unknown batch.messageId) :
    Pushes config serde s call batch (s.pushNew config call record outcome) := by
  rw [pushNew]
  split
  · exact .refused rfl
  · split
    next full =>
      split
      · exact .refused rfl
      next room =>
        split
        · exact .refused rfl
        · exact .waits of unknown (Nat.lt_of_not_le room)
    next free =>
      have free : s.capacityFull config (recordCost record) = false := by simpa using free
      split
      next inserted => exact .stores of unknown free inserted
      next e _ => exact @Pushes.refused _ _ s _ _ s.metrics e rfl

/-- A push ends in one of these ways. -/
theorem pushes_pushInner {nowNs : Int} :
    Pushes config serde s call batch (s.pushInner config serde call batch nowNs fault outcome) := by
  have refused : ∀ {e}, Pushes config serde s call batch (s.reply call (.done (.error e))) :=
    fun {e} => @Pushes.refused _ _ s _ _ s.metrics e rfl
  rw [pushInner]
  split
  · exact refused
  next topic valid =>
    split
    · exact refused
    next payload written =>
      have of : IsRecord serde batch (newRecord batch topic payload nowNs) :=
        ⟨topic, payload, nowNs, valid, written, rfl⟩
      unfold pushRecord
      split
      next inflight =>
        obtain ⟨r, inside, same⟩ := List.any_eq_true.mp inflight
        exact .known (.inl ⟨r, inside, of_decide_eq_true same⟩)
      next notInflight =>
        split
        next waiting found =>
          rw [join]
          split
          · exact refused
          next room => exact .joins found (Nat.lt_of_not_le room)
        next alone =>
          split
          · exact refused
          · split
            next row =>
              obtain ⟨r, inside, same⟩ := List.any_eq_true.mp row
              exact .known (.inr ⟨r, inside, of_decide_eq_true same⟩)
            next absent =>
              refine pushes_pushNew of ⟨?_, ?_⟩
              · rintro (⟨r, inside, same⟩ | ⟨r, inside, same⟩)
                · exact notInflight (List.any_eq_true.mpr ⟨r, inside, decide_eq_true same⟩)
                · exact absent (List.any_eq_true.mpr ⟨r, inside, decide_eq_true same⟩)
              · intro p inside same
                exact List.find?_eq_none.mp alone p inside (decide_eq_true same)

/-! ## The flush -/

/-- How a pass of the flush ends. -/
inductive Flushes (config : LocalBufferConfig) (s : State) (progress : Bool)
    (outcome : Except String Nat) : State → Prop where
  | leaves : Flushes config s progress outcome { s with pc := if progress then .top else .waiting }
  | stores {front rest n table} :
      s.pendingPush = front :: rest → s.capacityFull config (recordCost front.record) = false →
      s.table.insertRecord front.record outcome = .ok (n, table) →
      Flushes config s progress outcome
        { (({ s with pendingPush := rest }.store config front.first true
              { front.record with localSeq := n } table).replyAll front.replies (.ok ())) with
          pc := .flushing true }
  | fails {front rest e} :
      s.pendingPush = front :: rest → s.capacityFull config (recordCost front.record) = false →
      s.table.insertRecord front.record outcome = .error e →
      Flushes config s progress outcome
        ({ s with pendingPush := rest }.replyAll front.replies (.error e))

theorem flushes_flush {progress : Bool} :
    Flushes config s progress outcome (s.flush config progress outcome) := by
  rw [flush]
  dsimp only
  split
  · exact .leaves
  next front rest eq =>
    split
    · exact .leaves
    next free =>
      split
      next inserted => exact .stores eq (by simpa using free) inserted
      next failed => exact .fails eq (by simpa using free) failed

theorem Flushes.alive {progress : Bool} (flushes : Flushes config s progress outcome s')
    (at' : s.pc = .flushing progress) : s'.pc ≠ .closed := by
  cases flushes with
  | leaves => cases progress <;> simp
  | stores => simp
  | fails => simp [(answered_replyAll ..).pc, at']

/-! ## Next and ack -/

/-- How `handle_next` ends. -/
inductive Takes (serde : Serde) (s : State) :
    State → Except LocalBufferError (Option StoredBatch) → Prop where
  | none : s.mem = [] → s.loadError = none → Takes serde s s (.ok none)
  | fails {metrics e} :
      metrics.gauges = s.metrics.gauges → Takes serde s { s with metrics } (.error e)
  | takes {record rest batch metrics} :
      s.mem = record :: rest → serde.fromSlice record.payload = .ok batch →
      metrics.gauges = s.metrics.gauges →
      Takes serde s
        { s with
          metrics
          mem := rest
          table := s.table.touch ((sentCountTo (record.sentCount + 1)).only record.localSeq)
          inflight := { record with sentCount := record.sentCount + 1 } ::
            s.inflight.filter fun r => r.localSeq ≠ record.localSeq }
        (.ok (some
          { localSeq := record.localSeq
            topic := record.topic
            batch :=
              if record.sentCount > 0 || record.localSeq ≤ s.recoverWatermark then
                { batch with replayed := true }
              else batch }))

theorem takes_handleNext :
    Takes serde s (s.handleNext serde fault).1 (s.handleNext serde fault).2 := by
  rw [handleNext]
  split
  next empty =>
    dsimp only
    split
    · exact @Takes.fails _ s s.metrics _ rfl
    next clear => exact .none empty clear
  next record rest eq =>
    split
    · exact @Takes.fails _ s s.metrics _ rfl
    next batch read =>
      have gauges : (if record.sentCount > 0 || record.localSeq ≤ s.recoverWatermark then
          s.metrics.observeReplayed else s.metrics).gauges = s.metrics.gauges := by
        split <;> rfl
      cases fault with
      | some reason => exact .fails gauges
      | none => exact .takes eq read gauges

/-- A take answers nobody by itself. -/
theorem Takes.answers {result : Except LocalBufferError (Option StoredBatch)}
    (takes : Takes serde s s' result) : s'.answers = s.answers ∧ s'.gone = s.gone := by
  cases takes <;> exact ⟨rfl, rfl⟩

/-- How `handle_ack` ends. -/
inductive Acks (s : State) (localSeq : Int) : State → Except LocalBufferError Unit → Prop where
  | fails {e} : Acks s localSeq s (.error e)
  | absent :
      (∀ r ∈ s.table.rows, r.localSeq ≠ localSeq) →
      Acks s localSeq { s with table := s.table.delete localSeq } (.ok ())
  | removes {row record metrics} :
      row ∈ s.table.rows → row.localSeq = localSeq → record ∈ s.inflight →
      record.localSeq = localSeq → metrics = s.metrics.observeAcked (recordCost record) →
      Acks s localSeq
        { s with
          table := s.table.delete localSeq
          inflight := s.inflight.filter fun r => r.localSeq ≠ record.localSeq
          bytes := s.bytes - recordCost record
          metrics
          log := .acked row :: s.log }
        (.ok ())
  | strays {row} :
      row ∈ s.table.rows → row.localSeq = localSeq → (∀ r ∈ s.inflight, r.localSeq ≠ localSeq) →
      Acks s localSeq
        { s with
          table := s.table.delete localSeq
          log := .acked row :: s.log }
        (.ok ())

/-- A number selects at most one row. -/
theorem filter_localSeq (t : Batches) (localSeq : Int) :
    (∀ r ∈ t.rows, r.localSeq ≠ localSeq) ∧ t.rows.filter (fun r => r.localSeq = localSeq) = [] ∨
      ∃ row ∈ t.rows, row.localSeq = localSeq ∧
        t.rows.filter (fun r => r.localSeq = localSeq) = [row] := by
  cases eq : t.rows.filter (fun r => r.localSeq = localSeq) with
  | nil =>
    refine .inl ⟨fun r inside same => ?_, rfl⟩
    have here : r ∈ t.rows.filter (fun r => r.localSeq = localSeq) := by simp [inside, same]
    rw [eq] at here
    cases here
  | cons row rest =>
    have here : ∀ r ∈ row :: rest, r ∈ t.rows ∧ r.localSeq = localSeq := by
      intro r inside
      rw [← eq] at inside
      simpa using inside
    obtain ⟨inside, same⟩ := here row List.mem_cons_self
    refine .inr ⟨row, inside, same, ?_⟩
    cases rest with
    | nil => rfl
    | cons other rest =>
      have sorted := t.sorted.filter (fun r => r.localSeq = localSeq)
      rw [eq] at sorted
      have less := (List.pairwise_cons.mp sorted).1 other List.mem_cons_self
      have same' := (here other (List.mem_cons_of_mem _ List.mem_cons_self)).2
      omega

theorem acks_handleAck :
    Acks s localSeq (s.handleAck localSeq fault).1 (s.handleAck localSeq fault).2 := by
  cases fault with
  | some reason => exact .fails
  | none =>
    rw [handleAck]
    dsimp only
    rcases filter_localSeq s.table localSeq with ⟨absent, none⟩ | ⟨row, inside, same, one⟩
    · rw [none]
      exact .absent absent
    · rw [one]
      simp only [List.isEmpty_cons, List.map_cons, List.map_nil, List.cons_append,
        List.nil_append, Bool.false_eq_true, if_false]
      split
      next record found =>
        exact .removes inside same (List.mem_of_find?_eq_some found)
          (by simpa using List.find?_some found) rfl
      next none =>
        exact .strays inside same fun r here => by simpa using List.find?_eq_none.mp none r here

/-! ## Commands -/

/-- How a command ends. -/
inductive Commands (config : LocalBufferConfig) (serde : Serde) (s : State) :
    Cmd → State → Prop where
  | push {call : CallId} {batch} {s' : State} :
      Pushes config serde s.pruneCancelledWaiters call batch s' →
      Commands config serde s ⟨call, .push batch⟩ s'
  | next {call : CallId} {s' : State} {result} :
      Takes serde s s' result → takenSeq result = none →
      Commands config serde s ⟨call, .next⟩ (s'.reply call (.taken result))
  | delivers {call : CallId} {s' : State} {result} {localSeq : Int} :
      Takes serde s s' result → takenSeq result = some localSeq → s'.gone call = false →
      Commands config serde s ⟨call, .next⟩
        ((s'.reply call (.taken result)).awaitConfirm localSeq call)
  | returns {call : CallId} {s' : State} {result} {localSeq : Int} :
      Takes serde s s' result → takenSeq result = some localSeq → s'.gone call = true →
      Commands config serde s ⟨call, .next⟩ (s'.handleRequeue localSeq)
  | ack {call : CallId} {localSeq : Int} {s' : State} {result} :
      Acks s localSeq s' result →
      Commands config serde s ⟨call, .ack localSeq⟩ (s'.reply call (.done result))
  | requeue {call : CallId} {localSeq : Int} :
      Commands config serde s ⟨call, .requeue localSeq⟩
        ((s.handleRequeue localSeq).reply call (.done (.ok ())))
  | shutdown {call : CallId} : Commands config serde s ⟨call, .shutdown⟩ (s.shutdown call)

theorem commands_command {cmd : Cmd} {nowNs : Int} :
    Commands config serde s cmd (s.command config serde cmd nowNs fault outcome) := by
  obtain ⟨call, request⟩ := cmd
  cases request with
  | push batch => exact .push pushes_pushInner
  | next =>
    have takes : Takes serde s (s.handleNext serde fault).1 (s.handleNext serde fault).2 :=
      takes_handleNext
    change Commands config serde s ⟨call, .next⟩ (s.commandNext serde call fault)
    rw [commandNext]
    generalize s.handleNext serde fault = ended at takes ⊢
    obtain ⟨s', result⟩ := ended
    dsimp only at takes ⊢
    split
    next none => exact .next takes none
    next localSeq taken =>
      split
      next dropped =>
        have same : s'.reply call (.taken result) = s' := if_pos dropped
        rw [same]
        exact .returns takes taken dropped
      next here => exact .delivers takes taken (by simpa using here)
  | ack localSeq => exact .ack acks_handleAck
  | requeue localSeq => exact .requeue
  | shutdown => exact .shutdown

/-- A command that does not shut the buffer down leaves the channel and the loop as
they are. -/
theorem Commands.stays {cmd : Cmd} (commands : Commands config serde s cmd s')
    (stays : cmd.request ≠ .shutdown) : s'.pc = s.pc ∧ s'.queue = s.queue := by
  cases commands with
  | push pushes => cases pushes <;> simp [pruneCancelledWaiters, store]
  | next takes => cases takes <;> simp
  | delivers takes => cases takes <;> simp [awaitConfirm]
  | returns takes =>
    rw [(requeued_handleRequeue _ _).pc, (requeued_handleRequeue _ _).queue]
    cases takes <;> exact ⟨rfl, rfl⟩
  | ack acks => cases acks <;> simp
  | requeue => simp [(requeued_handleRequeue _ _).pc, (requeued_handleRequeue _ _).queue]
  | shutdown => exact absurd rfl stays

/-- A command leaves the channel and the loop as they are, or shuts down. -/
theorem Commands.ends {cmd : Cmd} (commands : Commands config serde s cmd s') :
    (s'.pc = s.pc ∧ s'.queue = s.queue) ∨
      (s'.pc = .closed ∧ s'.queue = [] ∧ s'.pendingPush = []) := by
  by_cases stays : cmd.request = .shutdown
  · cases commands with
    | @shutdown call =>
      have same := answered_shutdown s call
      exact .inr ⟨same.pc, same.queue, by rw [same.worker]; rfl⟩
    | _ => cases stays
  · exact .inl (commands.stays stays)

/-! ## All steps -/

theorem openDb_ok {table : Batches} (h : openDb config table = .ok s) :
    0 < config.memoryRecords ∧ s = opened config table := by
  rw [openDb] at h
  cases valid : config.validate with
  | error e =>
    rw [valid] at h
    cases h
  | ok _ =>
    rw [valid] at h
    cases h
    exact ⟨config.memoryRecords_pos valid, rfl⟩

/-- The caller of a call drops it. -/
def giveUp (s : State) (call : CallId) : State :=
  { s with gone := Function.update s.gone call true }

/-- The caller of a call takes its answer. -/
def extract (s : State) (call : CallId) : State :=
  { s with extracted := Function.update s.extracted call true }

theorem extract_extracted {call' : CallId} (other : call' ≠ call) :
    (s.extract call).extracted call' = s.extracted call' := Function.update_of_ne other ..

/-- The steps of the buffer. -/
inductive Move (config : LocalBufferConfig) (serde : Serde) (s : State) : Label → State → Prop where
  | send {call : CallId} {request} :
      s.sent call = none → s.pc ≠ .closed → s.queue.length < channelCapacity →
      Move config serde s (.send call request)
        { s with
          sent := Function.update s.sent call (some request)
          queue := s.queue ++ [⟨call, request⟩] }
  | refused {call : CallId} {request} :
      s.sent call = none → s.pc = .closed →
      Move config serde s (.send call request)
        ({ s with sent := Function.update s.sent call (some request) }.reply call
          (refusal request))
  | giveUp {call : CallId} :
      (s.sent call).isSome → s.extracted call = false →
      Move config serde s (.giveUp call) (s.giveUp call)
  | extract {call : CallId} :
      s.answers call ≠ [] → s.extracted call = false → s.gone call = false →
      Move config serde s (.extract call) (s.extract call)
  | round {cutoffNs cleanup load} :
      s.pc = .top →
      Move config serde s (.round cutoffNs cleanup load) (s.round config cutoffNs cleanup load)
  | flush {progress outcome} {s' : State} :
      s.pc = .flushing progress → Flushes config s progress outcome s' →
      Move config serde s (.flush outcome) s'
  | timeout : s.pc = .waiting → Move config serde s .timeout { s with pc := .top }
  | receive {cmd queue nowNs fault outcome} {s' : State} :
      s.pc = .waiting → s.queue = cmd :: queue →
      Commands config serde (s.handling queue) cmd s' →
      Move config serde s (.receive nowNs fault outcome) s'
  | hangUp :
      s.pc = .waiting → s.queue = [] →
      (∀ p ∈ s.pendingPush, ∀ call ∈ p.replies, s.gone call = true) →
      Move config serde s .hangUp { s with pc := .closed }
  | restart : Move config serde s .restart (s.restart config)

/-- Every step is one of the moves. -/
theorem step_move {label : Label} (h : (bufferMachine config serde).step s label = some s') :
    Move config serde s label s' := by
  cases label with
  | send call request =>
    obtain ⟨fresh, h⟩ := Option.ite_none_right_eq_some.mp h
    split at h
    next closed =>
      cases h
      exact .refused fresh closed
    next live =>
      obtain ⟨room, ⟨⟩⟩ := Option.ite_none_right_eq_some.mp h
      exact .send fresh live room
  | giveUp call =>
    obtain ⟨⟨made, open_, _⟩, ⟨⟩⟩ := Option.ite_none_right_eq_some.mp h
    exact .giveUp made open_
  | extract call =>
    obtain ⟨⟨answered, open_, here⟩, ⟨⟩⟩ := Option.ite_none_right_eq_some.mp h
    exact .extract answered open_ here
  | round cutoffNs cleanup load =>
    obtain ⟨top, ⟨⟩⟩ := Option.ite_none_right_eq_some.mp h
    exact .round top
  | flush outcome =>
    simp only [bufferMachine, step] at h
    split at h
    next progress at' =>
      cases h
      exact .flush at' flushes_flush
    · cases h
  | timeout =>
    obtain ⟨waiting, ⟨⟩⟩ := Option.ite_none_right_eq_some.mp h
    exact .timeout waiting
  | receive nowNs fault outcome =>
    simp only [bufferMachine, step] at h
    split at h
    next cmd queue waiting eq =>
      cases h
      exact .receive waiting eq commands_command
    · cases h
  | hangUp =>
    obtain ⟨⟨waiting, none, gone⟩, ⟨⟩⟩ := Option.ite_none_right_eq_some.mp h
    refine .hangUp waiting none fun p inside call here => ?_
    exact List.all_eq_true.mp gone call (List.mem_flatMap.mpr ⟨p, inside, here⟩)
  | restart =>
    cases h
    exact .restart

end State

end ForgeLink.Buffer
