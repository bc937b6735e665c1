import ForgeLink.Buffer.WorkerMoves

/-!
# The window of the worker

`mem` and `inflight` are a window over the table in the sense of `Lib.Window`,
as long as records are acknowledged only while they are in flight.  Between
`load_more` and the next command the window is complete unless the load failed,
so a new record never overtakes an older one, and `next` hands out the oldest
record that is not in flight.
-/

namespace ForgeLink.Buffer

open Lib

namespace State

variable {config : LocalBufferConfig} {serde : Serde} {s s' : State} {localSeq : Int}
variable {outcome : Except String Nat} {table : Batches} {call : CallId}
variable {result : Except LocalBufferError (Option StoredBatch)} {s₀ : State} {labels : List Label}

/-! ## The invariant -/

/-- The memory of the worker is a window over the table. -/
def Fits (config : LocalBufferConfig) (s : State) : Prop :=
  Window s.table config.memoryRecords s.mem s.inflight s.lastLoadedSeq

/-- The window is complete unless the last load failed. -/
def Filled (config : LocalBufferConfig) (s : State) : Prop :=
  s.loadError = none → Complete s.table config.memoryRecords s.mem s.inflight

/-- The worker has loaded and not yet handled a command. -/
def Pc.loaded : Pc → Bool
  | .flushing _ => true
  | .waiting => true
  | _ => false

/-- What holds in every state. -/
structure Reads (config : LocalBufferConfig) (s : State) : Prop where
  fits : s.Fits config
  filled : Pc.loaded s.pc = true → s.Filled config

theorem Fits.of_eq (h : s.Fits config) (worker : s'.toWorkerState = s.toWorkerState)
    (table : s'.table = s.table) : s'.Fits config := by
  rwa [Fits, worker, table]

theorem Filled.of_eq (h : s.Filled config) (worker : s'.toWorkerState = s.toWorkerState)
    (table : s'.table = s.table) : s'.Filled config := by
  rwa [Filled, worker, table]

theorem Reads.of_eq (h : s.Reads config) (worker : s'.toWorkerState = s.toWorkerState)
    (table : s'.table = s.table) (pc : Pc.loaded s'.pc = true → Pc.loaded s.pc = true) :
    s'.Reads config :=
  ⟨h.fits.of_eq worker table, fun loaded => (h.filled (pc loaded)).of_eq worker table⟩

theorem Reads.opened (pos : 0 < config.memoryRecords) (table : Batches) :
    (State.opened config table).Reads config :=
  ⟨Window.opened table pos, fun loaded => by cases loaded⟩

/-! ## Put-backs, expiry and pages -/

theorem Fits.handleRequeue (h : s.Fits config) (localSeq : Int) :
    (s.handleRequeue localSeq).Fits config := by
  rw [State.handleRequeue]
  split
  next record found => exact h.putBack (List.mem_of_find?_eq_some found)
  · exact h

theorem Filled.handleRequeue (fits : s.Fits config) (h : s.Filled config) (localSeq : Int) :
    (s.handleRequeue localSeq).Filled config := by
  rw [State.handleRequeue]
  split
  next record found =>
    exact fun clear => fits.complete_putBack (List.mem_of_find?_eq_some found) (h clear)
  · exact h

theorem Fits.checkPendingConfirm (h : s.Fits config) : s.checkPendingConfirm.1.Fits config :=
  checkPendingConfirm_induct (P := Fits config) h fun _ localSeq h => h.handleRequeue localSeq

theorem Filled.checkPendingConfirm (fits : s.Fits config) (h : s.Filled config) :
    s.checkPendingConfirm.1.Filled config :=
  (checkPendingConfirm_induct (P := fun s => s.Fits config ∧ s.Filled config) ⟨fits, h⟩
    fun _ localSeq ⟨fits, h⟩ => ⟨fits.handleRequeue localSeq, h.handleRequeue fits localSeq⟩).2

theorem Fits.handling (h : s.Fits config) (queue : List Cmd) : (s.handling queue).Fits config :=
  Fits.checkPendingConfirm (s := { s with queue, pc := .top }) h

theorem Filled.handling (fits : s.Fits config) (h : s.Filled config) (queue : List Cmd) :
    (s.handling queue).Filled config :=
  Filled.checkPendingConfirm (s := { s with queue, pc := .top }) fits h

theorem Fits.cleanupExpired (h : s.Fits config) (cutoffNs : Int) (fault : Fault) :
    (s.cleanupExpired cutoffNs fault).1.Fits config := by
  unfold State.cleanupExpired
  dsimp only
  split
  · exact h
  · split
    · exact h
    · -- What expires waits in `mem`, so nothing in flight is deleted.
      have out : s.inflight.filter (fun r => decide (r.localSeq ∉
          (s.mem.filter fun r => r.createdAtNs < cutoffNs).map MemRecord.localSeq)) =
          s.inflight := by
        refine List.filter_eq_self.mpr fun r inside => decide_eq_true fun expired => ?_
        obtain ⟨r', waits, same⟩ := List.mem_map.mp expired
        exact Window.apart h r' (List.mem_of_mem_filter waits) r inside same
      have deleted := h.delete fun r => decide (r.localSeq ∉
        (s.mem.filter fun r => r.createdAtNs < cutoffNs).map MemRecord.localSeq)
      rwa [out] at deleted

theorem Fits.loadMore (h : s.Fits config) (fault : Fault) :
    (s.loadMore config fault).Fits config ∧ (s.loadMore config fault).Filled config := by
  unfold State.loadMore
  split
  next full => exact ⟨h, fun _ => .inl full⟩
  · cases fault with
    | some reason => exact ⟨h, nofun⟩
    | none =>
      obtain ⟨fits, complete⟩ := Window.load h _ rfl
      exact ⟨fits, fun _ => complete⟩

/-! ## New records -/

/-- A record that is stored fits the window. -/
theorem Fits.store {record : MemRecord} {n : Int} (call : CallId) (waited : Bool)
    (h : s.Fits config) (filled : s.Filled config)
    (inserted : s.table.insertRecord record outcome = .ok (n, table)) :
    (s.store config call waited { record with localSeq := n } table).Fits config ∧
      (s.store config call waited { record with localSeq := n } table).Filled config := by
  obtain ⟨gap, _, rfl, inserted, _⟩ := Batches.insertRecord_ok inserted
  by_cases enters : s.loadError.isNone ∧ s.held < config.memoryRecords
  · obtain ⟨clear, room⟩ := enters
    obtain ⟨fits, complete⟩ :=
      Window.append h inserted room (filled (Option.isNone_iff_eq_none.mp clear))
    have mem : (s.store config call waited { record with localSeq := s.table.number gap }
        table).mem = s.mem ++ [record.draft.row (s.table.number gap)] := if_pos ⟨clear, room⟩
    rw [Fits, Filled, mem]
    exact ⟨fits, fun _ => complete⟩
  · have mem : (s.store config call waited { record with localSeq := s.table.number gap }
        table).mem = s.mem := if_neg enters
    rw [Fits, Filled, mem]
    refine ⟨Window.insert h inserted, fun clear => .inl (Nat.le_of_not_lt fun room => ?_)⟩
    exact enters ⟨Option.isNone_iff_eq_none.mpr clear, room⟩

theorem Reads.flushes {progress : Bool} (h : s.Reads config) (at' : s.pc = .flushing progress)
    (flushes : Flushes config s progress outcome s') : s'.Reads config := by
  have filled : s.Filled config := h.filled (by rw [at']; rfl)
  cases flushes with
  | leaves => exact ⟨h.fits, fun _ => filled⟩
  | @stores front rest n table eq _ inserted =>
    obtain ⟨fits, filled⟩ := Fits.store (s := { s with pendingPush := rest }) front.first true
      h.fits filled inserted
    have same := answered_replyAll
      ({ s with pendingPush := rest }.store config front.first true
        { front.record with localSeq := n } table) front.replies (.ok ())
    exact ⟨fits.of_eq same.worker same.table, fun _ => filled.of_eq same.worker same.table⟩
  | @fails front rest e eq _ =>
    have same := answered_replyAll { s with pendingPush := rest } front.replies (.error e)
    have fits : Fits config { s with pendingPush := rest } := h.fits
    have filled : Filled config { s with pendingPush := rest } := filled
    exact ⟨fits.of_eq same.worker same.table, fun _ => filled.of_eq same.worker same.table⟩

theorem Fits.pushes {batch : ObservationBatch} (h : s.Fits config) (filled : s.Filled config)
    (pushes : Pushes config serde s call batch s') :
    s'.Fits config := by
  cases pushes with
  | known => exact h.of_eq (reply_toWorkerState ..) (reply_table ..)
  | refused =>
    exact Fits.of_eq (s := { s with metrics := _ }) h (reply_toWorkerState ..) (reply_table ..)
  | joins | waits => exact h
  | stores _ _ _ inserted =>
    exact (h.store _ _ filled inserted).1.of_eq (reply_toWorkerState ..) (reply_table ..)

/-! ## Next and ack -/

theorem Fits.takes (h : s.Fits config) (takes : Takes serde s s' result) : s'.Fits config := by
  cases takes with
  | none | fails => exact h
  | @takes record rest batch metrics eq _ =>
    have window : Window s.table config.memoryRecords (record :: rest) s.inflight
        s.lastLoadedSeq := eq ▸ h
    have out : s.inflight.filter (fun r => decide (r.localSeq ≠ record.localSeq)) =
        s.inflight := by
      refine List.filter_eq_self.mpr fun r inside => decide_eq_true fun same => ?_
      exact window.apart record List.mem_cons_self r inside same.symm
    have taken := window.take (sentCountTo (record.sentCount + 1))
    rw [Fits]
    dsimp only
    rw [out]
    exact taken

/-- An ack of a record that does not wait in `mem`. -/
theorem Fits.acks {result : Except LocalBufferError Unit} (h : s.Fits config)
    (acks : Acks s localSeq s' result) (idle : ∀ r ∈ s.mem, r.localSeq ≠ localSeq) :
    s'.Fits config := by
  have waiting : s.mem.filter (fun r => decide (r.localSeq ≠ localSeq)) = s.mem :=
    List.filter_eq_self.mpr fun r inside => decide_eq_true (idle r inside)
  have deleted := h.delete fun r => decide (r.localSeq ≠ localSeq)
  rw [waiting] at deleted
  have unheld : (∀ r ∈ s.inflight, r.localSeq ≠ localSeq) →
      s.inflight.filter (fun r => decide (r.localSeq ≠ localSeq)) = s.inflight := fun apart =>
    List.filter_eq_self.mpr fun r inside => decide_eq_true (apart r inside)
  cases acks with
  | fails => exact h
  | absent none =>
    rwa [unheld fun r inside => none r (Window.out_rows h r inside)] at deleted
  | removes _ _ _ same =>
    rw [← same] at deleted ⊢
    exact deleted
  | strays _ _ apart => rwa [unheld apart] at deleted

/-! ## All steps -/

/-- The sequence that a step acknowledges, with the rest of the channel. -/
def acking (s : State) : Label → Option (Int × List Cmd)
  | .receive _ _ _ =>
    match s.queue with
    | ⟨_, .ack localSeq⟩ :: queue => some (localSeq, queue)
    | _ => none
  | _ => none

theorem acking_of_queue {queue : List Cmd} {nowNs : Int} {fault : Fault}
    (eq : s.queue = ⟨call, .ack localSeq⟩ :: queue) :
    s.acking (.receive nowNs fault outcome) = some (localSeq, queue) := by
  simp [acking, eq]

/-- Acks are of sequences in flight. -/
def InFlightAcks (s : State) (label : Label) : Prop :=
  ∀ ack ∈ s.acking label, ∃ r ∈ (s.handling ack.2).inflight, r.localSeq = ack.1

instance (s : State) (label : Label) : Decidable (s.InFlightAcks label) :=
  inferInstanceAs (Decidable (∀ ack ∈ s.acking label, _))

/-- No ack is of a sequence that waits in `mem`. -/
def Spared (s : State) (label : Label) : Prop :=
  ∀ ack ∈ s.acking label, ∀ r ∈ (s.handling ack.2).mem, r.localSeq ≠ ack.1

instance (s : State) (label : Label) : Decidable (s.Spared label) :=
  inferInstanceAs (Decidable (∀ ack ∈ s.acking label, _))

/-- What is in flight does not wait. -/
theorem InFlightAcks.spared {label : Label} (fits : s.Fits config) (h : s.InFlightAcks label) :
    s.Spared label := by
  intro ack acked r waits same
  obtain ⟨r', inside, same'⟩ := h ack acked
  exact (fits.handling ack.2).apart r waits r' inside (same.trans same'.symm)

theorem Fits.commands {cmd : Cmd} (h : s.Fits config) (filled : s.Filled config)
    (idle : ∀ call localSeq, cmd = ⟨call, .ack localSeq⟩ → ∀ r ∈ s.mem, r.localSeq ≠ localSeq)
    (commands : Commands config serde s cmd s') : s'.Fits config := by
  cases commands with
  | push pushes =>
    exact Fits.pushes (s := s.pruneCancelledWaiters) h filled pushes
  | next takes => exact (h.takes takes).of_eq (reply_toWorkerState ..) (reply_table ..)
  | @delivers call s' result localSeq takes _ _ =>
    have kept := h.takes takes
    have same := answered_reply s' call (.taken result)
    have replied : (s'.reply call (.taken result)).Fits config :=
      kept.of_eq same.worker same.table
    exact replied
  | returns takes => exact (h.takes takes).handleRequeue _
  | @ack call localSeq s' result acks =>
    exact (h.acks acks (idle call localSeq rfl)).of_eq (reply_toWorkerState ..)
      (reply_table ..)
  | requeue => exact (h.handleRequeue _).of_eq (reply_toWorkerState ..) (reply_table ..)
  | shutdown =>
    have same := answered_shutdown s ‹_›
    exact Fits.of_eq (s := s.shut) h same.worker same.table

/-- Every step keeps the window in order and full. -/
theorem Reads.step {label : Label} (h : s.Reads config) (pos : 0 < config.memoryRecords)
    (spared : s.Spared label) (move : Move config serde s label s') : s'.Reads config := by
  cases move with
  | send | giveUp | extract => exact h.of_eq rfl rfl id
  | refused =>
    exact Reads.of_eq (s := { s with sent := _ }) ⟨h.fits, h.filled⟩
      (reply_toWorkerState ..) (reply_table ..) fun loaded => by simpa using loaded
  | round =>
    obtain ⟨fits, filled⟩ := (h.fits.checkPendingConfirm.cleanupExpired _ _).loadMore _
    exact ⟨fits, fun _ => filled⟩
  | flush at' flushes => exact h.flushes at' flushes
  | timeout | hangUp => exact h.of_eq rfl rfl nofun
  | @receive cmd queue nowNs fault outcome s' at' eq commands =>
    have filled : s.Filled config := h.filled (by rw [at']; rfl)
    have pc : s'.pc = .top ∨ s'.pc = .closed :=
      commands.ends.imp (fun same => same.1.trans (handling_pc s queue)) fun shut => shut.1
    refine ⟨(h.fits.handling queue).commands (filled.handling h.fits queue) ?_ commands,
      fun loaded => ?_⟩
    · rintro call localSeq rfl
      exact spared _ (acking_of_queue eq)
    · rcases pc with eq | eq <;> rw [eq] at loaded <;> cases loaded
  | restart => exact ⟨Window.opened s.table pos, nofun⟩

/-- The window in every run in which no record in `mem` is acknowledged. -/
theorem reads_of_run (opened : openDb config table = .ok s₀)
    (run : (bufferMachine config serde).Run Spared s₀ labels s) : s.Reads config := by
  obtain ⟨pos, rfl⟩ := openDb_ok opened
  exact run.invariant (.opened pos table) fun _ _ _ reads spared taken =>
    reads.step pos spared (step_move taken)

/-- Runs in which only records in flight are acknowledged are such runs. -/
theorem spared_of_inFlightAcks (opened : openDb config table = .ok s₀)
    (run : (bufferMachine config serde).Run InFlightAcks s₀ labels s) :
    (bufferMachine config serde).Run Spared s₀ labels s := by
  obtain ⟨pos, rfl⟩ := openDb_ok opened
  refine run.under (P := Reads config) (.opened pos table) ?_ ?_
  · exact fun _ _ _ reads spared taken => reads.step pos spared (step_move taken)
  · exact fun _ _ reads inFlight => inFlight.spared reads.fits

/-! ## The representation invariant -/

/-- The records in memory are rows of the table, in order, apart and few enough,
and every other row comes after them. -/
theorem window_kept {table : Batches} (opened : openDb config table = .ok s₀)
    (run : (bufferMachine config serde).Run InFlightAcks s₀ labels s) :
    (s.mem.Pairwise fun a b => a.localSeq < b.localSeq) ∧
      (∀ a ∈ s.mem, ∀ b ∈ s.inflight, a.localSeq ≠ b.localSeq) ∧
      s.mem.length + s.inflight.length ≤ config.memoryRecords ∧
      (∀ r ∈ s.mem ++ s.inflight, r ∈ s.table.rows) ∧
      ∀ row ∈ s.table.rows, row ∉ s.mem ++ s.inflight →
        ∀ r ∈ s.mem ++ s.inflight, r.localSeq < row.localSeq := by
  have window := (reads_of_run opened (spared_of_inFlightAcks opened run)).fits
  refine ⟨window.sorted, window.apart, window.small, fun r held => ?_, fun row inside left => ?_⟩
  · rcases List.mem_append.mp held with waits | out
    · exact window.waiting_rows r waits
    · exact window.out_rows r out
  · obtain ⟨notWaiting, notOut⟩ := not_or.mp (List.mem_append.not.mp left)
    obtain ⟨_, waits, outs⟩ := window.behind row inside notWaiting notOut
    intro r held
    rcases List.mem_append.mp held with waiting | out
    · exact waits r waiting
    · exact outs r out

/-- Three pushes, of which the last does not fit the window, and a record that
is taken, given back, taken again and acknowledged before a `next` comes. -/
def windowLabels : List Label :=
  served 0 (.push (sampleBatch "a")) ++ served 1 (.push (sampleBatch "b")) ++
    served 2 (.push (sampleBatch "c")) ++ served 3 .next ++
    [.giveUp 3, .round 0 none none, .flush (.ok 0)] ++ served 4 .next ++ [.extract 4] ++
    served 5 (.ack 1) ++ [.send 6 .next, .round 0 none none, .flush (.ok 0)]

/-- The window without the acknowledged record. -/
theorem window_kept_sample :
    ∃ s, (bufferMachine sampleConfig sampleSerde).Run InFlightAcks (opened sampleConfig .empty)
        windowLabels s ∧
      (s.mem.map MemRecord.localSeq = [2, 3] ∧ s.inflight = []) ∧
      (s.mem.Pairwise fun a b => a.localSeq < b.localSeq) ∧
      (∀ a ∈ s.mem, ∀ b ∈ s.inflight, a.localSeq ≠ b.localSeq) ∧
      s.mem.length + s.inflight.length ≤ sampleConfig.memoryRecords ∧
      (∀ r ∈ s.mem ++ s.inflight, r ∈ s.table.rows) ∧
      ∀ row ∈ s.table.rows, row ∉ s.mem ++ s.inflight →
        ∀ r ∈ s.mem ++ s.inflight, r.localSeq < row.localSeq :=
  Lib.Machine.Run.find (by decide +kernel) fun s run _ => window_kept rfl run

/-! ## The order of delivery -/

/-- An answered `next` went through `handle_next`. -/
theorem Commands.takes_of_answer (commands : Commands config serde s ⟨call, .next⟩ s')
    (answered : s'.answers call = s.answers call ++ [.taken result]) :
    ∃ s₁, Takes serde s s₁ result := by
  have replied : ∀ {s₁ : State} {result₁}, Takes serde s s₁ result₁ →
      (s₁.reply call (.taken result₁)).answers call = s.answers call ++ [.taken result] →
      result₁ = result := by
    intro s₁ result₁ takes eq
    by_cases gone : s₁.gone call
    · simp [reply, gone, takes.answers.1] at eq
    · rw [reply_answers (by simpa using gone), takes.answers.1] at eq
      simpa using eq
  cases commands with
  | @next _ s₁ result₁ takes _ | @delivers _ s₁ result₁ localSeq takes _ _ =>
    obtain rfl := replied takes answered
    exact ⟨s₁, takes⟩
  | @returns _ s₁ result₁ localSeq takes _ _ =>
    rw [(requeued_handleRequeue s₁ localSeq).answers, takes.answers.1] at answered
    simp at answered

/-- A `next` finds nothing only if every row is in flight or the window is full of
records in flight. -/
theorem Takes.nothing_left (takes : Takes serde s s' (.ok Option.none)) (fits : s.Fits config)
    (filled : s.Filled config) :
    (∀ row ∈ s.table.rows, row ∈ s.inflight) ∨ s.inflight.length = config.memoryRecords := by
  cases takes with
  | none empty clear =>
    have complete := filled clear
    rw [empty] at complete
    rcases Window.nothing_waits complete with full | all
    · exact .inr (Nat.le_antisymm (by simpa [empty] using fits.small) full)
    · exact .inl all

/-- A `next` that is answered with a record is answered with the first row that
is not in flight, and it is answered with none only if every row is in flight or
the window is full of records in flight. -/
theorem next_least {table : Batches} {call : CallId} {queue : List Cmd} {nowNs : Int}
    {fault : Fault} {outcome : Except String Nat} (opened : openDb config table = .ok s₀)
    (run : (bufferMachine config serde).Run InFlightAcks s₀ labels s)
    (command : s.queue = ⟨call, .next⟩ :: queue)
    (taken : (bufferMachine config serde).step s (.receive nowNs fault outcome) = some s')
    (answered : s'.answers call = s.answers call ++ [.taken result]) :
    (∀ stored, result = .ok (some stored) →
      ∃ row ∈ (s.handling queue).table.rows, row ∉ (s.handling queue).inflight ∧
        (stored.localSeq = row.localSeq ∧ stored.topic = row.topic ∧
          ∃ batch, serde.fromSlice row.payload = .ok batch ∧
            (stored.batch = batch ∨ stored.batch = { batch with replayed := true })) ∧
        ∀ other ∈ (s.handling queue).table.rows, other ∉ (s.handling queue).inflight →
          row.localSeq ≤ other.localSeq) ∧
    (result = .ok none →
      (∀ row ∈ (s.handling queue).table.rows, row ∈ (s.handling queue).inflight) ∨
        (s.handling queue).inflight.length = config.memoryRecords) := by
  have reads := reads_of_run opened (spared_of_inFlightAcks opened run)
  cases step_move taken with
  | @receive cmd queue' _ _ _ _ at' eq commands =>
  obtain ⟨rfl, rfl⟩ := List.cons.inj (eq.symm.trans command)
  have window := reads.fits.handling queue'
  have filled := (reads.filled (by rw [at']; rfl)).handling reads.fits queue'
  rw [← show (s.handling queue').answers = s.answers from
    (requeued_checkPendingConfirm { s with queue := queue', pc := .top }).answers] at answered
  obtain ⟨s₁, takes⟩ := commands.takes_of_answer answered
  refine ⟨fun stored same => ?_, fun same => (same ▸ takes).nothing_left window filled⟩
  cases takes with
  | none | fails => cases same
  | @takes record rest batch metrics eq read =>
    cases same
    have front : Window (s.handling queue').table config.memoryRecords (record :: rest)
        (s.handling queue').inflight (s.handling queue').lastLoadedSeq := eq ▸ window
    obtain ⟨inside, notOut, least⟩ := front.front_least
    refine ⟨record, inside, notOut, ⟨rfl, rfl, batch, read, ?_⟩, least⟩
    dsimp only
    split
    · exact .inr rfl
    · exact .inl rfl

/-- What the last `next` of the sample is answered. -/
def sampleStored : StoredBatch := ⟨2, "forgelink/v1/telemetry/plant/press", sampleBatch "b"⟩

/-- The second record, after the first was acknowledged. -/
theorem next_least_sample :
    ∃ s s' stored, (bufferMachine sampleConfig sampleSerde).Run InFlightAcks
        (opened sampleConfig .empty) windowLabels s ∧
      (bufferMachine sampleConfig sampleSerde).step s (.receive 0 none (.ok 0)) = some s' ∧
      s'.answers 6 = s.answers 6 ++ [.taken (.ok (some stored))] ∧ stored.localSeq = 2 ∧
      ∃ row ∈ (s.handling []).table.rows, row ∉ (s.handling []).inflight ∧
        (stored.localSeq = row.localSeq ∧ stored.topic = row.topic ∧
          ∃ batch, sampleSerde.fromSlice row.payload = .ok batch ∧
            (stored.batch = batch ∨ stored.batch = { batch with replayed := true })) ∧
        ∀ other ∈ (s.handling []).table.rows, other ∉ (s.handling []).inflight →
          row.localSeq ≤ other.localSeq := by
  obtain ⟨s, run, command, taken⟩ := Lib.Machine.Run.of_any
    (fun s : State => s.queue = [⟨6, .next⟩] ∧
      ((bufferMachine sampleConfig sampleSerde).step s (.receive 0 none (.ok 0))).any (fun s' =>
        decide (s'.answers 6 = s.answers 6 ++ [Answer.taken (.ok (some sampleStored))])) = true)
    (show ((bufferMachine sampleConfig sampleSerde).exec InFlightAcks
      (opened sampleConfig .empty) windowLabels).any _ = true by decide +kernel)
  obtain ⟨s', taken, answered⟩ := (Option.any_eq_true _ _).mp taken
  have answered := of_decide_eq_true answered
  exact ⟨s, s', sampleStored, run, taken, answered, rfl,
    (next_least rfl run command taken answered).1 sampleStored rfl⟩

end State

end ForgeLink.Buffer
