import ForgeLink.Buffer.WorkerDurability

/-!
# The replay flag

`next` hands out the batch of a record with `replayed` set if the record was in
the table when the buffer was opened, or if its `sent_count` is not zero.  The
count is raised when `next` takes the record out, so it counts takings and not
deliveries: a record that a cancelled `next` has put back is handed out as a
replay, although no caller has got it (`replayed_after_cancel`).

`History` records what the buffer does not: the sequences that had a row when
the session began, and those taken out since.  In runs in which no ack is of a
record that waits in `mem`, the flag is a function of the two (`next_replayed`),
and what is handed out is what was pushed.  The count has 64 bits and wraps.
-/

namespace ForgeLink.Buffer

open Lib

namespace State

variable {config : LocalBufferConfig} {serde : Serde} {s s' s'' : State} {call : CallId}
variable {record : MemRecord} {nowNs : Int}

/-! ## The history -/

/-- The sequences of the rows at the start of the session, and the sequences taken out
since, latest first. -/
structure History where
  opened : List Int
  taken : List Int
deriving DecidableEq, Repr

/-- The sequence that a step takes out of `mem`. -/
def taking (serde : Serde) (s : State) : Label → Option Int
  | .receive _ fault _ =>
    match s.pc, s.queue with
    | .waiting, ⟨_, .next⟩ :: queue => takenSeq ((s.handling queue).handleNext serde fault).2
    | _, _ => none
  | _ => none

/-- The history after a step. -/
def History.next (serde : Serde) (s : State) (label : Label) (h : History) : History :=
  if label.isRestart then ⟨s.table.rows.map MemRecord.localSeq, []⟩
  else { h with taken := (s.taking serde label).toList ++ h.taken }

/-- The buffer with its history. -/
def historyMachine (config : LocalBufferConfig) (serde : Serde) : Machine (State × History) Label :=
  (bufferMachine config serde).observed (History.next serde)

/-- The history of a session that begins with this table. -/
def History.start (table : Batches) : History := ⟨table.rows.map MemRecord.localSeq, []⟩

/-! ## The table -/

/-- What a step of a session does to the table: rows are deleted, a row is taken, or a
row is added. -/
inductive TableStep (t : Batches) : Option Int → Batches → Prop where
  | deletes {t' : Batches} :
      (∀ r ∈ t'.rows, r ∈ t.rows) → t'.last = t.last → TableStep t none t'
  | takes {t' : Batches} {record : MemRecord} :
      record ∈ t.rows →
      t' = t.touch ((sentCountTo (record.sentCount + 1)).only record.localSeq) →
      TableStep t (some record.localSeq) t'
  | adds {t' : Batches} {row : MemRecord} :
      t'.rows = t.rows ++ [row] → t.last < row.localSeq → t'.last = row.localSeq →
      row.sentCount = 0 → TableStep t none t'

theorem TableStep.same {t t' : Batches} (eq : t' = t) : TableStep t none t' :=
  .deletes (fun _ inside => eq ▸ inside) (by rw [eq])

theorem tableStep_insert {outcome : Except String Nat} {n : Int} {t t' : Batches}
    (new : record.sentCount = 0) (inserted : t.insertRecord record outcome = .ok (n, t')) :
    TableStep t none t' := by
  obtain ⟨gap, _, _, inserts, _⟩ := Batches.insertRecord_ok inserted
  obtain ⟨rows, last, _⟩ := AutoTable.insert_eq_some inserts
  exact .adds rows (t.last_lt_number gap) last new

theorem IsRecord.sentCount {batch : ObservationBatch} (h : IsRecord serde batch record) :
    record.sentCount = 0 := by
  obtain ⟨_, _, _, _, _, rfl⟩ := h
  rfl

/-- What a step of a session does to the table, with the watermark of the session. -/
structure Goes (s : State) (taken : Option Int) (s' : State) : Prop where
  table : TableStep s.table taken s'.table
  watermark : s'.recoverWatermark = s.recoverWatermark

namespace Goes

variable {taken : Option Int}

theorem answered (h : Goes s taken s') (told : Answered s' s'') : Goes s taken s'' :=
  ⟨told.table ▸ h.table,
    (congrArg WorkerState.recoverWatermark told.worker).trans h.watermark⟩

theorem requeued (h : Goes s taken s') (back : Requeued s' s'') : Goes s taken s'' :=
  ⟨back.table ▸ h.table, back.recoverWatermark.trans h.watermark⟩

/-- What comes before does not touch the table. -/
theorem after (h : Goes s' taken s'') (table : s'.table = s.table)
    (watermark : s'.recoverWatermark = s.recoverWatermark) : Goes s taken s'' :=
  ⟨table ▸ h.table, h.watermark.trans watermark⟩

end Goes

variable {outcome : Except String Nat} {fault : Fault}

theorem Flushes.goes {progress : Bool} (named : s.Named serde)
    (flushes : Flushes config s progress outcome s') : Goes s none s' := by
  cases flushes with
  | leaves => exact ⟨.same rfl, rfl⟩
  | @stores front rest n table waiting _ inserted =>
    obtain ⟨_, _, of⟩ := named.first front (by rw [waiting]; exact List.mem_cons_self)
    have stored : Goes s none ({ s with pendingPush := rest }.store config front.first true
        { front.record with localSeq := n } table) :=
      ⟨tableStep_insert of.sentCount inserted, rfl⟩
    have told := stored.answered (answered_replyAll _ front.replies (.ok ()))
    exact ⟨told.table, told.watermark⟩
  | @fails front rest =>
    have popped : Goes s none { s with pendingPush := rest } := ⟨.same rfl, rfl⟩
    exact popped.answered (answered_replyAll ..)

theorem Pushes.goes {batch : ObservationBatch} (pushes : Pushes config serde s call batch s') :
    Goes s none s' := by
  have same : Goes s none s := ⟨.same rfl, rfl⟩
  cases pushes with
  | known => exact same.answered (answered_reply ..)
  | @refused metrics e =>
    have counted : Goes s none { s with metrics } := ⟨.same rfl, rfl⟩
    exact counted.answered (answered_reply ..)
  | joins | waits => exact ⟨.same rfl, rfl⟩
  | @stores record outcome n table of _ _ inserted =>
    have stored : Goes s none (s.store config call false { record with localSeq := n } table) :=
      ⟨tableStep_insert of.sentCount inserted, rfl⟩
    exact stored.answered (answered_reply ..)

theorem Acks.goes {localSeq : Int} {result : Except LocalBufferError Unit}
    (acks : Acks s localSeq s' result) : Goes s none s' := by
  have delete : TableStep s.table none (s.table.delete localSeq) :=
    .deletes (fun r inside => List.mem_of_mem_filter inside) rfl
  cases acks with
  | fails => exact ⟨.same rfl, rfl⟩
  | absent | removes | strays => exact ⟨delete, rfl⟩

theorem Takes.goes {result : Except LocalBufferError (Option StoredBatch)} (fits : s.Fits config)
    (takes : Takes serde s s' result) : Goes s (takenSeq result) s' := by
  cases takes with
  | none | fails => exact ⟨.same rfl, rfl⟩
  | @takes record rest batch metrics eq read =>
    exact ⟨.takes (fits.waiting_rows record (eq ▸ List.mem_cons_self)) rfl, rfl⟩

theorem goes_commandNext (fits : s.Fits config) :
    Goes s (takenSeq (s.handleNext serde fault).2) (s.commandNext serde call fault) := by
  have takes : Goes s (takenSeq (s.handleNext serde fault).2) (s.handleNext serde fault).1 :=
    takes_handleNext.goes fits
  rw [commandNext]
  generalize s.handleNext serde fault = ended at takes
  obtain ⟨s', result⟩ := ended
  dsimp only at takes ⊢
  have told := takes.answered (answered_reply s' call (.taken result))
  split
  · exact told
  · split
    · exact told.requeued (requeued_handleRequeue ..)
    · exact ⟨told.table, told.watermark⟩

theorem goes_cleanupExpired (s : State) (cutoffNs : Int) (fault : Fault) :
    Goes s none (s.cleanupExpired cutoffNs fault).1 := by
  unfold cleanupExpired
  dsimp only
  split
  · exact ⟨.same rfl, rfl⟩
  · split
    · exact ⟨.same rfl, rfl⟩
    · exact ⟨.deletes (fun r inside => List.mem_of_mem_filter inside) rfl, rfl⟩

theorem loadMore_watermark (config : LocalBufferConfig) (s : State) (fault : Fault) :
    (s.loadMore config fault).recoverWatermark = s.recoverWatermark := by
  unfold loadMore
  split
  · rfl
  · cases fault <;> rfl

theorem goes_round (s : State) (cutoffNs : Int) (cleanup load : Fault) :
    Goes s none (s.round config cutoffNs cleanup load) := by
  have back := requeued_checkPendingConfirm s
  have expired : Goes s none (s.checkPendingConfirm.1.cleanupExpired cutoffNs cleanup).1 :=
    (goes_cleanupExpired ..).after back.table back.recoverWatermark
  have loaded := loadMore_same config
    (s.checkPendingConfirm.1.cleanupExpired cutoffNs cleanup).1 load
  exact ⟨loaded.2.1 ▸ expired.table,
    (loadMore_watermark config _ load).trans expired.watermark⟩

/-- A step takes a record only when it handles a `Next`. -/
theorem taking_receive {cmd : Cmd} {queue : List Cmd} (waiting : s.pc = .waiting)
    (eq : s.queue = cmd :: queue) :
    s.taking serde (.receive nowNs fault outcome) =
      if cmd.request = .next then takenSeq ((s.handling queue).handleNext serde fault).2
      else none := by
  obtain ⟨call, request⟩ := cmd
  simp only [taking, waiting, eq]
  cases request <;> simp

theorem goes_command {cmd : Cmd} (fits : s.Fits config) :
    Goes s (if cmd.request = .next then takenSeq (s.handleNext serde fault).2 else none)
      (s.command config serde cmd nowNs fault outcome) := by
  have same : Goes s none s := ⟨.same rfl, rfl⟩
  obtain ⟨call, request⟩ := cmd
  cases request with
  | next => exact goes_commandNext fits
  | push batch =>
    have pushes : Goes s.pruneCancelledWaiters none
        (s.pruneCancelledWaiters.pushInner config serde call batch nowNs fault outcome) :=
      pushes_pushInner.goes
    exact pushes.after rfl rfl
  | ack localSeq =>
    have acks : Goes s none (s.handleAck localSeq fault).1 := acks_handleAck.goes
    exact acks.answered (answered_reply ..)
  | requeue localSeq =>
    exact (same.requeued (requeued_handleRequeue ..)).answered (answered_reply ..)
  | shutdown =>
    have shut : Goes s none s.shut := ⟨.same rfl, rfl⟩
    exact shut.answered (answered_shutdown s call)

/-- What a step that is not a restart does to the table. -/
theorem goes_of_step {label : Label} (fits : s.Fits config) (named : s.Named serde)
    (goesOn : label.isRestart = false)
    (taken : (bufferMachine config serde).step s label = some s') :
    Goes s (s.taking serde label) s' := by
  cases label with
  | receive nowNs fault outcome =>
    simp only [bufferMachine, step] at taken
    split at taken
    next cmd queue waiting eq =>
      cases taken
      rw [taking_receive waiting eq]
      have back := requeued_checkPendingConfirm { s with queue, pc := .top }
      exact (goes_command (fits.handling queue)).after back.table back.recoverWatermark
    · cases taken
  | round cutoffNs cleanup load =>
    cases step_move taken with
    | round => exact goes_round ..
  | flush outcome =>
    cases step_move taken with
    | flush _ flushes => exact flushes.goes named
  | send call request =>
    cases step_move taken with
    | send => exact ⟨.same rfl, rfl⟩
    | refused =>
      have sent : Goes s none { s with sent := Function.update s.sent call (some request) } :=
        ⟨.same rfl, rfl⟩
      exact sent.answered (answered_reply ..)
  | giveUp call =>
    cases step_move taken with
    | giveUp => exact ⟨.same rfl, rfl⟩
  | extract call =>
    cases step_move taken with
    | extract => exact ⟨.same rfl, rfl⟩
  | timeout =>
    cases step_move taken with
    | timeout => exact ⟨.same rfl, rfl⟩
  | hangUp =>
    cases step_move taken with
    | hangUp => exact ⟨.same rfl, rfl⟩
  | restart => cases goesOn

/-! ## The count and the watermark -/

/-- The flag of a record, by the history. -/
def History.replays (h : History) (localSeq : Int) : Bool :=
  decide (localSeq ∈ h.opened) || decide (UInt64.ofNat (h.taken.count localSeq) ≠ 0)

/-- The watermark tells the rows of the start of the session, and `sent_count` counts the
takings of the others. -/
structure Tracks (h : History) (s : State) : Prop where
  watermark : s.recoverWatermark ≤ s.table.last
  below : ∀ n ∈ h.opened, n ≤ s.recoverWatermark
  opened : ∀ r ∈ s.table.rows, r.localSeq ≤ s.recoverWatermark → r.localSeq ∈ h.opened
  counted : ∀ r ∈ s.table.rows, r.localSeq ∉ h.opened →
    r.sentCount = UInt64.ofNat (h.taken.count r.localSeq)
  taken : ∀ n ∈ h.taken, n ≤ s.table.last

namespace Tracks

variable {h : History}

theorem start (config : LocalBufferConfig) (table : Batches) :
    Tracks (.start table) (State.opened config table) where
  watermark := table.getLast_le
  below n inside := by
    obtain ⟨row, there, rfl⟩ := List.mem_map.mp inside
    exact AutoTable.le_getLast there
  opened r inside _ := List.mem_map_of_mem inside
  counted r inside new := absurd (List.mem_map_of_mem inside) new
  taken := nofun

/-- The count of the record that is taken, and of the others. -/
theorem touched {r : MemRecord} (tracks : Tracks h s) (inside : record ∈ s.table.rows)
    (there : r ∈ s.table.rows) (new : r.localSeq ∉ h.opened) :
    (((sentCountTo (record.sentCount + 1)).only record.localSeq).apply r).sentCount =
      UInt64.ofNat ((record.localSeq :: h.taken).count r.localSeq) := by
  by_cases same : r.localSeq = record.localSeq
  · have count := tracks.counted record inside (same ▸ new)
    simp [AutoTable.Touch.only, sentCountTo, same, count]
  · have other : record.localSeq ≠ r.localSeq := fun eq => same eq.symm
    simp [AutoTable.Touch.only, same, List.count_cons_of_ne other, tracks.counted r there new]

/-- The counts follow what is handed out. -/
theorem goes {taken : Option Int} (tracks : Tracks h s) (goes : Goes s taken s') :
    Tracks { h with taken := taken.toList ++ h.taken } s' := by
  obtain ⟨table, watermark⟩ := goes
  cases table with
  | deletes rows last =>
    refine ⟨?_, ?_, fun r inside => ?_, fun r inside => ?_, ?_⟩
    · rw [watermark, last]
      exact tracks.watermark
    · rw [watermark]
      exact tracks.below
    · rw [watermark]
      exact tracks.opened r (rows r inside)
    · exact tracks.counted r (rows r inside)
    · rw [last]
      exact tracks.taken
  | @takes _ record inside eq =>
    have rows : ∀ r ∈ s'.table.rows, ∃ r₀ ∈ s.table.rows,
        ((sentCountTo (record.sentCount + 1)).only record.localSeq).apply r₀ = r := by
      rw [eq]
      exact fun r => List.mem_map.mp
    have last : s'.table.last = s.table.last := by rw [eq]; rfl
    have number : ∀ r : MemRecord, (((sentCountTo (record.sentCount + 1)).only
        record.localSeq).apply r).localSeq = r.localSeq := AutoTable.Touch.seq_apply _
    refine ⟨?_, ?_, fun r there => ?_, fun r there new => ?_, fun n there => ?_⟩
    · rw [watermark, last]
      exact tracks.watermark
    · rw [watermark]
      exact tracks.below
    · obtain ⟨r₀, inside₀, rfl⟩ := rows r there
      rw [watermark, number]
      exact tracks.opened r₀ inside₀
    · obtain ⟨r₀, inside₀, rfl⟩ := rows r there
      rw [number] at new ⊢
      exact tracks.touched inside inside₀ new
    · rw [last]
      rcases List.mem_cons.mp there with rfl | before
      · exact s.table.bounded record inside
      · exact tracks.taken n before
  | @adds _ row rows above last new =>
    have grows : s.table.last ≤ s'.table.last := by omega
    have beyond : ∀ n ∈ h.taken, n ≠ row.localSeq := fun n inside =>
      Int.ne_of_lt (Int.lt_of_le_of_lt (tracks.taken n inside) above)
    refine ⟨?_, ?_, fun r there low => ?_, fun r there old => ?_, fun n there => ?_⟩
    · rw [watermark]
      exact Int.le_trans tracks.watermark grows
    · rw [watermark]
      exact tracks.below
    · rw [watermark] at low
      rw [rows, List.mem_append, List.mem_singleton] at there
      rcases there with there | rfl
      · exact tracks.opened r there low
      · have := tracks.watermark
        omega
    · rw [rows, List.mem_append, List.mem_singleton] at there
      rcases there with there | rfl
      · exact tracks.counted r there old
      · rw [new, Option.toList_none, List.nil_append,
          List.count_eq_zero.mpr fun inside => beyond _ inside rfl]
        rfl
    · exact Int.le_trans (tracks.taken n there) grows

/-- The invariant goes through all steps. -/
theorem step {label : Label} (tracks : Tracks h s) (fits : s.Fits config) (named : s.Named serde)
    (taken : (bufferMachine config serde).step s label = some s') :
    Tracks (h.next serde s label) s' := by
  rw [History.next]
  split
  next again =>
    cases label with
    | restart =>
      cases taken
      have opened := start config s.table
      exact ⟨opened.watermark, opened.below, opened.opened, opened.counted, opened.taken⟩
    | _ => cases again
  next goesOn => exact tracks.goes (goes_of_step fits named (by simpa using goesOn) taken)

/-- The test of `handle_next`, on a row. -/
theorem replays_eq {r : MemRecord} (tracks : Tracks h s) (inside : r ∈ s.table.rows) :
    (decide (r.sentCount > 0) || decide (r.localSeq ≤ s.recoverWatermark)) =
      h.replays r.localSeq := by
  have mark : r.localSeq ≤ s.recoverWatermark ↔ r.localSeq ∈ h.opened :=
    ⟨tracks.opened r inside, tracks.below _⟩
  by_cases there : r.localSeq ∈ h.opened
  · simp [History.replays, mark, there]
  · simp [History.replays, mark, there, tracks.counted r inside there, UInt64.pos_iff_ne_zero]

end Tracks

/-! ## What is handed out -/

/-- What the run keeps, with its history. -/
theorem tracks_of_run {table : Batches} {s₀ : State} {labels : List Label} {h : History}
    (opened : openDb config table = .ok s₀)
    (run : (historyMachine config serde).Run (fun s label => s.1.Spared label)
      (s₀, .start table) labels (s, h)) :
    s.Reads config ∧ s.Written serde table ∧ Tracks h s := by
  obtain ⟨pos, rfl⟩ := openDb_ok opened
  refine (run.invariant (P := fun t => t.1.Reads config ∧ t.1.Named serde ∧
    t.1.Written serde table ∧ Tracks t.2 t.1) ?_ ?_).imp_right And.right
  · exact ⟨.opened pos table, .opened config table, .opened config table, .start config table⟩
  · rintro ⟨t, h⟩ label ⟨u, h'⟩ ⟨reads, named, written, tracks⟩ spared taken
    obtain ⟨taken, rfl⟩ := Machine.observed_step.mp taken
    have move := step_move taken
    exact ⟨reads.step pos spared move, named.step move, written.step named move,
      tracks.step reads.fits named taken⟩

/-- A `next` that hands out a record hands out the batch of its row, which is what was
pushed last for the message, and `replayed` is set if it was set there, if the row was
there when the session began, or if an earlier `next` of the session has taken it out. -/
theorem next_replayed {table : Batches} {s₀ : State} {labels : List Label} {h : History}
    {queue : List Cmd} {fault : Fault} {outcome : Except String Nat} {stored : StoredBatch}
    (opened : openDb config table = .ok s₀)
    (run : (historyMachine config serde).Run (fun s label => s.1.Spared label) (s₀, .start table)
      labels (s, h)) (command : s.queue = ⟨call, .next⟩ :: queue)
    (taken : (bufferMachine config serde).step s (.receive nowNs fault outcome) = some s')
    (answered : s'.answers call = s.answers call ++ [.taken (.ok (some stored))]) :
    ∃ row ∈ s.table.rows, stored.localSeq = row.localSeq ∧ stored.topic = row.topic ∧
      ((∃ row₀ ∈ table.rows, row₀.Same row) ∨ s.Accepted serde row) ∧
      ∃ batch, serde.fromSlice row.payload = .ok batch ∧
        stored.batch = { batch with replayed := batch.replayed || h.replays row.localSeq } := by
  obtain ⟨reads, written, tracks⟩ := tracks_of_run opened run
  cases step_move taken with
  | @receive cmd queue' _ _ _ _ at' eq commands =>
  obtain ⟨rfl, rfl⟩ := List.cons.inj (eq.symm.trans command)
  have back := requeued_checkPendingConfirm { s with queue := queue', pc := .top }
  rw [← show (s.handling queue').answers = s.answers from back.answers] at answered
  obtain ⟨s₁, takes⟩ := commands.takes_of_answer answered
  have fits := reads.fits.handling queue'
  generalize result : (.ok (some stored) : Except LocalBufferError (Option StoredBatch)) = ended
    at takes
  cases takes with
  | none | fails => cases result
  | @takes record rest batch metrics front read =>
    cases result
    have inside : record ∈ s.table.rows := by
      rw [← show (s.handling queue').table = s.table from back.table]
      exact fits.waiting_rows record (front ▸ List.mem_cons_self)
    refine ⟨record, inside, rfl, rfl, written.rows record inside, batch, read, ?_⟩
    rw [← tracks.replays_eq inside,
      ← show (s.handling queue').recoverWatermark = s.recoverWatermark from
        back.recoverWatermark]
    dsimp only
    split
    next replay => rw [replay, Bool.or_true]
    next fresh => rw [Bool.not_eq_true _ |>.mp fresh, Bool.or_false]

/-- A record is pushed, handed out to a caller that is gone before it has taken the answer,
and asked for again. -/
def cancelLabels : List Label :=
  served 0 (.push (sampleBatch "a")) ++ served 1 .next ++
    [.giveUp 1, .round 0 none none, .flush (.ok 0)] ++ asking 2 .next

/-- What the second caller gets. -/
def replayedStored : StoredBatch :=
  ⟨1, "forgelink/v1/telemetry/plant/press", { sampleBatch "a" with replayed := true }⟩

/-- A record that is handed out again after a lost take. -/
theorem next_replayed_sample :
    ∃ s s' h, (historyMachine sampleConfig sampleSerde).Run (fun s label => s.1.Spared label)
        (opened sampleConfig .empty, .start .empty) cancelLabels (s, h) ∧
      (bufferMachine sampleConfig sampleSerde).step s (.receive 0 none (.ok 0)) = some s' ∧
      s'.answers 2 = s.answers 2 ++ [.taken (.ok (some replayedStored))] ∧
      ∃ row ∈ s.table.rows, replayedStored.localSeq = row.localSeq ∧
        replayedStored.topic = row.topic ∧
        ((∃ row₀ ∈ (AutoTable.empty : Batches).rows, row₀.Same row) ∨
          s.Accepted sampleSerde row) ∧
        ∃ batch, sampleSerde.fromSlice row.payload = .ok batch ∧
          replayedStored.batch =
            { batch with replayed := batch.replayed || h.replays row.localSeq } := by
  obtain ⟨⟨s, h⟩, run, command, taken⟩ := Machine.Run.of_any
    (fun s : State × History => s.1.queue = [⟨2, .next⟩] ∧
      ((bufferMachine sampleConfig sampleSerde).step s.1 (.receive 0 none (.ok 0))).any (fun s' =>
        decide (s'.answers 2 = s.1.answers 2 ++ [Answer.taken (.ok (some replayedStored))])) = true)
    (show ((historyMachine sampleConfig sampleSerde).exec (fun s label => s.1.Spared label)
      (opened sampleConfig .empty, .start .empty) cancelLabels).any _ = true by decide +kernel)
  obtain ⟨s', taken, answered⟩ := (Option.any_eq_true _ _).mp taken
  have answered := of_decide_eq_true answered
  exact ⟨s, s', h, run, taken, answered, next_replayed rfl run command taken answered⟩

/-- A batch that nobody has got before is handed out as a replay: the table was empty at
the start, and no caller has taken an answer. -/
theorem replayed_after_cancel :
    ∃ s s', (bufferMachine sampleConfig sampleSerde).Run Machine.Always
        (opened sampleConfig .empty) cancelLabels s ∧
      (bufferMachine sampleConfig sampleSerde).step s (.receive 0 none (.ok 0)) = some s' ∧
      (sampleBatch "a").replayed = false ∧ (s.extracted 0 = false ∧ s.extracted 1 = false) ∧
      s'.answers 2 = s.answers 2 ++
        [.taken (.ok (some ⟨1, "forgelink/v1/telemetry/plant/press",
          { sampleBatch "a" with replayed := true }⟩))] := by
  exact Machine.Run.find_step (p := fun s => s.extracted 0 = false ∧ s.extracted 1 = false)
    (q := fun s s' => s'.answers 2 = s.answers 2 ++ [.taken (.ok (some replayedStored))])
    (by decide +kernel) fun s s' _ idle _ answered => ⟨rfl, idle, answered⟩

end State

end ForgeLink.Buffer
