import ForgeLink.Buffer.WorkerWindow
import ForgeLink.Buffer.WorkerWaiting

/-!
# An answered push is in the table

A push is answered `Ok` only when its message has a row: it was just inserted,
it had a row already, or a record of it is in flight.  The last case needs that
what is in flight is in the table, which an ack of a record that still waits in
`mem` destroys (`push_unsaved`).

The row is the one that the push accepted last has made, and it stays as it is,
but for `sent_count`, until it is acknowledged or expires.
-/

namespace ForgeLink.Buffer

open Lib

namespace State

variable {config : LocalBufferConfig} {serde : Serde} {s s' s'' : State} {call : CallId}
  {localSeq : Int}
variable {label : Label} {table : Batches} {batch : ObservationBatch}

/-! ## Who made a row -/

/-- The row is the record of the push that was accepted last for its message. -/
def Accepted (serde : Serde) (s : State) (row : MemRecord) : Prop :=
  ∃ call batch record n waited,
    s.sent call = some (.push batch) ∧ IsRecord serde batch record ∧
      MemRecord.Same { record with localSeq := n } row ∧
      .inserted call { record with localSeq := n } waited ∈ s.log ∧
      lastAccepted row.messageId s.log = some call

/-- Rows are those the run began with or of accepted pushes, and so are waiting
records. -/
structure Written (serde : Serde) (table : Batches) (s : State) : Prop where
  rows : ∀ row ∈ s.table.rows, (∃ row₀ ∈ table.rows, row₀.Same row) ∨ s.Accepted serde row
  pending : ∀ p ∈ s.pendingPush, lastAccepted p.record.messageId s.log = some p.first

theorem Written.opened (config : LocalBufferConfig) (table : Batches) :
    (State.opened config table).Written serde table :=
  ⟨fun row inside => .inl ⟨row, inside, .refl row⟩, nofun⟩

theorem lastAccepted_append {messageId : String} {new log : List Event} :
    lastAccepted messageId (new ++ log) =
      (lastAccepted messageId new).or (lastAccepted messageId log) := by
  rw [lastAccepted, List.findSome?_append]
  rfl

/-- No step adds a row that nobody pushed. -/
theorem Written.step (h : s.Written serde table) (named : s.Named serde)
    (move : Move config serde s label s') : s'.Written serde table := by
  obtain ⟨asked, new, effect, asks⟩ := move.effect
  refine ⟨fun row inside => ?_, fun p inside => ?_⟩
  · cases effect.rows row inside with
    | @kept row₀ inside₀ same last =>
      refine (h.rows row₀ inside₀).imp ?_ ?_
      · rintro ⟨row₁, inside₁, same₁⟩
        exact ⟨row₁, inside₁, same₁.trans same⟩
      · rintro ⟨call, batch, record, n, waited, made, of, same₁, logged, last₁⟩
        refine ⟨call, batch, record, n, waited, move.sent made, of, same₁.trans same, ?_, ?_⟩
        · rw [effect.log]
          exact List.mem_append_right _ logged
        · rw [effect.log, lastAccepted_append, last, Option.none_or, same.fields.2.1, last₁]
    | @flushed p n inside₀ eq logged last =>
      obtain ⟨batch, made, of⟩ := named.first p inside₀
      refine .inr ⟨p.first, batch, p.record, n, true, move.sent made, of, eq ▸ .refl row, ?_, ?_⟩
      · rw [effect.log, ← eq]
        exact List.mem_append_left _ logged
      · rw [effect.log, lastAccepted_append, last, Option.none_or, eq]
        exact h.pending p inside₀
    | @pushed call batch record n eq of eq' logged last =>
      refine .inr ⟨call, batch, record, n, false, move.sent (named.queue _ (asks _ _ eq)), of,
        eq' ▸ .refl row, ?_, ?_⟩
      · rw [effect.log, ← eq']
        exact List.mem_append_left _ logged
      · rw [effect.log, lastAccepted_append, last]
        rfl
  · rw [effect.log, lastAccepted_append]
    cases effect.pending p inside with
    | @kept p₀ inside₀ continues last =>
      rw [last, Option.none_or, continues.record, continues.first]
      exact h.pending p₀ inside₀
    | pushed _ _ _ last =>
      rw [last]
      rfl

/-! ## Rows stay -/

/-- A row is in the table of every later state, or was removed on the way. -/
theorem row_stays {ok : State → Label → Prop} {later : List Label} {row : MemRecord}
    (inside : row ∈ s.table.rows) (run : (bufferMachine config serde).Run ok s later s') :
    ∃ new, s'.log = new ++ s.log ∧
      ((∃ row' ∈ s'.table.rows, row.Same row') ∨ ∃ e ∈ new, e.removed = some row.localSeq) := by
  refine run.invariant (P := fun t => ∃ new, t.log = new ++ s.log ∧
    ((∃ row' ∈ t.table.rows, row.Same row') ∨ ∃ e ∈ new, e.removed = some row.localSeq))
    ⟨[], rfl, .inl ⟨row, inside, .refl row⟩⟩ ?_
  rintro t label u ⟨new, log, there⟩ _ taken
  obtain ⟨_, new', effect, _⟩ := (step_move taken).effect
  refine ⟨new' ++ new, by rw [effect.log, log, List.append_assoc], ?_⟩
  rcases there with ⟨row', inside', same⟩ | ⟨e, removed, eq⟩
  · refine (effect.kept row' inside').imp ?_ ?_
    · rintro ⟨row'', inside'', same'⟩
      exact ⟨row'', inside'', same.trans same'⟩
    · rintro ⟨e, removed, eq⟩
      exact ⟨e, List.mem_append_left _ removed, eq.trans (by rw [same.fields.1])⟩
  · exact .inr ⟨e, List.mem_append_right _ removed, eq⟩

/-! ## Answers -/

/-- The message has a row. -/
def HasRow (s : State) (messageId : String) : Prop :=
  ∃ row ∈ s.table.rows, row.messageId = messageId

theorem HasRow.answered {messageId : String} (h : s.HasRow messageId) (same : Answered s s') :
    s'.HasRow messageId := by
  rwa [HasRow, same.table]

theorem hasRow_store {record : MemRecord} {outcome : Except String Nat} {n : Int} {waited : Bool}
    (inserted : s.table.insertRecord record outcome = .ok (n, table)) :
    (s.store config call waited { record with localSeq := n } table).HasRow record.messageId := by
  obtain ⟨gap, _, rfl, inserted, _⟩ := Batches.insertRecord_ok inserted
  refine ⟨record.draft.row (s.table.number gap), ?_, rfl⟩
  rw [show (s.store config call waited _ table).table = table from rfl,
    (AutoTable.insert_eq_some inserted).1]
  exact List.mem_append_right _ (List.mem_singleton_self _)

/-- A reply that is not the one is not for the call, or not `Ok`. -/
theorem reply_ok {call' : CallId} {answer : Answer}
    (ok : (s.reply call' answer).answers call = s.answers call ++ [.done (.ok ())]) :
    call' = call ∧ answer = .done (.ok ()) := by
  have inside := (Replies.one s call' answer).mem_of_answers ok
  rw [List.mem_singleton, Prod.mk.injEq] at inside
  exact ⟨inside.1.symm, inside.2.symm⟩

theorem not_answered {answers : List Answer} {answer : Answer} (h : answers = answers ++ [answer]) :
    False := by
  simp at h

/-- A push answers when the row is written. -/
theorem pushes_ok {call' : CallId} (fits : s.Fits config)
    (pushes : Pushes config serde s call' batch s')
    (ok : s'.answers call = s.answers call ++ [.done (.ok ())]) :
    call' = call ∧ s'.HasRow batch.messageId := by
  cases pushes with
  | known known =>
    refine ⟨(reply_ok ok).1, HasRow.answered ?_ (answered_reply ..)⟩
    rcases known with ⟨r, out, same⟩ | row
    · exact ⟨r, fits.out_rows r out, same⟩
    · exact row
  | @refused metrics e =>
    obtain ⟨_, wrong⟩ := reply_ok (s := { s with metrics }) ok
    cases wrong
  | joins | waits => exact (not_answered ok).elim
  | @stores record outcome n table of _ _ inserted =>
    have replied := reply_ok (s := s.store config call' false { record with localSeq := n } table)
      ok
    refine ⟨replied.1, HasRow.answered ?_ (answered_reply ..)⟩
    rw [← of.messageId]
    exact hasRow_store inserted

/-- A flush answers when the row is written. -/
theorem flushes_ok {progress : Bool} {outcome : Except String Nat} (named : s.Named serde)
    (flushes : Flushes config s progress outcome s') (asked : s.sent call = some (.push batch))
    (ok : s'.answers call = s.answers call ++ [.done (.ok ())]) : s'.HasRow batch.messageId := by
  cases flushes with
  | leaves => exact (not_answered ok).elim
  | @stores front rest n table eq _ inserted =>
    have inside := (replies_replyAll ({ s with pendingPush := rest }.store config front.first true
      { front.record with localSeq := n } table) front.replies (.ok ())).mem_of_answers ok
    obtain ⟨call', waits, same⟩ := List.mem_map.mp inside
    cases same
    obtain ⟨batch', made, same⟩ := named.waits front (eq ▸ List.mem_cons_self) call waits
    rw [asked] at made
    cases made
    have stored : ({ s with pendingPush := rest }.store config front.first true
      { front.record with localSeq := n } table).HasRow batch.messageId :=
      same ▸ hasRow_store inserted
    have replied := stored.answered (answered_replyAll _ front.replies (.ok ()))
    exact replied
  | @fails front rest e eq =>
    have inside := (replies_replyAll { s with pendingPush := rest } front.replies
      (.error e)).mem_of_answers ok
    obtain ⟨_, _, wrong⟩ := List.mem_map.mp inside
    cases wrong

/-- No other command answers a push with `Ok`. -/
theorem commands_ok {cmd : Cmd} (fits : s.Fits config)
    (request : s.sent cmd.call = some cmd.request) (named : s.Named serde)
    (commands : Commands config serde s cmd s') (asked : s.sent call = some (.push batch))
    (ok : s'.answers call = s.answers call ++ [.done (.ok ())]) : s'.HasRow batch.messageId := by
  have other : ∀ {request'}, s.sent call = some request' → request' = .push batch := by
    intro request' made
    rw [asked] at made
    exact (Option.some.inj made).symm
  cases commands with
  | push pushes =>
    obtain ⟨rfl, row⟩ := pushes_ok (s := s.pruneCancelledWaiters) fits pushes ok
    cases other request
    exact row
  | @next call' s₁ result takes =>
    rw [← takes.answers.1] at ok
    cases (reply_ok ok).2
  | @delivers call' s₁ result localSeq takes =>
    rw [← takes.answers.1] at ok
    have ok : (s₁.reply call' (.taken result)).answers call = _ := ok
    cases (reply_ok ok).2
  | @returns call' s₁ result localSeq takes =>
    rw [(requeued_handleRequeue s₁ localSeq).answers, takes.answers.1] at ok
    exact (not_answered ok).elim
  | @ack call' localSeq s₁ result acks =>
    have same : s₁.answers = s.answers := by cases acks <;> rfl
    rw [← same] at ok
    obtain ⟨rfl, _⟩ := reply_ok ok
    cases other request
  | @requeue call' localSeq =>
    rw [← (requeued_handleRequeue s localSeq).answers] at ok
    obtain ⟨rfl, _⟩ := reply_ok ok
    cases other request
  | @shutdown call' =>
    have inside := (replies_shutdown s call').mem_of_answers ok
    rw [farewells, List.mem_append, List.mem_append] at inside
    rcases inside with (waiter | queued) | last
    · obtain ⟨p, _, waiter⟩ := List.mem_flatMap.mp waiter
      obtain ⟨_, _, wrong⟩ := List.mem_map.mp waiter
      cases wrong
    · obtain ⟨cmd, here, eq⟩ := List.mem_map.mp queued
      obtain ⟨rfl, answer⟩ := Prod.mk.inj eq
      rw [other (named.queue cmd here)] at answer
      cases answer
    · obtain ⟨rfl, _⟩ := Prod.mk.inj (List.mem_singleton.mp last)
      cases other request

/-- A push that is answered `Ok` has a row. -/
theorem Move.ok_hasRow (reads : s.Reads config) (named : s.Named serde)
    (move : Move config serde s label s') (asked : s.sent call = some (.push batch))
    (ok : s'.answers call = s.answers call ++ [.done (.ok ())]) : s'.HasRow batch.messageId := by
  cases move with
  | send | giveUp | extract | timeout | hangUp | restart => exact (not_answered ok).elim
  | @refused call' request fresh =>
    obtain ⟨rfl, _⟩ := reply_ok (s := { s with
      sent := Function.update s.sent call' (some request) }) ok
    rw [fresh] at asked
    cases asked
  | round =>
    rw [(silent_round ..).answers] at ok
    exact (not_answered ok).elim
  | flush _ flushes => exact flushes_ok named flushes asked ok
  | @receive cmd queue _ _ _ _ _ eq commands =>
    have silent := silent_handling s queue
    have pending : (s.handling queue).pendingPush = s.pendingPush := silent.pendingPush
    rw [← show (s.handling queue).answers = s.answers from silent.answers] at ok
    rw [← show (s.handling queue).sent = s.sent from silent.sent] at asked
    have named' : (s.handling queue).Named serde := by
      refine ⟨fun cmd' inside => ?_, ?_, ?_⟩
      · rw [silent.queue] at inside
        rw [silent.sent]
        exact named.queue cmd' (eq ▸ List.mem_cons_of_mem _ inside)
      · rw [pending, silent.sent]
        exact named.waits
      · rw [pending, silent.sent]
        exact named.first
    refine commands_ok (reads.fits.handling queue) ?_ named' commands asked ok
    rw [silent.sent]
    exact named.queue cmd (eq ▸ List.mem_cons_self)

/-! ## All runs -/

/-- If no ack is of a record that waits in `mem`, a push that is answered `Ok`
has a row and no waiting record.  The row is the record of the push accepted
last, or was there at the start, and it stays until it is removed. -/
theorem push_durable {s₀ s₁ : State} {labels : List Label} (opened : openDb config table = .ok s₀)
    (run : (bufferMachine config serde).Run Spared s₀ labels s)
    (taken : (bufferMachine config serde).step s label = some s₁)
    (asked : s.sent call = some (.push batch))
    (ok : s₁.answers call = s.answers call ++ [.done (.ok ())]) :
    (∀ p ∈ s₁.pendingPush, p.record.messageId ≠ batch.messageId) ∧
      ∃ row ∈ s₁.table.rows, row.messageId = batch.messageId ∧
        ((∃ row₀ ∈ table.rows, row₀.Same row) ∨ s₁.Accepted serde row) ∧
        ∀ later s₂, (bufferMachine config serde).Run Machine.Always s₁ later s₂ →
          ∃ new, s₂.log = new ++ s₁.log ∧
            ((∃ row' ∈ s₂.table.rows, row.Same row') ∨
              ∃ e ∈ new, e.removed = some row.localSeq) := by
  have reads := reads_of_run opened run
  obtain ⟨_, rfl⟩ := openDb_ok opened
  have start : (State.opened config table).Lined config :=
    ⟨List.nodup_nil, nofun, Nat.zero_le _, nofun⟩
  obtain ⟨named, written, lined⟩ := run.invariant
    (P := fun s => s.Named serde ∧ s.Written serde table ∧ s.Lined config)
    ⟨.opened config table, .opened config table, start⟩
    fun t label u ⟨named, written, lined⟩ _ taken =>
      ⟨named.step (step_move taken), written.step named (step_move taken),
        lined.step (step_move taken)⟩
  have move := step_move taken
  obtain ⟨row, inside, same⟩ := move.ok_hasRow reads named asked ok
  refine ⟨fun p waits eq => ?_, row, inside, same, (written.step named move).rows row inside,
    fun later s₂ run => row_stays inside run⟩
  exact (lined.step move).rows p waits row inside (same.trans eq.symm)

/-- A call is in the channel, and the worker waits for it. -/
def asking (call : CallId) (request : Request) : List Label :=
  [.send call request, .round 0 none none, .flush (.ok 0)]

/-- A push whose row is there. -/
theorem push_durable_sample :
    ∃ s s₁, (bufferMachine sampleConfig sampleSerde).Run Spared (opened sampleConfig .empty)
        (asking 0 (.push (sampleBatch "a"))) s ∧
      (bufferMachine sampleConfig sampleSerde).step s (.receive 0 none (.ok 0)) = some s₁ ∧
      s₁.answers 0 = s.answers 0 ++ [.done (.ok ())] ∧
      ∃ row ∈ s₁.table.rows, row.messageId = "a" ∧
        ((∃ row₀ ∈ (AutoTable.empty : Batches).rows, row₀.Same row) ∨
          s₁.Accepted sampleSerde row) ∧
        ∀ later s₂, (bufferMachine sampleConfig sampleSerde).Run Machine.Always s₁ later s₂ →
          ∃ new, s₂.log = new ++ s₁.log ∧
            ((∃ row' ∈ s₂.table.rows, row.Same row') ∨
              ∃ e ∈ new, e.removed = some row.localSeq) := by
  exact Machine.Run.find_step (p := fun s => s.sent 0 = some (.push (sampleBatch "a")))
    (q := fun s s₁ => s₁.answers 0 = s.answers 0 ++ [.done (.ok ())]) (by decide +kernel)
    fun s s₁ run asked taken ok => ⟨ok, (push_durable rfl run taken asked ok).2⟩

/-- A record that is acknowledged while it waits in `mem` is taken from there
without a row, and a push of its message is then answered `Ok`. -/
theorem push_unsaved :
    ∃ s s₁, (bufferMachine sampleConfig sampleSerde).Run Machine.Always
        (opened sampleConfig .empty) (served 0 (.push (sampleBatch "a")) ++ served 1 (.ack 1) ++
          served 2 .next ++ [.extract 2] ++ asking 3 (.push (sampleBatch "a"))) s ∧
      (bufferMachine sampleConfig sampleSerde).step s (.receive 0 none (.ok 0)) = some s₁ ∧
      s.sent 3 = some (.push (sampleBatch "a")) ∧
      s₁.answers 3 = s.answers 3 ++ [.done (.ok ())] ∧ s₁.table.rows = [] := by
  exact Machine.Run.find_step (p := fun s => s.sent 3 = some (.push (sampleBatch "a")))
    (q := fun s s₁ => s₁.answers 3 = s.answers 3 ++ [.done (.ok ())] ∧ s₁.table.rows = [])
    (by decide +kernel) fun s s₁ _ asked _ ok => ⟨asked, ok⟩

end State

end ForgeLink.Buffer
