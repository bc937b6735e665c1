import ForgeLink.Buffer.WorkerCalls

/-!
# The waiting records

`pending_push` is a line: a record joins it at the end when the table is full,
leaves it at the front when there is room, and may drop out when all its callers
are gone.  No two waiting records are of one message, and none is of a message
that has a row (`Lined`).  The log tells in which order records started to wait
and in which order they were inserted.
-/

namespace ForgeLink.Buffer

open Lib

/-- What identifies an entry of the line. -/
def PendingPush.key (p : PendingPush) : MemRecord × CallId := (p.record, p.first)

/-- The call whose record starts to wait. -/
def Event.queuedCall : Event → Option CallId
  | .queued call _ => some call
  | _ => none

/-- The call whose record is inserted after a wait. -/
def Event.flushedCall : Event → Option CallId
  | .inserted call _ true => some call
  | _ => none

/-- The calls whose records have waited, oldest first. -/
def queuedCalls (log : List Event) : List CallId := (log.filterMap Event.queuedCall).reverse

/-- The calls whose records were inserted after a wait, oldest first. -/
def flushedCalls (log : List Event) : List CallId := (log.filterMap Event.flushedCall).reverse

namespace State

variable {config : LocalBufferConfig} {serde : Serde} {s s' s'' : State} {call : CallId}
  {localSeq : Int}
variable {p : PendingPush} {outcome : Except String Nat} {label : Label} {batch : ObservationBatch}
  {progress : Bool}

/-! ## The line -/

/-- The records in the line are of distinct messages without a row, and the line
and its entries are bounded. -/
structure Lined (config : LocalBufferConfig) (s : State) : Prop where
  ids : (s.pendingPush.map fun p => p.record.messageId).Nodup
  rows : ∀ p ∈ s.pendingPush, ∀ row ∈ s.table.rows, row.messageId ≠ p.record.messageId
  few : s.pendingPush.length ≤ config.memoryRecords
  short : ∀ p ∈ s.pendingPush, p.replies ≠ [] ∧ p.replies.length ≤ maxWaitersPerRecord

theorem map_messageId (pending : List PendingPush) :
    pending.map (fun p => p.record.messageId) =
      (pending.map PendingPush.key).map fun key => key.1.messageId := by
  rw [List.map_map]
  rfl

/-- Entries drop out of the line, and rows out of the table. -/
theorem Lined.thins (h : s.Lined config)
    (line : (s'.pendingPush.map PendingPush.key).Sublist (s.pendingPush.map PendingPush.key))
    (rows : ∀ row ∈ s'.table.rows, ∃ row₀ ∈ s.table.rows, row₀.messageId = row.messageId)
    (short : ∀ p ∈ s'.pendingPush, p.replies ≠ [] ∧ p.replies.length ≤ maxWaitersPerRecord) :
    s'.Lined config where
  ids := by
    have ids := h.ids
    rw [map_messageId] at ids ⊢
    exact ids.sublist (line.map _)
  rows p inside row here := by
    obtain ⟨p₀, inside₀, key⟩ := List.mem_map.mp (line.subset (List.mem_map_of_mem inside))
    obtain ⟨row₀, here₀, same⟩ := rows row here
    rw [← same, ← show p₀.record = p.record from congrArg Prod.fst key]
    exact h.rows p₀ inside₀ row₀ here₀
  few := by
    have less := line.length_le
    rw [List.length_map, List.length_map] at less
    exact Nat.le_trans less h.few
  short := short

/-- Line and messages stay as they are. -/
theorem Lined.same (h : s.Lined config) (pending : s'.pendingPush = s.pendingPush)
    (rows : ∀ row ∈ s'.table.rows, ∃ row₀ ∈ s.table.rows, row₀.messageId = row.messageId) :
    s'.Lined config :=
  h.thins (by rw [pending]) rows (pending ▸ h.short)

theorem Lined.answered (h : s.Lined config) (answered : Answered s s') : s'.Lined config :=
  h.same (by rw [answered.worker]) fun row here => ⟨row, answered.table ▸ here, rfl⟩

/-! ## The parts of a step -/

theorem key_addWaiter (messageId : String) (pending : List PendingPush) :
    (addWaiter messageId call pending).map PendingPush.key = pending.map PendingPush.key := by
  induction pending with
  | nil => rfl
  | cons p pending ih =>
    rw [addWaiter]
    split
    · rfl
    · rw [List.map_cons, List.map_cons, ih]

theorem replies_addWaiter {messageId : String} {pending : List PendingPush} {waiting : PendingPush}
    (found : pending.find? (fun p => p.record.messageId = messageId) = some waiting)
    (h : p ∈ addWaiter messageId call pending) :
    p ∈ pending ∨ p.replies = waiting.replies ++ [call] := by
  induction pending with
  | nil => cases h
  | cons p₀ pending ih =>
    rw [addWaiter] at h
    split at h
    next same =>
      rw [List.find?_cons_of_pos (by simpa using same)] at found
      cases found
      rcases List.mem_cons.mp h with rfl | inside
      · exact .inr rfl
      · exact .inl (List.mem_cons_of_mem _ inside)
    next other =>
      rw [List.find?_cons_of_neg (by simpa using other)] at found
      rcases List.mem_cons.mp h with rfl | inside
      · exact .inl List.mem_cons_self
      · exact (ih found inside).imp_left (List.mem_cons_of_mem _)

theorem key_pruneCancelledWaiters (s : State) :
    (s.pruneCancelledWaiters.pendingPush.map PendingPush.key).Sublist
      (s.pendingPush.map PendingPush.key) := by
  have same : (s.pendingPush.map fun p => { p with
      replies := p.replies.filter fun call => !s.gone call }).map PendingPush.key =
      s.pendingPush.map PendingPush.key := by
    rw [List.map_map]
    rfl
  rw [← same]
  exact List.filter_sublist.map _

theorem Lined.pruneCancelledWaiters (h : s.Lined config) :
    s.pruneCancelledWaiters.Lined config := by
  refine h.thins (key_pruneCancelledWaiters s) (fun row here => ⟨row, here, rfl⟩)
    fun p inside => ?_
  obtain ⟨kept, some⟩ := List.mem_filter.mp inside
  obtain ⟨p₀, inside₀, rfl⟩ := List.mem_map.mp kept
  exact ⟨by simpa using some,
    Nat.le_trans (List.length_filter_le ..) (h.short p₀ inside₀).2⟩

theorem mem_insertRecord {t t' : Batches} {record row : MemRecord} {n : Int}
    (inserted : t.insertRecord record outcome = .ok (n, t')) (here : row ∈ t'.rows) :
    row ∈ t.rows ∨ row.messageId = record.messageId := by
  obtain ⟨gap, _, _, inserted, _⟩ := Batches.insertRecord_ok inserted
  rw [(AutoTable.insert_eq_some inserted).1] at here
  rcases List.mem_append.mp here with before | new
  · exact .inl before
  · rw [List.mem_singleton.mp new]
    exact .inr rfl

/-- A record enters the table that no entry of the line waits with. -/
theorem Lined.stores {record : MemRecord} {n : Int} {table : Batches} (h : s.Lined config)
    (inserted : s.table.insertRecord record outcome = .ok (n, table))
    (alone : ∀ p ∈ s.pendingPush, p.record.messageId ≠ record.messageId)
    (pending : s'.pendingPush = s.pendingPush) (table' : s'.table = table) :
    s'.Lined config where
  ids := pending ▸ h.ids
  rows p inside row here := by
    rw [pending] at inside
    rw [table'] at here
    rcases mem_insertRecord inserted here with before | new
    · exact h.rows p inside row before
    · exact fun same => alone p inside (same.symm.trans new)
  few := pending ▸ h.few
  short := pending ▸ h.short

/-- A push keeps the line in its bounds. -/
theorem Lined.pushes (h : s.Lined config) (pushes : Pushes config serde s call batch s') :
    s'.Lined config := by
  cases pushes with
  | known => exact h.answered (answered_reply ..)
  | refused =>
    refine Lined.answered ?_ (answered_reply ..)
    exact h.same rfl fun row here => ⟨row, here, rfl⟩
  | joins found room =>
    refine h.thins (by rw [key_addWaiter]) (fun row here => ⟨row, here, rfl⟩) fun p inside => ?_
    rcases replies_addWaiter found inside with before | joined
    · exact h.short p before
    · rw [joined, List.length_append]
      exact ⟨by simp, room⟩
  | @waits record of unknown room =>
    have same := of.messageId
    refine ⟨?_, fun p inside row here => ?_, ?_, fun p inside => ?_⟩
    · rw [List.map_append, List.nodup_append_comm]
      refine List.nodup_cons.mpr ⟨fun waits => ?_, h.ids⟩
      obtain ⟨p, inside, eq⟩ := List.mem_map.mp waits
      exact unknown.2 p inside (eq.trans same)
    · rcases List.mem_append.mp inside with before | new
      · exact h.rows p before row here
      · rw [List.mem_singleton.mp new]
        exact fun eq => unknown.1 (.inr ⟨row, here, eq.trans same⟩)
    · rw [List.length_append]
      exact room
    · rcases List.mem_append.mp inside with before | new
      · exact h.short p before
      · rw [List.mem_singleton.mp new, maxWaitersPerRecord, List.length_singleton]
        exact ⟨by simp, by omega⟩
  | @stores record outcome n table of unknown _ inserted =>
    refine Lined.answered ?_ (answered_reply ..)
    refine h.stores inserted (fun p inside eq => unknown.2 p inside ?_) rfl rfl
    exact eq.trans of.messageId

/-- A flush keeps the line in its bounds. -/
theorem Lined.flushes (h : s.Lined config) (flushes : Flushes config s progress outcome s') :
    s'.Lined config := by
  have popped : ∀ {front rest}, s.pendingPush = front :: rest →
      Lined config { s with pendingPush := rest } := by
    intro front rest eq
    refine h.thins ?_ (fun row here => ⟨row, here, rfl⟩) fun p inside => ?_
    · rw [eq, List.map_cons]
      exact List.sublist_cons_self ..
    · exact h.short p (eq ▸ List.mem_cons_of_mem _ inside)
  cases flushes with
  | leaves => exact h.same rfl fun row here => ⟨row, here, rfl⟩
  | @stores front rest n table eq _ inserted =>
    have ids := h.ids
    rw [eq, List.map_cons, List.nodup_cons] at ids
    have stored : Lined config ({ s with pendingPush := rest }.store config front.first true
        { front.record with localSeq := n } table) :=
      (popped eq).stores inserted
        (fun p inside same => ids.1 (List.mem_map.mpr ⟨p, inside, same⟩)) rfl rfl
    have replied := stored.answered (answered_replyAll _ front.replies (.ok ()))
    exact replied.same rfl fun row here => ⟨row, here, rfl⟩
  | fails eq => exact (popped eq).answered (answered_replyAll ..)

theorem Lined.takes {result : Except LocalBufferError (Option StoredBatch)} (h : s.Lined config)
    (takes : Takes serde s s' result) : s'.Lined config := by
  have effect : Effect serde none s [] s' := effect_takes takes
  refine h.same (by cases takes <;> rfl) fun row here => ?_
  cases effect.rows row here with
  | kept here₀ same _ => exact ⟨_, here₀, same.fields.2.1.symm⟩
  | flushed _ _ logged => cases logged
  | pushed asked => cases asked

theorem Lined.acks {result : Except LocalBufferError Unit} (h : s.Lined config)
    (acks : Acks s localSeq s' result) : s'.Lined config := by
  cases acks with
  | fails => exact h
  | absent | removes | strays =>
    exact h.same rfl fun row here => ⟨row, List.mem_of_mem_filter here, rfl⟩

theorem Lined.requeued (h : s.Lined config) (requeued : Requeued s s') : s'.Lined config :=
  h.same requeued.pendingPush fun row here => ⟨row, requeued.table ▸ here, rfl⟩

theorem Lined.commands {cmd : Cmd} (h : s.Lined config)
    (commands : Commands config serde s cmd s') : s'.Lined config := by
  cases commands with
  | push pushes => exact h.pruneCancelledWaiters.pushes pushes
  | next takes => exact (h.takes takes).answered (answered_reply ..)
  | @delivers call s₁ result localSeq takes =>
    have replied := (h.takes takes).answered (answered_reply s₁ call (.taken result))
    exact replied.same rfl fun row here => ⟨row, here, rfl⟩
  | returns takes => exact (h.takes takes).requeued (requeued_handleRequeue ..)
  | ack acks => exact (h.acks acks).answered (answered_reply ..)
  | requeue => exact (h.requeued (requeued_handleRequeue ..)).answered (answered_reply ..)
  | @shutdown call =>
    refine Lined.answered ?_ (answered_shutdown s call)
    exact h.thins (List.nil_sublist _) (fun row here => ⟨row, here, rfl⟩) nofun

theorem Lined.step (h : s.Lined config) (move : Move config serde s label s') :
    s'.Lined config := by
  have idle : ∀ {s' : State}, s'.pendingPush = s.pendingPush → s'.table = s.table →
    s'.Lined config :=
    fun pending table => h.same pending fun row here => ⟨row, table ▸ here, rfl⟩
  cases move with
  | send | giveUp | extract | timeout | hangUp => exact idle rfl rfl
  | refused =>
    refine Lined.answered ?_ (answered_reply ..)
    exact idle rfl rfl
  | round => exact h.same (silent_round ..).pendingPush fun row here => ⟨row, mem_round here, rfl⟩
  | flush _ flushes => exact h.flushes flushes
  | @receive cmd queue _ _ _ _ _ eq commands =>
    obtain ⟨_, table, pending⟩ := handling_same s queue
    exact (idle pending table).commands commands
  | restart => exact h.thins (List.nil_sublist _) (fun row here => ⟨row, here, rfl⟩) nofun

/-! ## The order of the line -/

/-- How a step changes the line and the log: entries drop out, the command that
is handled joins at the end, or the first entry is inserted. -/
inductive LineMove (s s' : State) : Prop where
  | thins :
      (s'.pendingPush.map PendingPush.key).Sublist (s.pendingPush.map PendingPush.key) →
      queuedCalls s'.log = queuedCalls s.log → flushedCalls s'.log = flushedCalls s.log →
      LineMove s s'
  | waits {cmd queue line record} :
      s.queue = cmd :: queue → s'.queue = queue →
      List.Sublist line (s.pendingPush.map PendingPush.key) →
      s'.pendingPush.map PendingPush.key = line ++ [(record, cmd.call)] →
      queuedCalls s'.log = queuedCalls s.log ++ [cmd.call] →
      flushedCalls s'.log = flushedCalls s.log → LineMove s s'
  | inserts {front rest} :
      s.pendingPush = front :: rest → s'.pendingPush = rest →
      queuedCalls s'.log = queuedCalls s.log →
      flushedCalls s'.log = flushedCalls s.log ++ [front.first] → LineMove s s'

/-- Events of other kinds. -/
theorem calls_append {new log : List Event}
    (other : ∀ e ∈ new, e.queuedCall = none ∧ e.flushedCall = none) :
    queuedCalls (new ++ log) = queuedCalls log ∧ flushedCalls (new ++ log) = flushedCalls log := by
  have queued : new.filterMap Event.queuedCall = [] :=
    List.filterMap_eq_nil_iff.mpr fun e inside => (other e inside).1
  have flushed : new.filterMap Event.flushedCall = [] :=
    List.filterMap_eq_nil_iff.mpr fun e inside => (other e inside).2
  rw [queuedCalls, queuedCalls, flushedCalls, flushedCalls, List.filterMap_append,
    List.filterMap_append, queued, flushed]
  exact ⟨rfl, rfl⟩

theorem Logged.calls (h : Logged s s') :
    queuedCalls s'.log = queuedCalls s.log ∧ flushedCalls s'.log = flushedCalls s.log := by
  obtain ⟨answers, log, all⟩ := h
  rw [log]
  refine calls_append fun e inside => ?_
  have answer := all e inside
  cases e <;> first | exact ⟨rfl, rfl⟩ | cases answer

theorem acks_calls {result : Except LocalBufferError Unit} (acks : Acks s localSeq s' result) :
    queuedCalls s'.log = queuedCalls s.log ∧ flushedCalls s'.log = flushedCalls s.log ∧
      s'.pendingPush = s.pendingPush := by
  cases acks <;> exact ⟨rfl, rfl, rfl⟩

/-- A round logs what expires. -/
theorem round_log {cutoffNs : Int} {cleanup load : Fault} : ∃ rows : List MemRecord,
    (s.round config cutoffNs cleanup load).log = rows.map .expired ++ s.log := by
  have loaded : (s.round config cutoffNs cleanup load).log =
      (s.checkPendingConfirm.1.cleanupExpired cutoffNs cleanup).1.log :=
    (loadMore_same config _ load).2.2
  rw [loaded, ← (requeued_checkPendingConfirm s).log]
  unfold cleanupExpired
  dsimp only
  split
  · exact ⟨[], rfl⟩
  · split
    · exact ⟨[], rfl⟩
    · exact ⟨_, rfl⟩

theorem round_calls {cutoffNs : Int} {cleanup load : Fault} :
    queuedCalls (s.round config cutoffNs cleanup load).log = queuedCalls s.log ∧
      flushedCalls (s.round config cutoffNs cleanup load).log = flushedCalls s.log := by
  obtain ⟨rows, log⟩ : ∃ rows : List MemRecord,
      (s.round config cutoffNs cleanup load).log = _ := round_log
  rw [log]
  refine calls_append fun e inside => ?_
  obtain ⟨row, _, rfl⟩ := List.mem_map.mp inside
  exact ⟨rfl, rfl⟩

/-- A push leaves the line as it is, or joins its end. -/
theorem pushes_line (pushes : Pushes config serde s call batch s') :
    (s'.pendingPush.map PendingPush.key = s.pendingPush.map PendingPush.key ∧
        queuedCalls s'.log = queuedCalls s.log ∧ flushedCalls s'.log = flushedCalls s.log) ∨
      ∃ record, s'.pendingPush.map PendingPush.key =
          s.pendingPush.map PendingPush.key ++ [(record, call)] ∧
        queuedCalls s'.log = queuedCalls s.log ++ [call] ∧
        flushedCalls s'.log = flushedCalls s.log ∧ s'.queue = s.queue := by
  cases pushes with
  | known =>
    obtain ⟨queued, flushed⟩ := (logged_reply s call (.done (.ok ()))).calls
    exact .inl ⟨by rw [reply_toWorkerState], queued, flushed⟩
  | @refused metrics e =>
    obtain ⟨queued, flushed⟩ := (logged_reply { s with metrics } call (.done (.error e))).calls
    exact .inl ⟨by rw [reply_toWorkerState], queued, flushed⟩
  | joins => exact .inl ⟨key_addWaiter .., rfl, rfl⟩
  | @waits record =>
    refine .inr ⟨record, ?_, ?_, rfl, rfl⟩
    · rw [List.map_append]
      rfl
    · simp [queuedCalls, Event.queuedCall]
  | @stores record outcome n table =>
    obtain ⟨queued, flushed⟩ := (logged_reply (s.store config call false
      { record with localSeq := n } table) call (.done (.ok ()))).calls
    exact .inl ⟨by rw [reply_toWorkerState]; rfl, queued, flushed⟩

theorem flushes_line (flushes : Flushes config s progress outcome s') : LineMove s s' := by
  cases flushes with
  | leaves => exact .thins (.refl _) rfl rfl
  | @stores front rest n table eq =>
    have same := answered_replyAll ({ s with pendingPush := rest }.store config front.first true
      { front.record with localSeq := n } table) front.replies (.ok ())
    obtain ⟨queued, flushed⟩ := (logged_replyAll ({ s with pendingPush := rest }.store config
      front.first true { front.record with localSeq := n } table) front.replies (.ok ())).calls
    refine .inserts eq (by rw [same.worker]; rfl) queued (flushed.trans ?_)
    simp [store, flushedCalls, Event.flushedCall]
  | @fails front rest e eq =>
    have same := answered_replyAll { s with pendingPush := rest } front.replies (.error e)
    obtain ⟨queued, flushed⟩ :=
      (logged_replyAll { s with pendingPush := rest } front.replies (.error e)).calls
    refine .thins ?_ queued flushed
    rw [same.worker, eq, List.map_cons]
    exact List.sublist_cons_self ..

/-- A command that does not join the line. -/
theorem commands_line {cmd : Cmd} (commands : Commands config serde s cmd s') :
    ((s'.pendingPush.map PendingPush.key).Sublist (s.pendingPush.map PendingPush.key) ∧
        queuedCalls s'.log = queuedCalls s.log ∧ flushedCalls s'.log = flushedCalls s.log) ∨
      ∃ record line, List.Sublist line (s.pendingPush.map PendingPush.key) ∧
        s'.pendingPush.map PendingPush.key = line ++ [(record, cmd.call)] ∧
        queuedCalls s'.log = queuedCalls s.log ++ [cmd.call] ∧
        flushedCalls s'.log = flushedCalls s.log ∧ s'.queue = s.queue := by
  cases commands with
  | push pushes =>
    rcases pushes_line pushes with ⟨keys, calls⟩ | ⟨record, keys, calls⟩
    · exact .inl ⟨keys ▸ key_pruneCancelledWaiters s, calls⟩
    · exact .inr ⟨record, _, key_pruneCancelledWaiters s, keys, calls⟩
  | @next call s₁ result takes =>
    obtain ⟨queued, flushed⟩ := (logged_reply s₁ call (.taken result)).calls
    refine .inl ⟨?_, queued.trans ?_, flushed.trans ?_⟩
    · rw [reply_toWorkerState]
      cases takes <;> exact .refl _
    · cases takes <;> rfl
    · cases takes <;> rfl
  | @delivers call s₁ result localSeq takes =>
    obtain ⟨queued, flushed⟩ := (logged_reply s₁ call (.taken result)).calls
    refine .inl ⟨?_, queued.trans ?_, flushed.trans ?_⟩
    · rw [awaitConfirm]
      dsimp only
      rw [reply_toWorkerState]
      cases takes <;> exact .refl _
    · cases takes <;> rfl
    · cases takes <;> rfl
  | @returns call s₁ result localSeq takes =>
    have same := requeued_handleRequeue s₁ localSeq
    rw [same.pendingPush, same.log]
    cases takes <;> exact .inl ⟨.refl _, rfl, rfl⟩
  | @ack call localSeq s₁ result acks =>
    obtain ⟨queued, flushed⟩ := (logged_reply s₁ call (.done result)).calls
    obtain ⟨queued', flushed', pending⟩ := acks_calls acks
    refine .inl ⟨?_, queued.trans queued', flushed.trans flushed'⟩
    rw [reply_toWorkerState, pending]
  | @requeue call localSeq =>
    have same := requeued_handleRequeue s localSeq
    obtain ⟨queued, flushed⟩ :=
      (logged_reply (s.handleRequeue localSeq) call (.done (.ok ()))).calls
    rw [same.log] at queued flushed
    refine .inl ⟨?_, queued, flushed⟩
    rw [reply_toWorkerState, same.pendingPush]
  | @shutdown call =>
    obtain ⟨queued, flushed⟩ := (logged_shutdown s call).calls
    refine .inl ⟨?_, queued, flushed⟩
    rw [(answered_shutdown s call).worker]
    exact List.nil_sublist _

theorem Move.line (move : Move config serde s label s') : LineMove s s' := by
  cases move with
  | send | giveUp | extract | timeout | hangUp => exact .thins (.refl _) rfl rfl
  | @refused call request =>
    obtain ⟨queued, flushed⟩ := (logged_reply
      { s with sent := Function.update s.sent call (some request) } call
      (refusal request)).calls
    exact .thins (by rw [reply_toWorkerState]) queued flushed
  | round =>
    obtain ⟨queued, flushed⟩ := round_calls
    exact .thins (by rw [(silent_round ..).pendingPush]) queued flushed
  | flush _ flushes => exact flushes_line flushes
  | @receive cmd queue _ _ _ _ _ eq commands =>
    obtain ⟨log, _, pending⟩ := handling_same s queue
    have line := commands_line commands
    rw [log, pending, (silent_handling s queue).queue] at line
    rcases line with ⟨keys, queued, flushed⟩ | ⟨record, line, sub, keys, queued, flushed, same⟩
    · exact .thins keys queued flushed
    · exact .waits eq same sub keys queued flushed
  | restart => exact .thins (List.nil_sublist _) rfl rfl

/-- What is inserted after a wait, and what still waits, is in the order in
which it started to wait; every call starts to wait once. -/
structure Ordered (s : State) : Prop where
  order : (flushedCalls s.log ++ s.pendingPush.map PendingPush.first).Sublist (queuedCalls s.log)
  once : (queuedCalls s.log).Nodup
  handled : ∀ call ∈ queuedCalls s.log, (s.sent call).isSome ∧ call ∉ s.queue.map Cmd.call

theorem map_first (pending : List PendingPush) :
    pending.map PendingPush.first = (pending.map PendingPush.key).map Prod.snd := by
  rw [List.map_map]
  rfl

theorem Ordered.opened (config : LocalBufferConfig) (table : Batches) :
    (State.opened config table).Ordered :=
  ⟨.refl _, List.nodup_nil, nofun⟩

/-- Every step keeps the order of the line. -/
theorem Ordered.step (h : s.Ordered) (kept : s.Kept) (move : Move config serde s label s') :
    s'.Ordered := by
  -- A call that has been handled does not come back into the channel.
  have handled : ∀ call ∈ queuedCalls s.log,
      (s'.sent call).isSome ∧ call ∉ s'.queue.map Cmd.call := by
    intro call queued
    obtain ⟨made, absent⟩ := h.handled call queued
    obtain ⟨request, made⟩ := Option.isSome_iff_exists.mp made
    refine ⟨by rw [move.sent made]; rfl, fun back => ?_⟩
    obtain ⟨cmd, inside, rfl⟩ := List.mem_map.mp back
    rcases move.queue cmd inside with before | rfl
    · exact absent (List.mem_map_of_mem before)
    · cases move with
      | send fresh | refused fresh =>
        rw [fresh] at made
        cases made
  cases move.line with
  | thins line queued flushed =>
    rw [← queued] at handled
    refine ⟨?_, by rw [queued]; exact h.once, handled⟩
    rw [queued, flushed, map_first]
    refine List.Sublist.trans ?_ h.order
    rw [map_first]
    exact (line.map _).append_left _
  | @waits cmd queue line record eq eq' sub keys queued flushed =>
    have inside : cmd.call ∈ s.queue.map Cmd.call := by
      rw [eq]
      exact List.mem_cons_self
    have new : cmd.call ∉ queuedCalls s.log := fun before => (h.handled _ before).2 inside
    refine ⟨?_, ?_, fun call waited => ?_⟩
    · rw [queued, flushed, map_first, keys, List.map_append, ← List.append_assoc]
      refine List.Sublist.append ?_ (.refl _)
      refine List.Sublist.trans ?_ h.order
      rw [map_first]
      exact (sub.map _).append_left _
    · rw [queued, List.nodup_append_comm]
      exact List.nodup_cons.mpr ⟨new, h.once⟩
    · rw [queued] at waited
      rcases List.mem_append.mp waited with before | now
      · exact handled call before
      · rw [List.mem_singleton.mp now, eq']
        have distinct := (List.nodup_append.mp kept.books.distinct).2.1
        rw [eq, List.map_cons, List.nodup_cons] at distinct
        refine ⟨?_, distinct.1⟩
        have made := kept.books.made cmd.call (List.mem_append_right _ inside)
        obtain ⟨request, made⟩ := Option.isSome_iff_exists.mp made
        rw [move.sent made]
        rfl
  | @inserts front rest eq eq' queued flushed =>
    rw [← queued] at handled
    refine ⟨?_, by rw [queued]; exact h.once, handled⟩
    have order := h.order
    rw [eq, List.map_cons] at order
    rw [queued, flushed, eq', List.append_assoc]
    exact order

/-! ## Leaving the line -/

/-- The command that a step handles is a shutdown. -/
def shutsDown (s : State) : Label → Bool
  | .receive _ _ _ =>
    match s.queue with
    | ⟨_, .shutdown⟩ :: _ => true
    | _ => false
  | _ => false

/-- Why a record leaves the line without being inserted. -/
inductive Discarded (config : LocalBufferConfig) (s s' : State) (p : PendingPush) :
    Label → Prop where
  /-- It was the first in the line and there was room for it, but its own insert failed; the
  rest of the line stays. -/
  | failed {outcome : Except String Nat} {rest e} :
      s.pendingPush = p :: rest → s.capacityFull config (recordCost p.record) = false →
      s.table.insertRecord p.record outcome = .error e → s'.pendingPush = rest →
      Discarded config s s' p (.flush outcome)
  /-- It had callers, and all of them are gone. -/
  | givenUp {label : Label} : p.replies ≠ [] → (∀ call ∈ p.replies, s.gone call = true) →
      Discarded config s s' p label
  | shutDown {label : Label} : s.shutsDown label = true → Discarded config s s' p label
  | restarted : Discarded config s s' p .restart

/-- An entry goes on waiting, is inserted or is discarded. -/
inductive Leaves (config : LocalBufferConfig) (s s' : State) (p : PendingPush) (label : Label) :
    Prop where
  | waits {p'} : p' ∈ s'.pendingPush → p'.key = p.key → Leaves config s s' p label
  /-- It was the first in the line, and has a row now. -/
  | inserted {rest n} :
      s.pendingPush = p :: rest → s'.pendingPush = rest →
      { p.record with localSeq := n } ∈ s'.table.rows →
      .inserted p.first { p.record with localSeq := n } true ∈ s'.log → Leaves config s s' p label
  | discarded : Discarded config s s' p label → Leaves config s s' p label

theorem Leaves.of_eq (same : s'.pendingPush = s.pendingPush) (inside : p ∈ s.pendingPush) :
    Leaves config s s' p label :=
  .waits (same ▸ inside) rfl

/-- How an entry leaves the line in a flush. -/
theorem flushes_leaves (flushes : Flushes config s progress outcome s')
    (inside : p ∈ s.pendingPush) :
    Leaves config s s' p (.flush outcome) := by
  cases flushes with
  | leaves => exact .of_eq rfl inside
  | @stores front rest n table eq _ stored =>
    have same := answered_replyAll ({ s with pendingPush := rest }.store config front.first true
      { front.record with localSeq := n } table) front.replies (.ok ())
    obtain ⟨answers, log, _⟩ := logged_replyAll ({ s with pendingPush := rest }.store config
      front.first true { front.record with localSeq := n } table) front.replies (.ok ())
    rw [eq] at inside
    rcases List.mem_cons.mp inside with rfl | later
    · refine .inserted (n := n) eq (by rw [same.worker]; rfl) ?_ ?_
      · obtain ⟨gap, _, rfl, row, _⟩ := Batches.insertRecord_ok stored
        show _ ∈ (State.replyAll ..).table.rows
        rw [same.table]
        exact (AutoTable.insert_eq_some row).1 ▸ List.mem_append_right _ List.mem_cons_self
      · dsimp only
        rw [log]
        exact List.mem_append_right _ List.mem_cons_self
    · refine .waits ?_ rfl
      rw [same.worker]
      exact later
  | @fails front rest e eq free failed =>
    have same := answered_replyAll { s with pendingPush := rest } front.replies (.error e)
    rw [eq] at inside
    rcases List.mem_cons.mp inside with rfl | later
    · exact .discarded (.failed eq free failed (by rw [same.worker]))
    · refine .waits ?_ rfl
      rw [same.worker]
      exact later

/-- A push removes the entries whose callers are gone. -/
theorem pushes_leaves (pushes : Pushes config serde s.pruneCancelledWaiters call batch s')
    (inside : p ∈ s.pendingPush) :
    (∃ p' ∈ s'.pendingPush, p'.key = p.key) ∨ ∀ call ∈ p.replies, s.gone call = true := by
  by_cases gone : ∀ call ∈ p.replies, s.gone call = true
  · exact .inr gone
  · have stays : p.key ∈ s.pruneCancelledWaiters.pendingPush.map PendingPush.key := by
      refine List.mem_map.mpr ⟨{ p with replies := p.replies.filter fun call => !s.gone call },
        List.mem_filter.mpr ⟨List.mem_map_of_mem inside, ?_⟩, rfl⟩
      simpa using gone
    have here : p.key ∈ s'.pendingPush.map PendingPush.key := by
      rcases pushes_line pushes with ⟨keys, _⟩ | ⟨record, keys, _⟩
      · exact keys ▸ stays
      · exact keys ▸ List.mem_append_left _ stays
    exact .inl (List.mem_map.mp here)

/-- A record leaves the line only by insertion, if its insert fails, if all its
callers are gone, or at the end of the session. -/
theorem Move.leaves (move : Move config serde s label s') (lined : s.Lined config)
    (inside : p ∈ s.pendingPush) : Leaves config s s' p label := by
  cases move with
  | send | giveUp | extract | timeout | hangUp => exact .of_eq rfl inside
  | refused => exact .of_eq (by rw [reply_toWorkerState]) inside
  | round => exact .of_eq (silent_round ..).pendingPush inside
  | flush _ flushes => exact flushes_leaves flushes inside
  | @receive cmd queue _ _ _ _ _ eq commands =>
    have pending : (s.handling queue).pendingPush = s.pendingPush := (handling_same s queue).2.2
    have gone : (s.handling queue).gone = s.gone := (silent_handling s queue).gone
    cases commands with
    | push pushes =>
      rcases pushes_leaves pushes (pending ▸ inside) with ⟨p', inside', eq⟩ | all
      · exact .waits inside' eq
      · exact .discarded (.givenUp (lined.short p inside).1 (gone ▸ all))
    | next takes =>
      refine .of_eq ?_ inside
      rw [reply_toWorkerState, ← pending]
      cases takes <;> rfl
    | delivers takes =>
      refine .of_eq ?_ inside
      rw [awaitConfirm]
      dsimp only
      rw [reply_toWorkerState, ← pending]
      cases takes <;> rfl
    | returns takes =>
      refine .of_eq ?_ inside
      rw [(requeued_handleRequeue ..).pendingPush, ← pending]
      cases takes <;> rfl
    | ack acks =>
      refine .of_eq ?_ inside
      rw [reply_toWorkerState, (acks_calls acks).2.2, pending]
    | requeue =>
      refine .of_eq ?_ inside
      rw [reply_toWorkerState, (requeued_handleRequeue ..).pendingPush, pending]
    | shutdown => exact .discarded (.shutDown (by simp [shutsDown, eq]))
  | restart => exact .discarded .restarted

/-! ## All runs -/

/-- What holds of the waiting records and their callers in every state. -/
structure Settled (config : LocalBufferConfig) (serde : Serde) (s : State) : Prop where
  /-- A push that the worker has received is held by one entry, or has been
  answered once. -/
  answered : ∀ call batch, s.sent call = some (.push batch) → s.gone call = false →
    call ∉ s.queue.map Cmd.call →
    (s.waiters.count call = 1 ∧ s.answers call = []) ∨
      (call ∉ s.waiters ∧ (s.answers call).length = 1)
  /-- The waiting messages are distinct, and none has a row. -/
  distinct : (s.pendingPush.map fun p => p.record.messageId).Nodup ∧
    ∀ p ∈ s.pendingPush, ∀ row ∈ s.table.rows, row.messageId ≠ p.record.messageId
  /-- The line and its entries are bounded. -/
  bounded : s.pendingPush.length ≤ config.memoryRecords ∧
    ∀ p ∈ s.pendingPush, p.replies.length ≤ maxWaitersPerRecord
  /-- Records are inserted in the order in which they started to wait. -/
  ordered : (queuedCalls s.log).Nodup ∧
    (flushedCalls s.log ++ s.pendingPush.map PendingPush.first).Sublist (queuedCalls s.log)
  /-- A record leaves the line by insertion or for one of the given reasons. -/
  leaves : ∀ label s', (bufferMachine config serde).step s label = some s' →
    ∀ p ∈ s.pendingPush, Leaves config s s' p label
  /-- Once the worker is gone, every caller that is there has its answer. -/
  closed : s.pc = .closed → ∀ call, (s.sent call).isSome → s.gone call = false →
    (s.answers call).length = 1

/-- In every run, whatever fails in it, the waiting records and their callers are settled. -/
theorem waiting_settled {table : Batches} {s₀ : State} {labels : List Label}
    (opened : openDb config table = .ok s₀)
    (run : (bufferMachine config serde).Run Machine.Always s₀ labels s) :
    s.Settled config serde := by
  obtain ⟨_, rfl⟩ := openDb_ok opened
  obtain ⟨kept, lined, ordered⟩ := run.invariant
    (P := fun s => s.Kept ∧ s.Lined config ∧ s.Ordered)
    ⟨.opened config table, ⟨List.nodup_nil, nofun, Nat.zero_le _, nofun⟩, .opened config table⟩
    fun t label u ⟨kept, lined, ordered⟩ _ taken =>
      ⟨kept.step (step_move taken), lined.step (step_move taken),
        ordered.step kept (step_move taken)⟩
  have books := kept.books
  refine ⟨fun call batch made here received => ?_, ⟨lined.ids, lined.rows⟩,
    ⟨lined.few, fun p inside => (lined.short p inside).2⟩, ⟨ordered.once, ordered.order⟩,
    fun label s' taken p inside => (step_move taken).leaves lined inside,
    fun closed call made here => ?_⟩
  · by_cases waits : call ∈ s.waiters
    · refine .inl ⟨?_, books.silent call (List.mem_append_left _ waits)⟩
      exact List.count_eq_one_of_mem (List.nodup_append.mp books.distinct).1 waits
    · refine .inr ⟨waits, (books.settled call (by rw [made]; rfl) here).resolve_left ?_⟩
      exact fun held => (List.mem_append.mp held).elim waits received
  · refine (books.settled call made here).resolve_left fun held => ?_
    rw [kept.closed closed call held] at here
    cases here

/-- A database that has room for one sample batch. -/
def tightConfig : LocalBufferConfig := { sampleConfig with diskMaxBytes := 1000 }

/-- Two callers wait with one message while the table is full; after the ack of
the record in the way the message is inserted, and the buffer is shut down. -/
def waitingLabels : List Label :=
  served 0 (.push (sampleBatch "a")) ++ served 1 (.push (sampleBatch "b")) ++
    served 2 (.push (sampleBatch "b")) ++ served 3 .next ++ [.extract 3] ++ served 4 (.ack 1) ++
    [.round 0 none none, .flush (.ok 0), .flush (.ok 0), .round 0 none none, .flush (.ok 0),
      .send 5 .shutdown, .receive 0 none (.ok 0)]

/-- Both callers have their answer. -/
theorem waiting_settled_sample :
    ∃ s, (bufferMachine tightConfig sampleSerde).Run Machine.Always (opened tightConfig .empty)
        waitingLabels s ∧
      (flushedCalls s.log = [1] ∧ s.pc = .closed ∧
        s.answers 1 = [.done (.ok ())] ∧ s.answers 2 = [.done (.ok ())]) ∧
      s.Settled tightConfig sampleSerde :=
  Machine.Run.find (by decide +kernel) fun s run _ => waiting_settled rfl run

end State

end ForgeLink.Buffer
