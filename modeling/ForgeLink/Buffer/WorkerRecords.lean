import ForgeLink.Buffer.WorkerMoves

/-!
# Where records come from and where they go

`Effect` says what a step does to the records: which rows and waiting records
there are after it and where they come from, what became of the rows that were
there, and what was added to the log.

A push is *accepted* when its record starts to wait or is inserted at once.  A
message that waits or has a row is not accepted again, so the push that was
accepted last is the one that the record is of.
-/

namespace ForgeLink.Buffer

open Lib

/-- The second record differs from the first in `sent_count` at most. -/
def MemRecord.Same (a b : MemRecord) : Prop := ∃ sentCount, b = { a with sentCount }

theorem MemRecord.Same.refl (a : MemRecord) : a.Same a := ⟨a.sentCount, rfl⟩

theorem MemRecord.Same.trans {a b c : MemRecord} (h : a.Same b) (h' : b.Same c) : a.Same c := by
  obtain ⟨n, rfl⟩ := h
  obtain ⟨n', rfl⟩ := h'
  exact ⟨n', rfl⟩

theorem MemRecord.Same.fields {a b : MemRecord} (h : a.Same b) :
    b.localSeq = a.localSeq ∧ b.messageId = a.messageId ∧ b.topic = a.topic ∧
      b.payload = a.payload ∧ b.createdAtNs = a.createdAtNs := by
  obtain ⟨n, rfl⟩ := h
  exact ⟨rfl, rfl, rfl, rfl, rfl⟩

/-- The record that an event removes. -/
def Event.removedRow : Event → Option MemRecord
  | .acked row => some row
  | .expired row => some row
  | _ => none

/-- The sequence whose row an event removes. -/
def Event.removed (e : Event) : Option Int := e.removedRow.map MemRecord.localSeq

/-- The call whose push an event accepts, for a given message. -/
def Event.accepts (messageId : String) : Event → Option CallId
  | .queued call record => if record.messageId = messageId then some call else none
  | .inserted call row false => if row.messageId = messageId then some call else none
  | _ => none

/-- The push of a message that was accepted last. -/
def lastAccepted (messageId : String) (log : List Event) : Option CallId :=
  log.findSome? (Event.accepts messageId)

namespace State

variable {config : LocalBufferConfig} {serde : Serde} {s s' s'' : State} {call : CallId}
  {localSeq : Int}
variable {new : List Event} {outcome : Except String Nat}

/-! ## Effects -/

/-- The push that a step handles. -/
abbrev Asked := Option (CallId × ObservationBatch)

/-- Where a row comes from. -/
inductive RowFrom (serde : Serde) (asked : Asked) (s : State) (new : List Event)
    (row : MemRecord) : Prop where
  | kept {row₀} :
      row₀ ∈ s.table.rows → row₀.Same row → lastAccepted row.messageId new = none →
      RowFrom serde asked s new row
  | flushed {p n} :
      p ∈ s.pendingPush → row = { p.record with localSeq := n } →
      .inserted p.first row true ∈ new → lastAccepted row.messageId new = none →
      RowFrom serde asked s new row
  | pushed {call : CallId} {batch record n} :
      asked = some (call, batch) → IsRecord serde batch record →
      row = { record with localSeq := n } → .inserted call row false ∈ new →
      lastAccepted row.messageId new = some call → RowFrom serde asked s new row

/-- An entry goes on waiting, and the call that is asked may have joined it. -/
structure Continues (asked : Asked) (p₀ p : PendingPush) : Prop where
  record : p.record = p₀.record
  first : p.first = p₀.first
  replies : ∀ call ∈ p.replies, call ∈ p₀.replies ∨
    ∃ batch, asked = some (call, batch) ∧ batch.messageId = p₀.record.messageId

theorem Continues.refl (asked : Asked) (p : PendingPush) : Continues asked p p :=
  ⟨rfl, rfl, fun _ => .inl⟩

/-- Where a waiting record comes from. -/
inductive PendingFrom (serde : Serde) (asked : Asked) (s : State) (new : List Event)
    (p : PendingPush) : Prop where
  | kept {p₀} :
      p₀ ∈ s.pendingPush → Continues asked p₀ p → lastAccepted p.record.messageId new = none →
      PendingFrom serde asked s new p
  | pushed {batch} :
      asked = some (p.first, batch) → IsRecord serde batch p.record → p.replies = [p.first] →
      lastAccepted p.record.messageId new = some p.first → PendingFrom serde asked s new p

/-- Where the record of an insert comes from. -/
inductive InsertedFrom (serde : Serde) (asked : Asked) (s : State) (call : CallId)
    (row : MemRecord) : Prop where
  | flushed {p n} :
      p ∈ s.pendingPush → call = p.first → row = { p.record with localSeq := n } →
      InsertedFrom serde asked s call row
  | pushed {batch record n} :
      asked = some (call, batch) → IsRecord serde batch record →
      row = { record with localSeq := n } → InsertedFrom serde asked s call row

/-- The worker has the record in memory. -/
def Holds (s : State) (r : MemRecord) : Prop := r ∈ s.mem ∨ r ∈ s.inflight

/-- What happens to the records; `new` is what is added to the log. -/
structure Effect (serde : Serde) (asked : Asked) (s : State) (new : List Event) (s' : State) :
    Prop where
  log : s'.log = new ++ s.log
  rows : ∀ row ∈ s'.table.rows, RowFrom serde asked s new row
  kept : ∀ row ∈ s.table.rows,
    (∃ row' ∈ s'.table.rows, row.Same row') ∨ ∃ e ∈ new, e.removed = some row.localSeq
  pending : ∀ p ∈ s'.pendingPush, PendingFrom serde asked s new p
  inserted : ∀ call row waited, .inserted call row waited ∈ new →
    InsertedFrom serde asked s call row
  removed : ∀ e ∈ new, ∀ r ∈ e.removedRow, r ∈ s.table.rows ∨ s.Holds r

/-- Nothing happens to the records. -/
theorem Effect.idle {asked : Asked} (log : s'.log = s.log) (table : s'.table = s.table)
    (pending : ∀ p ∈ s'.pendingPush, ∃ p₀ ∈ s.pendingPush, Continues asked p₀ p) :
      Effect serde asked s [] s' where
  log := log
  rows row inside := .kept (table ▸ inside) (.refl row) rfl
  kept row inside := .inl ⟨row, table ▸ inside, .refl row⟩
  pending p inside := by
    obtain ⟨p₀, inside₀, continues⟩ := pending p inside
    exact .kept inside₀ continues rfl
  inserted := nofun
  removed := nofun

/-- What is the same for the records may be exchanged. -/
theorem Effect.congr {asked : Asked} {s₀ s₀' : State} (h : Effect serde asked s new s')
    (log : s₀.log = s.log) (table : s₀.table = s.table) (pending : s₀.pendingPush = s.pendingPush)
    (log' : s₀'.log = s'.log) (table' : s₀'.table = s'.table)
    (pending' : s₀'.pendingPush = s'.pendingPush) (held : ∀ r, s.Holds r → s₀.Holds r) :
    Effect serde asked s₀ new s₀' where
  log := by rw [log', log, h.log]
  rows row inside := by
    cases h.rows row (table' ▸ inside) with
    | kept inside₀ same last => exact .kept (table ▸ inside₀) same last
    | flushed inside₀ eq logged last => exact .flushed (pending ▸ inside₀) eq logged last
    | pushed asked of eq logged last => exact .pushed asked of eq logged last
  kept row inside := by
    rw [table']
    exact h.kept row (table ▸ inside)
  pending p inside := by
    cases h.pending p (pending' ▸ inside) with
    | kept inside₀ continues last => exact .kept (pending ▸ inside₀) continues last
    | pushed asked of alone last => exact .pushed asked of alone last
  inserted call row waited logged := by
    cases h.inserted call row waited logged with
    | flushed inside₀ first eq => exact .flushed (pending ▸ inside₀) first eq
    | pushed asked of eq => exact .pushed asked of eq
  removed e logged r gone := by
    rw [table]
    exact (h.removed e logged r gone).imp_right (held r)

/-! ## Replies -/

/-- An event is an answer. -/
def Event.isAnswer : Event → Bool
  | .answered _ _ => true
  | _ => false

theorem of_isAnswer {e : Event} (h : Event.isAnswer e = true) :
    (∀ messageId, e.accepts messageId = none) ∧ e.removedRow = none := by
  cases e <;> first | exact ⟨fun _ => rfl, rfl⟩ | cases h

/-- What replies add to the log. -/
def Logged (s s' : State) : Prop :=
  ∃ answers, s'.log = answers ++ s.log ∧ ∀ e ∈ answers, Event.isAnswer e = true

theorem Logged.refl (s : State) : Logged s s := ⟨[], rfl, by simp⟩

theorem Logged.trans (h : Logged s s') (h' : Logged s' s'') : Logged s s'' := by
  obtain ⟨answers, log, all⟩ := h
  obtain ⟨answers', log', all'⟩ := h'
  refine ⟨answers' ++ answers, by rw [log', log, List.append_assoc], fun e inside => ?_⟩
  exact (List.mem_append.mp inside).elim (all' e) (all e)

theorem logged_reply (s : State) (call : CallId) (answer : Answer) :
    Logged s (s.reply call answer) := by
  rw [reply]
  split
  · exact .refl s
  · exact ⟨[.answered call answer], rfl, by simp [Event.isAnswer]⟩

theorem logged_replyAll (s : State) (calls : List CallId)
    (result : Except LocalBufferError Unit) : Logged s (s.replyAll calls result) := by
  induction calls generalizing s with
  | nil => exact .refl s
  | cons call calls ih => exact (logged_reply s call _).trans (ih _)

theorem logged_rejectCmd (s : State) (cmd : Cmd) : Logged s (s.rejectCmd cmd) := by
  rw [rejectCmd]
  split <;> exact logged_reply ..

theorem logged_foldl {α : Type} {f : State → α → State} (each : ∀ s a, Logged s (f s a))
    (s : State) (items : List α) : Logged s (items.foldl f s) := by
  induction items generalizing s with
  | nil => exact .refl s
  | cons a items ih => exact (each s a).trans (ih _)

theorem logged_shutdown (s : State) (call : CallId) : Logged s.shut (s.shutdown call) :=
  ((logged_foldl (fun s p => logged_replyAll s p.replies _) s.shut s.pendingPush).trans
    (logged_foldl logged_rejectCmd _ s.queue)).trans (logged_reply ..)

/-- Replies come after the effect. -/
theorem Effect.replied {asked : Asked} (h : Effect serde asked s new s') (same : Answered s' s'')
    (logged : Logged s' s'') : ∃ new', Effect serde asked s new' s'' := by
  obtain ⟨answers, log, all⟩ := logged
  have silent : ∀ messageId, lastAccepted messageId (answers ++ new) =
      lastAccepted messageId new := by
    intro messageId
    have none : answers.findSome? (Event.accepts messageId) = none :=
      List.findSome?_eq_none_iff.mpr fun e inside => (of_isAnswer (all e inside)).1 messageId
    rw [lastAccepted, List.findSome?_append, none]
    rfl
  refine ⟨answers ++ new, by rw [log, h.log, List.append_assoc],
    ?_, ?_, ?_, ?_, ?_⟩
  · intro row inside
    rw [same.table] at inside
    cases h.rows row inside with
    | kept inside₀ same last => exact .kept inside₀ same (by rw [silent, last])
    | flushed inside₀ eq logged last =>
      exact .flushed inside₀ eq (List.mem_append_right _ logged) (by rw [silent, last])
    | pushed asked of eq logged last =>
      exact .pushed asked of eq (List.mem_append_right _ logged) (by rw [silent, last])
  · intro row inside
    rw [same.table]
    rcases h.kept row inside with stays | ⟨e, logged, removed⟩
    · exact .inl stays
    · exact .inr ⟨e, List.mem_append_right _ logged, removed⟩
  · intro p inside
    rw [same.worker] at inside
    cases h.pending p inside with
    | kept inside₀ continues last => exact .kept inside₀ continues (by rw [silent, last])
    | pushed asked of alone last => exact .pushed asked of alone (by rw [silent, last])
  · intro call row waited logged
    rcases List.mem_append.mp logged with answer | before
    · cases all _ answer
    · exact h.inserted call row waited before
  · intro e logged r gone
    rcases List.mem_append.mp logged with answer | before
    · rw [(of_isAnswer (all e answer)).2] at gone
      cases gone
    · exact h.removed e before r gone

/-! ## The parts of a step -/

theorem same_touch (sentCount : UInt64) (row : MemRecord) :
    row.Same (((sentCountTo sentCount).only localSeq).apply row) := by
  simp only [AutoTable.Touch.only]
  split
  · exact ⟨sentCount, rfl⟩
  · exact .refl row

theorem effect_takes {asked : Asked} {result : Except LocalBufferError (Option StoredBatch)}
    (takes : Takes serde s s' result) : Effect serde asked s [] s' := by
  cases takes with
  | none | fails => exact .idle rfl rfl fun p inside => ⟨p, inside, .refl _ p⟩
  | takes =>
    refine ⟨rfl, fun row inside => ?_, fun row inside => .inl ?_,
      fun p inside => ?_, nofun, nofun⟩
    · obtain ⟨row₀, inside₀, rfl⟩ := List.mem_map.mp inside
      exact .kept inside₀ (same_touch _ row₀) rfl
    · exact ⟨_, List.mem_map_of_mem inside, same_touch _ row⟩
    · exact .kept inside (.refl _ p) rfl

/-- Rows are removed, with an event for each. -/
theorem Effect.removes {asked : Asked} {removed : List Event} {keep : MemRecord → Bool}
    (log : s'.log = removed ++ s.log) (table : s'.table = s.table.filter keep)
    (pending : s'.pendingPush = s.pendingPush)
    (gone : ∀ row ∈ s.table.rows, keep row = false → ∃ e ∈ removed,
      e.removed = some row.localSeq)
    (only : ∀ messageId, lastAccepted messageId removed = none)
    (rows : ∀ e ∈ removed, ∃ r ∈ e.removedRow, r ∈ s.table.rows ∨ s.Holds r) :
    Effect serde asked s removed s' where
  log := log
  rows row inside := by
    rw [table] at inside
    exact .kept (List.mem_of_mem_filter inside) (.refl row) (only _)
  kept row inside := by
    rw [table]
    cases kept : keep row with
    | true => exact .inl ⟨row, List.mem_filter.mpr ⟨inside, kept⟩, .refl row⟩
    | false => exact .inr (gone row inside kept)
  pending p inside := .kept (pending ▸ inside) (.refl _ p) (only _)
  inserted call row waited logged := by
    obtain ⟨r, wrong, _⟩ := rows _ logged
    cases wrong
  removed e logged r gone := by
    obtain ⟨r', gone', there⟩ := rows e logged
    rwa [Option.mem_unique gone gone']

/-- What an acknowledgement does to the records. -/
theorem effect_acks {asked : Asked} {result : Except LocalBufferError Unit}
    (acks : Acks s localSeq s' result) : ∃ new, Effect serde asked s new s' := by
  have acked : ∀ {row : MemRecord}, row.localSeq = localSeq → ∀ row' ∈ s.table.rows,
      decide (row'.localSeq ≠ localSeq) = false → ∃ e ∈ [Event.acked row],
        e.removed = some row'.localSeq := by
    intro row same row' _ dropped
    have same' : row'.localSeq = localSeq := by simpa using dropped
    refine ⟨_, List.mem_singleton_self _, ?_⟩
    rw [same', ← same]
    rfl
  have there : ∀ {row : MemRecord}, row ∈ s.table.rows → ∀ e ∈ [Event.acked row],
      ∃ r ∈ e.removedRow, r ∈ s.table.rows ∨ s.Holds r := by
    intro row inside e logged
    rw [List.mem_singleton.mp logged]
    exact ⟨row, rfl, .inl inside⟩
  cases acks with
  | fails => exact ⟨[], .idle rfl rfl fun p inside => ⟨p, inside, .refl _ p⟩⟩
  | absent none =>
    refine ⟨[], .removes rfl rfl rfl (fun row inside dropped => ?_) (fun _ => rfl) nofun⟩
    exact absurd (of_decide_eq_false dropped) (by simpa using none row inside)
  | removes inside same | strays inside same =>
    exact ⟨_, .removes rfl rfl rfl (acked same) (fun _ => rfl) (there inside)⟩

/-- What the cleanup does to the records. -/
theorem effect_cleanupExpired {asked : Asked} (s : State) (cutoffNs : Int) (fault : Fault) :
    ∃ new, Effect serde asked s new (s.cleanupExpired cutoffNs fault).1 := by
  have idle : Effect serde asked s [] s :=
    .idle rfl rfl fun p inside => ⟨p, inside, .refl _ p⟩
  unfold cleanupExpired
  dsimp only
  split
  · exact ⟨[], idle⟩
  · split
    · exact ⟨[], idle⟩
    · refine ⟨_, .removes rfl rfl rfl (fun row inside dropped => ?_) (fun messageId =>
        List.findSome?_eq_none_iff.mpr fun e inside => ?_) fun e inside => ?_⟩
      · have expired := of_decide_eq_false dropped
        rw [not_not, List.mem_map] at expired
        obtain ⟨row', expired, same⟩ := expired
        refine ⟨.expired row', List.mem_map_of_mem expired, ?_⟩
        rw [← same]
        rfl
      · obtain ⟨row, _, rfl⟩ := List.mem_map.mp inside
        rfl
      · obtain ⟨row, expired, rfl⟩ := List.mem_map.mp inside
        exact ⟨row, rfl, .inr (.inl (List.mem_of_mem_filter expired))⟩

/-- A record enters the table. -/
theorem Effect.stores {asked : Asked} {record : MemRecord} {n : Int} {table : Batches}
    {waited : Bool} (inserted : s.table.insertRecord record outcome = .ok (n, table))
    (sub : ∀ p ∈ s'.pendingPush, p ∈ s.pendingPush) (table' : s'.table = table)
    (log : s'.log = .inserted call { record with localSeq := n } waited :: s.log)
    (fresh : RowFrom serde asked s [.inserted call { record with localSeq := n } waited] { record
      with localSeq := n })
    (rest : ∀ row ∈ s.table.rows, Event.accepts row.messageId (.inserted call { record with
      localSeq := n } waited) = none)
    (others : ∀ p ∈ s'.pendingPush, Event.accepts p.record.messageId (.inserted call { record with
      localSeq := n } waited) = none)
    (from_ : InsertedFrom serde asked s call { record with localSeq := n }) :
    Effect serde asked s [.inserted call { record with localSeq := n } waited] s' := by
  obtain ⟨_, _, rfl, inserted, _⟩ := Batches.insertRecord_ok inserted
  obtain ⟨rows, _⟩ := AutoTable.insert_eq_some inserted
  refine ⟨log, fun row inside => ?_, fun row inside => .inl ⟨row, ?_, .refl row⟩,
    fun p inside => .kept (sub p inside) (.refl _ p) ?_, fun call' row waited' logged => ?_,
    fun e logged r gone => ?_⟩
  · rw [table', rows] at inside
    rcases List.mem_append.mp inside with before | new
    · exact .kept before (.refl row)
        (by rw [lastAccepted, List.findSome?_cons, rest row before]; rfl)
    · rw [List.mem_singleton.mp new]
      exact fresh
  · rw [table', rows]
    exact List.mem_append_left _ inside
  · rw [lastAccepted, List.findSome?_cons, others p inside]
    rfl
  · cases List.mem_singleton.mp logged
    exact from_
  · rw [List.mem_singleton.mp logged] at gone
    cases gone

/-- What a flush does to the records. -/
theorem effect_flushes {asked : Asked} {progress : Bool}
    (flushes : Flushes config s progress outcome s') : ∃ new, Effect serde asked s new s' := by
  cases flushes with
  | leaves => exact ⟨[], .idle rfl rfl fun p inside => ⟨p, inside, .refl _ p⟩⟩
  | @stores front rest n table eq _ inserted =>
    have stored : Effect serde asked s _ ({ s with pendingPush := rest }.store config front.first
        true { front.record with localSeq := n } table) :=
      .stores inserted (fun p inside => eq ▸ List.mem_cons_of_mem _ inside) rfl rfl
        (.flushed (eq ▸ List.mem_cons_self) rfl (List.mem_singleton_self _) rfl)
        (fun _ _ => rfl) (fun _ _ => rfl) (.flushed (eq ▸ List.mem_cons_self) rfl rfl)
    obtain ⟨new, effect⟩ := stored.replied (answered_replyAll _ front.replies (.ok ()))
      (logged_replyAll ..)
    exact ⟨new, effect.congr rfl rfl rfl rfl rfl rfl fun _ => id⟩
  | @fails front rest e eq _ =>
    have dropped : Effect serde asked s [] { s with pendingPush := rest } :=
      .idle rfl rfl fun p inside => ⟨p, eq ▸ List.mem_cons_of_mem _ inside, .refl _ p⟩
    exact dropped.replied (answered_replyAll ..) (logged_replyAll ..)

/-- A waiter joins an entry, which goes on waiting. -/
theorem mem_addWaiter {batch : ObservationBatch} {pending : List PendingPush} {p : PendingPush}
    (h : p ∈ addWaiter batch.messageId call pending) :
    ∃ p₀ ∈ pending, Continues (some (call, batch)) p₀ p := by
  induction pending with
  | nil => cases h
  | cons p₀ pending ih =>
    rw [addWaiter] at h
    split at h
    next same =>
      rcases List.mem_cons.mp h with rfl | inside
      · refine ⟨p₀, List.mem_cons_self, rfl, rfl, fun call' waits => ?_⟩
        rcases List.mem_append.mp waits with before | new
        · exact .inl before
        · rw [List.mem_singleton.mp new]
          exact .inr ⟨batch, rfl, same.symm⟩
      · exact ⟨p, List.mem_cons_of_mem _ inside, .refl _ p⟩
    · rcases List.mem_cons.mp h with rfl | inside
      · exact ⟨p, List.mem_cons_self, .refl _ p⟩
      · obtain ⟨p₁, inside₁, continues⟩ := ih inside
        exact ⟨p₁, List.mem_cons_of_mem _ inside₁, continues⟩

/-- What a push does to the records. -/
theorem effect_pushes {batch : ObservationBatch} (pushes : Pushes config serde s call batch s') :
    ∃ new, Effect serde (some (call, batch)) s new s' := by
  cases pushes with
  | known =>
    have idle : Effect serde (some (call, batch)) s [] s :=
      .idle rfl rfl fun p inside => ⟨p, inside, .refl _ p⟩
    exact idle.replied (answered_reply ..) (logged_reply ..)
  | @refused metrics e =>
    have idle : Effect serde (some (call, batch)) s [] { s with metrics } :=
      .idle rfl rfl fun p inside => ⟨p, inside, .refl _ p⟩
    exact idle.replied (answered_reply ..) (logged_reply ..)
  | joins => exact ⟨[], .idle rfl rfl fun p inside => mem_addWaiter inside⟩
  | @waits record of unknown _ =>
    have same := of.messageId
    refine ⟨[.queued call record], rfl, fun row inside => .kept inside (.refl row) ?_,
      fun row inside => .inl ⟨row, inside, .refl row⟩, fun p inside => ?_, ?_, ?_⟩
    · have other : batch.messageId ≠ row.messageId := fun eq =>
        unknown.1 (.inr ⟨row, inside, eq.symm⟩)
      simp [lastAccepted, Event.accepts, same, other]
    · rcases List.mem_append.mp inside with before | new
      · have other : batch.messageId ≠ p.record.messageId := fun eq =>
          unknown.2 p before eq.symm
        exact .kept before (.refl _ p) (by simp [lastAccepted, Event.accepts, same, other])
      · rw [List.mem_singleton.mp new]
        exact .pushed rfl of rfl (by simp [lastAccepted, Event.accepts])
    · intro call' row waited logged
      cases List.mem_singleton.mp logged
    · intro e logged r gone
      rw [List.mem_singleton.mp logged] at gone
      cases gone
  | @stores record outcome n table of unknown _ inserted =>
    have same := of.messageId
    have stored : Effect serde (some (call, batch)) s _ (s.store config call false
        { record with localSeq := n } table) :=
      .stores inserted (fun p inside => inside) rfl rfl
        (.pushed rfl of rfl (List.mem_singleton_self _)
          (by simp [lastAccepted, Event.accepts]))
        (fun row inside => by
          have other : batch.messageId ≠ row.messageId := fun eq =>
            unknown.1 (.inr ⟨row, inside, eq.symm⟩)
          simp [Event.accepts, same, other])
        (fun p inside => by
          have other : batch.messageId ≠ p.record.messageId := fun eq =>
            unknown.2 p inside eq.symm
          simp [Event.accepts, same, other])
        (.pushed rfl of rfl)
    exact stored.replied (answered_reply ..) (logged_reply ..)

/-! ## All steps -/

/-- An entry that is left after the cancelled callers are removed. -/
theorem mem_pruneCancelledWaiters {p : PendingPush}
    (h : p ∈ s.pruneCancelledWaiters.pendingPush) :
    ∃ p₀ ∈ s.pendingPush, p.record = p₀.record ∧ p.first = p₀.first ∧
      ∀ call ∈ p.replies, call ∈ p₀.replies := by
  obtain ⟨p₀, inside, rfl⟩ := List.mem_map.mp (List.mem_of_mem_filter h)
  exact ⟨p₀, inside, rfl, rfl, fun call waits => List.mem_of_mem_filter waits⟩

/-- The push of a command. -/
def Cmd.asked (cmd : Cmd) : Asked :=
  match cmd.request with
  | .push batch => some (cmd.call, batch)
  | _ => none

/-- Cancelled callers are removed before the effect. -/
theorem Effect.pruned {asked : Asked} (h : Effect serde asked s.pruneCancelledWaiters new s') :
    Effect serde asked s new s' where
  log := h.log
  rows row inside := by
    cases h.rows row inside with
    | kept inside₀ same last => exact .kept inside₀ same last
    | flushed inside₀ eq logged last =>
      obtain ⟨p₀, inside₁, record, first, _⟩ := mem_pruneCancelledWaiters inside₀
      exact .flushed inside₁ (record ▸ eq) (first ▸ logged) last
    | pushed asked of eq logged last => exact .pushed asked of eq logged last
  kept := h.kept
  pending p inside := by
    cases h.pending p inside with
    | kept inside₀ continues last =>
      obtain ⟨p₀, inside₁, record, first, replies⟩ := mem_pruneCancelledWaiters inside₀
      refine .kept inside₁ ⟨continues.record.trans record, continues.first.trans first, ?_⟩ last
      rw [← record]
      exact fun call waits => (continues.replies call waits).imp_left (replies call)
    | pushed asked of alone last => exact .pushed asked of alone last
  inserted call row waited logged := by
    cases h.inserted call row waited logged with
    | flushed inside₀ eq eq' =>
      obtain ⟨p₀, inside₁, record, first, _⟩ := mem_pruneCancelledWaiters inside₀
      exact .flushed inside₁ (eq.trans first) (record ▸ eq')
    | pushed asked of eq => exact .pushed asked of eq
  removed := h.removed

/-- What a command does to the records. -/
theorem effect_commands {cmd : Cmd} (commands : Commands config serde s cmd s') :
    ∃ new, Effect serde (Cmd.asked cmd) s new s' := by
  cases commands with
  | push pushes =>
    obtain ⟨new, effect⟩ := effect_pushes pushes
    exact ⟨new, effect.pruned⟩
  | next takes => exact (effect_takes takes).replied (answered_reply ..) (logged_reply ..)
  | delivers takes =>
    obtain ⟨new, effect⟩ := (effect_takes takes).replied (answered_reply _ ‹_› (.taken ‹_›))
      (logged_reply ..)
    exact ⟨new, effect.congr rfl rfl rfl rfl rfl rfl fun _ => id⟩
  | @returns call s₁ result localSeq takes =>
    have same := requeued_handleRequeue s₁ localSeq
    exact ⟨[], (effect_takes takes).congr rfl rfl rfl same.log same.table same.pendingPush
      fun _ => id⟩
  | ack acks =>
    obtain ⟨new, effect⟩ := effect_acks acks
    exact effect.replied (answered_reply ..) (logged_reply ..)
  | @requeue call localSeq =>
    have same := requeued_handleRequeue s localSeq
    have idle : Effect serde (Cmd.asked ⟨call, .requeue localSeq⟩) s []
        (s.handleRequeue localSeq) :=
      .idle same.log same.table fun p inside => ⟨p, same.pendingPush ▸ inside, .refl _ p⟩
    exact idle.replied (answered_reply ..) (logged_reply ..)
  | @shutdown call =>
    have idle : Effect serde (Cmd.asked ⟨call, .shutdown⟩) s [] s.shut :=
      .idle rfl rfl fun p inside => by cases inside
    exact idle.replied (answered_shutdown s call) (logged_shutdown s call)

/-- What is put back was there before. -/
theorem holds_handleRequeue {r : MemRecord} (h : (s.handleRequeue localSeq).Holds r) :
    s.Holds r := by
  rw [handleRequeue] at h
  split at h
  next record found =>
    rcases h with waits | out
    · rcases (List.mem_orderedInsert _).mp waits with rfl | waits
      · exact .inr (List.mem_of_find?_eq_some found)
      · exact .inl waits
    · exact .inr (List.mem_of_mem_filter out)
  · exact h

theorem holds_checkPendingConfirm {r : MemRecord} (h : s.checkPendingConfirm.1.Holds r) :
    s.Holds r :=
  checkPendingConfirm_induct (P := fun t => ∀ r, t.Holds r → s.Holds r) (fun _ => id)
    (fun _ _ ih r h => ih r (holds_handleRequeue h)) r h

theorem handling_same (s : State) (queue : List Cmd) :
    (s.handling queue).log = s.log ∧ (s.handling queue).table = s.table ∧
      (s.handling queue).pendingPush = s.pendingPush := by
  have same := requeued_checkPendingConfirm { s with queue, pc := .top }
  exact ⟨same.log, same.table, same.pendingPush⟩

theorem effect_round (s : State) (cutoffNs : Int) (cleanup load : Fault) :
    ∃ new, Effect serde none s new (s.round config cutoffNs cleanup load) := by
  have same := requeued_checkPendingConfirm s
  obtain ⟨new, effect⟩ : ∃ new, Effect serde none _ new _ :=
    effect_cleanupExpired s.checkPendingConfirm.1 cutoffNs cleanup
  obtain ⟨silent, table, log⟩ := loadMore_same config
    (s.checkPendingConfirm.1.cleanupExpired cutoffNs cleanup).1 load
  exact ⟨new, effect.congr same.log.symm same.table.symm same.pendingPush.symm log table
    silent.pendingPush fun _ => holds_checkPendingConfirm⟩

/-- The effect of a step; the push that it handles was in the channel. -/
theorem Move.effect {label : Label} (move : Move config serde s label s') :
    ∃ asked new, Effect serde asked s new s' ∧
      ∀ call batch, asked = some (call, batch) → ⟨call, .push batch⟩ ∈ s.queue := by
  have idle : ∀ {s'}, s'.log = s.log → s'.table = s.table → s'.pendingPush = s.pendingPush →
      ∃ asked new, Effect serde asked s new s' ∧
        ∀ call batch, asked = some (call, batch) → ⟨call, .push batch⟩ ∈ s.queue := by
    intro s' log table pending
    exact ⟨none, [], .idle log table fun p inside => ⟨p, pending ▸ inside, .refl _ p⟩, nofun⟩
  have silent : ∀ {s'}, (∃ new, Effect serde none s new s') →
      ∃ asked new, Effect serde asked s new s' ∧
        ∀ call batch, asked = some (call, batch) → ⟨call, .push batch⟩ ∈ s.queue := by
    rintro s' ⟨new, effect⟩
    exact ⟨none, new, effect, nofun⟩
  cases move with
  | send | giveUp | extract | timeout | hangUp => exact idle rfl rfl rfl
  | @refused call request =>
    have idle : Effect serde none s []
        { s with sent := Function.update s.sent call (some request) } :=
      .idle rfl rfl fun p inside => ⟨p, inside, .refl _ p⟩
    exact silent (idle.replied (answered_reply ..) (logged_reply ..))
  | round => exact silent (effect_round ..)
  | flush _ flushes => exact silent (effect_flushes flushes)
  | @receive cmd queue nowNs fault outcome s' _ eq commands =>
    obtain ⟨log, table, pending⟩ := handling_same s queue
    obtain ⟨new, effect⟩ := effect_commands commands
    refine ⟨_, new, effect.congr log.symm table.symm pending.symm rfl rfl rfl fun _ held =>
      holds_checkPendingConfirm (s := { s with queue, pc := .top }) held, ?_⟩
    intro call batch asked
    obtain ⟨call', request⟩ := cmd
    cases request <;> cases asked
    exact eq ▸ List.mem_cons_self
  | restart =>
    exact ⟨none, [], .idle rfl rfl fun p inside => (by cases inside), nofun⟩

/-! ## The channel -/

theorem Flushes.queue {progress : Bool} (flushes : Flushes config s progress outcome s') :
    s'.queue = s.queue := by
  cases flushes with
  | leaves => rfl
  | stores | fails => exact (answered_replyAll ..).queue

/-- What is in the channel was sent. -/
theorem Move.queue {label : Label} (move : Move config serde s label s') :
    ∀ cmd ∈ s'.queue, cmd ∈ s.queue ∨ label = .send cmd.call cmd.request := by
  cases move with
  | send =>
    intro cmd inside
    rcases List.mem_append.mp inside with before | new
    · exact .inl before
    · rw [List.mem_singleton.mp new]
      exact .inr rfl
  | refused => exact fun cmd inside => .inl (by simpa using inside)
  | giveUp | extract | timeout | hangUp => exact fun cmd inside => .inl inside
  | round => exact fun cmd inside => .inl ((silent_round ..).queue ▸ inside)
  | flush _ flushes => exact fun cmd inside => .inl (flushes.queue ▸ inside)
  | @receive cmd₀ queue _ _ _ _ _ eq commands =>
    intro cmd inside
    rw [eq]
    rcases commands.ends with ⟨_, same⟩ | ⟨_, none, _⟩
    · rw [same, (silent_handling s queue).queue] at inside
      exact .inl (List.mem_cons_of_mem _ inside)
    · rw [none] at inside
      cases inside
  | restart => exact fun cmd inside => by cases inside

end State

end ForgeLink.Buffer
