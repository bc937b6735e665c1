import ForgeLink.Buffer.WorkerCalls

/-!
# What is handed out was pushed

A record keeps its topic and its payload on its way through the buffer: it waits
for room, becomes a row, is loaded into the window, is taken out and put back,
and is found again by the next session.  So what holds of the topic and the
payload of every record when it is pushed holds of every record of the buffer
(`Stocked`), and of every batch that a `next` hands out (`HandsOut`).
-/

namespace ForgeLink.Buffer

open Lib

namespace State

variable {config : LocalBufferConfig} {serde : Serde} {s s' : State} {call : CallId}
  {P : String → Bytes → Prop}
variable {s₀ : State} {table : Batches} {label : Label}

/-! ## Records in memory -/

/-- What the worker has in memory was there before, up to `sent_count`, or is a row. -/
def Finds (s s' : State) : Prop :=
  ∀ r, s'.Holds r → (∃ r₀, s.Holds r₀ ∧ r₀.Same r) ∨ r ∈ s'.table.rows

theorem Finds.of_holds (h : ∀ r, s'.Holds r → s.Holds r) : Finds s s' :=
  fun r held => .inl ⟨r, h r held, .refl r⟩

/-- What is the same for the records in memory may be exchanged. -/
theorem Finds.congr {s₁ : State} (h : Finds s₀ s₁) (holds : ∀ r, s₀.Holds r → s.Holds r)
    (holds' : ∀ r, s'.Holds r → s₁.Holds r) (table : s'.table = s₁.table) : Finds s s' := by
  intro r held
  rw [table]
  refine (h r (holds' r held)).imp_left ?_
  rintro ⟨r₀, held₀, eq⟩
  exact ⟨r₀, holds r₀ held₀, eq⟩

/-- Replies come last. -/
theorem Finds.answered {s₁ : State} (h : Finds s s₁) (same : Answered s₁ s') : Finds s s' := by
  refine h.congr (fun _ => id) (fun r held => ?_) same.table
  rwa [Holds, same.worker] at held

theorem finds_cleanupExpired (s : State) (cutoffNs : Int) (fault : Fault) :
    ∀ r, (s.cleanupExpired cutoffNs fault).1.Holds r → s.Holds r := by
  intro r held
  unfold State.cleanupExpired at held
  dsimp only at held
  split at held
  · exact held
  · cases fault with
    | some _ => exact held
    | none => exact held.imp_left List.mem_of_mem_filter

theorem finds_loadMore (s : State) (fault : Fault) : Finds s (s.loadMore config fault) := by
  unfold State.loadMore
  split
  · exact .of_holds fun _ => id
  · cases fault with
    | some _ => exact .of_holds fun _ => id
    | none =>
      rintro r (waits | out)
      · rcases List.mem_append.mp waits with before | loaded
        · exact .inl ⟨r, .inl before, .refl r⟩
        · exact .inr (AutoTable.mem_page loaded).1
      · exact .inl ⟨r, .inr out, .refl r⟩

theorem finds_store {record : MemRecord} {outcome : Except String Nat} {n : Int}
    (config : LocalBufferConfig) (call : CallId) (waited : Bool)
    (inserted : s.table.insertRecord record outcome = .ok (n, table)) :
    Finds s (s.store config call waited { record with localSeq := n } table) := by
  obtain ⟨gap, _, rfl, inserts, _⟩ := Batches.insertRecord_ok inserted
  have rows := (AutoTable.insert_eq_some inserts).1
  rintro r (waits | out)
  · unfold State.store at waits
    dsimp only at waits
    split at waits
    · rcases List.mem_append.mp waits with before | last
      · exact .inl ⟨r, .inl before, .refl r⟩
      · right
        change r ∈ table.rows
        rw [rows]
        exact List.mem_append_right _ last
    · exact .inl ⟨r, .inl waits, .refl r⟩
  · exact .inl ⟨r, .inr out, .refl r⟩

theorem Takes.finds {result : Except LocalBufferError (Option StoredBatch)}
    (takes : Takes serde s s' result) : Finds s s' := by
  cases takes with
  | none | fails => exact .of_holds fun _ => id
  | takes eq =>
    rintro r (waits | out)
    · exact .inl ⟨r, .inl (eq ▸ List.mem_cons_of_mem _ waits), .refl r⟩
    · rcases List.mem_cons.mp out with rfl | out
      · exact .inl ⟨_, .inl (eq ▸ List.mem_cons_self), _, rfl⟩
      · exact .inl ⟨r, .inr (List.mem_of_mem_filter out), .refl r⟩

theorem Commands.finds {cmd : Cmd} (commands : Commands config serde s cmd s') : Finds s s' := by
  cases commands with
  | push pushes =>
    cases pushes with
    | known | refused =>
      refine .answered ?_ (answered_reply ..)
      exact .of_holds fun _ => id
    | joins | waits => exact .of_holds fun _ => id
    | stores _ _ _ inserted => exact (finds_store _ _ _ inserted).answered (answered_reply ..)
  | next takes => exact takes.finds.answered (answered_reply ..)
  | @delivers call s₁ result localSeq takes =>
    have taken := takes.finds.answered (answered_reply s₁ call (.taken result))
    exact taken.congr (fun _ => id) (fun _ => id) rfl
  | returns takes =>
    exact takes.finds.congr (fun _ => id) (fun r => holds_handleRequeue)
      (requeued_handleRequeue ..).table
  | ack acks =>
    refine .answered (.of_holds fun r held => ?_) (answered_reply ..)
    cases acks with
    | fails | absent | strays => exact held
    | removes => exact held.imp_right List.mem_of_mem_filter
  | requeue => exact .answered (.of_holds fun r => holds_handleRequeue) (answered_reply ..)
  | @shutdown call =>
    refine .answered ?_ (answered_shutdown s call)
    exact .of_holds fun _ => id

/-- What a step takes into memory is a row. -/
theorem Move.finds (move : Move config serde s label s') : Finds s s' := by
  cases move with
  | send | giveUp | extract | timeout | hangUp => exact .of_holds fun _ => id
  | refused =>
    refine .answered ?_ (answered_reply ..)
    exact .of_holds fun _ => id
  | @round cutoffNs cleanup load _ =>
    refine (finds_loadMore _ load).congr (fun r held => ?_) (fun _ => id) rfl
    exact holds_checkPendingConfirm (finds_cleanupExpired _ cutoffNs cleanup r held)
  | flush _ flushes =>
    cases flushes with
    | leaves => exact .of_holds fun _ => id
    | @stores front rest n table _ _ inserted =>
      have stored := (finds_store (s := { s with pendingPush := rest }) config front.first true
        inserted).answered (answered_replyAll _ front.replies (.ok ()))
      exact stored.congr (fun _ => id) (fun _ => id) rfl
    | fails =>
      refine .answered ?_ (answered_replyAll ..)
      exact .of_holds fun _ => id
  | @receive _ queue _ _ _ _ _ _ commands =>
    exact commands.finds.congr
      (fun _ => holds_checkPendingConfirm (s := { s with queue, pc := .top })) (fun _ => id) rfl
  | restart =>
    rintro r (waits | out)
    · exact .inr (List.mem_of_mem_take waits)
    · cases out

/-! ## Records -/

/-- The topics and payloads of all records have a property. -/
structure Stocked (P : String → Bytes → Prop) (s : State) : Prop where
  rows : ∀ r ∈ s.table.rows, P r.topic r.payload
  mem : ∀ r ∈ s.mem, P r.topic r.payload
  inflight : ∀ r ∈ s.inflight, P r.topic r.payload
  pending : ∀ p ∈ s.pendingPush, P p.record.topic p.record.payload

theorem Stocked.opened (rows : ∀ r ∈ table.rows, P r.topic r.payload) :
    (State.opened config table).Stocked P :=
  ⟨rows, fun r inside => rows r (List.mem_of_mem_take inside), nofun, nofun⟩

theorem Stocked.handling (h : s.Stocked P) (queue : List Cmd) : (s.handling queue).Stocked P := by
  obtain ⟨_, table, pending⟩ := handling_same s queue
  have held : ∀ r, (s.handling queue).Holds r → P r.topic r.payload := fun r held =>
    (holds_checkPendingConfirm (s := { s with queue, pc := .top }) held).elim (h.mem r)
      (h.inflight r)
  refine ⟨?_, fun r waits => held r (.inl waits), fun r out => held r (.inr out), ?_⟩
  · rw [table]
    exact h.rows
  · rw [pending]
    exact h.pending

/-- What a step stores has the property. -/
theorem Stocked.step (h : s.Stocked P)
    (made : ∀ batch record, IsRecord serde batch record → P record.topic record.payload)
    (move : Move config serde s label s') : s'.Stocked P := by
  obtain ⟨asked, new, effect, _⟩ := move.effect
  have rows : ∀ r ∈ s'.table.rows, P r.topic r.payload := by
    intro r inside
    cases effect.rows r inside with
    | kept inside₀ same _ =>
      have kept := h.rows _ inside₀
      obtain ⟨_, rfl⟩ := same
      exact kept
    | flushed inside₀ eq _ _ =>
      rw [eq]
      exact h.pending _ inside₀
    | pushed _ is eq _ _ =>
      have holds := made _ _ is
      rwa [eq]
  have held : ∀ r, s'.Holds r → P r.topic r.payload := by
    intro r held
    rcases move.finds r held with ⟨r₀, held₀, _, rfl⟩ | inside
    · exact held₀.elim (h.mem r₀) (h.inflight r₀)
    · exact rows r inside
  refine ⟨rows, fun r waits => held r (.inl waits), fun r out => held r (.inr out),
    fun p inside => ?_⟩
  cases effect.pending p inside with
  | kept inside₀ continues _ => exact continues.record ▸ h.pending _ inside₀
  | pushed _ is _ _ => exact made _ _ is

/-! ## Batches -/

/-- A batch that is handed out is that of a record with the property. -/
def HandedOut (P : String → Bytes → Prop) (serde : Serde) (stored : StoredBatch) : Prop :=
  ∃ payload batch, P stored.topic payload ∧ serde.fromSlice payload = .ok batch ∧
    (stored.batch = batch ∨ stored.batch = { batch with replayed := true })

/-- Every batch that was handed out is that of a record with the property. -/
def HandsOut (P : String → Bytes → Prop) (serde : Serde) (s : State) : Prop :=
  ∀ call stored, .taken (.ok (some stored)) ∈ s.answers call → HandedOut P serde stored

theorem Takes.handedOut {stored : StoredBatch} (h : s.Stocked P)
    (takes : Takes serde s s' (.ok (some stored))) : HandedOut P serde stored := by
  cases takes with
  | @takes record rest batch metrics eq read =>
    have here : P record.topic record.payload := by
      refine h.mem record ?_
      rw [eq]
      exact List.mem_cons_self
    refine ⟨record.payload, batch, here, read, ?_⟩
    dsimp only
    split
    · exact .inr rfl
    · exact .inl rfl

namespace HandsOut

theorem of_answers (h : s.HandsOut P serde) (same : s'.answers = s.answers) :
    s'.HandsOut P serde := by
  intro call stored inside
  rw [same] at inside
  exact h call stored inside

theorem replies {replies : List (CallId × Answer)} (h : s.HandsOut P serde)
    (replied : Replies s₀ replies s') (same : s₀.answers = s.answers)
    (given : ∀ call stored, (call, .taken (.ok (some stored))) ∈ replies → HandedOut P serde
      stored) : s'.HandsOut P serde := by
  intro call stored inside
  rw [replied.answers call, same] at inside
  rcases List.mem_append.mp inside with before | new
  · exact h call stored before
  · split at new
    · cases new
    · obtain ⟨⟨call', answer⟩, here, eq⟩ := List.mem_map.mp new
      cases eq
      exact given call' stored (List.mem_of_mem_filter here)

/-- Replies without batches hand out nothing. -/
theorem told {replies : List (CallId × Answer)} (h : s.HandsOut P serde)
    (replied : Replies s₀ replies s') (same : s₀.answers = s.answers)
    (none : ∀ reply ∈ replies, ∀ stored, reply.2 ≠ .taken (.ok (some stored))) :
    s'.HandsOut P serde :=
  h.replies replied same fun _ stored inside => absurd rfl (none _ inside stored)

/-- What a command hands out has the property. -/
theorem commands {cmd : Cmd} (stocked : s.Stocked P) (h : s.HandsOut P serde)
    (commands : Commands config serde s cmd s') : s'.HandsOut P serde := by
  have done : ∀ {s₀ : State} {call : CallId} {result : Except LocalBufferError Unit},
      s₀.answers = s.answers → (s₀.reply call (.done result)).HandsOut P serde :=
    fun same => h.told (.one ..) same (by simp)
  have taken : ∀ {s₀ : State} {call : CallId} {result}, Takes serde s s₀ result →
      (s₀.reply call (.taken result)).HandsOut P serde := by
    intro s₀ call result takes
    refine h.replies (.one ..) takes.answers.1 fun call' stored inside => ?_
    cases List.mem_singleton.mp inside
    exact takes.handedOut stocked
  cases commands with
  | push pushes =>
    cases pushes with
    | known | refused | stores => exact done rfl
    | joins | waits => exact h.of_answers rfl
  | next takes => exact taken takes
  | @delivers call s₁ result localSeq takes =>
    exact of_answers (s := s₁.reply call (.taken result)) (taken takes) rfl
  | returns takes =>
    exact h.of_answers ((requeued_handleRequeue ..).answers.trans takes.answers.1)
  | ack acks => exact done (by cases acks <;> rfl)
  | requeue => exact done (requeued_handleRequeue ..).answers
  | @shutdown call =>
    refine h.told (replies_shutdown s call) rfl fun reply inside stored => ?_
    rcases List.mem_append.mp inside with inside | last
    · rcases List.mem_append.mp inside with waiter | queued
      · obtain ⟨p, _, inside⟩ := List.mem_flatMap.mp waiter
        obtain ⟨_, _, rfl⟩ := List.mem_map.mp inside
        nofun
      · obtain ⟨⟨_, request⟩, _, rfl⟩ := List.mem_map.mp queued
        cases request <;> nofun
    · cases List.mem_singleton.mp last
      nofun

/-- What a step hands out has the property. -/
theorem step (stocked : s.Stocked P) (h : s.HandsOut P serde)
    (move : Move config serde s label s') : s'.HandsOut P serde := by
  cases move with
  | send | giveUp | extract | timeout | hangUp | restart => exact h.of_answers rfl
  | @refused call request =>
    refine h.told (.one ..) rfl fun reply inside stored => ?_
    cases List.mem_singleton.mp inside
    cases request <;> nofun
  | round => exact h.of_answers (silent_round ..).answers
  | flush _ flushes =>
    have all : ∀ {s₀ : State} {calls : List CallId} {result : Except LocalBufferError Unit},
        s₀.answers = s.answers → (s₀.replyAll calls result).HandsOut P serde := by
      intro s₀ calls result same
      refine h.told (replies_replyAll ..) same fun reply inside stored => ?_
      obtain ⟨_, _, rfl⟩ := List.mem_map.mp inside
      nofun
    cases flushes with
    | leaves => exact h.of_answers rfl
    | @stores front rest n table =>
      exact of_answers (s := ({ s with pendingPush := rest }.store config front.first true
        { front.record with localSeq := n } table).replyAll front.replies (.ok ()))
        (all (by rfl)) rfl
    | fails => exact all rfl
  | @receive _ queue _ _ _ _ _ _ commands =>
    exact HandsOut.commands (stocked.handling queue)
      (h.of_answers (silent_handling s queue).answers) commands

end HandsOut

/-- In every run that starts with rows that have a property, every batch that is handed out is
that of a record with the property, if pushes only make such records. -/
theorem handsOut_of_run {guard : State → Label → Prop} {labels : List Label}
    (opened : openDb config table = .ok s₀) (rows : ∀ r ∈ table.rows, P r.topic r.payload)
    (made : ∀ batch record, IsRecord serde batch record → P record.topic record.payload)
    (run : (bufferMachine config serde).Run guard s₀ labels s) : s.HandsOut P serde := by
  obtain ⟨_, rfl⟩ := openDb_ok opened
  have kept := run.invariant (P := fun s => s.Stocked P ∧ s.HandsOut P serde)
    ⟨Stocked.opened rows, nofun⟩ fun t label u inv _ taken =>
      ⟨inv.1.step made (step_move taken), inv.2.step inv.1 (step_move taken)⟩
  exact kept.2

end State

end ForgeLink.Buffer
