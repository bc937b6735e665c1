import ForgeLink.Control.QueueCustody

/-!
# Executor calls

The executor is called for an accepted entry, by the worker that took it off
the queue, and at most once.
-/

namespace ForgeLink.Control

namespace QueueState

variable {policy : ControlPolicy} {s s' : QueueState} {t : TaskId} {pc : WorkerPc}

/-! ## What a worker does to the queue and the calls -/

theorem prepared_called (s : QueueState) : s.prepared.called = s.called := by
  obtain ⟨_, _, _, _, eq⟩ := s.prepared_form
  rw [eq]
  rfl

theorem ended_called (policy : ControlPolicy) (s : QueueState) (e : QueuedEntry)
    (unknown : Bool) (run : RunResult) :
    (s.ended policy e unknown run).called = s.called := by
  rw [ended]
  cases unknown <;> split <;> rfl

theorem adopt_called (s : QueueState) (t : TaskId) (rest : List QueuedEntry) (ns : TimestampNs) :
    (s.adopt t rest ns).called = s.called := by
  rcases adopt_eq s t rest ns with ⟨_, eq⟩ | ⟨_, _, _, _, _, _, eq⟩ <;> rw [eq] <;> rfl

theorem adopt_task (s : QueueState) (t : TaskId) (rest : List QueuedEntry) (ns : TimestampNs) :
    ∃ pc, (s.adopt t rest ns).tasks t = .live pc ∧ pc.pending = none := by
  rcases adopt_eq s t rest ns with ⟨_, eq⟩ | ⟨_, _, _, _, _, _, eq⟩ <;> rw [eq] <;>
    exact ⟨_, Function.update_self .., rfl⟩

/-- A worker calls the executor for the entry it has started. -/
theorem WorkerMove.called {event : Event} (move : WorkerMove policy s t pc event s') :
    s'.called = s.called ∨ ∃ e ns, pc.pending = some e ∧ s' = s.call t e ns := by
  cases move with
  | adoptDraining => exact .inl (adopt_called s.cleared t s.draining _)
  | drains | returns | waits | declines | starts => exact .inl s.prepared_called
  | calls | callsChecked => exact .inr ⟨_, _, rfl, rfl⟩
  | ends => exact .inl (ended_called policy s _ _ _)
  | @finishes st after ns _ =>
    cases after with
    | adopt rest =>
      exact .inl (adopt_called (s.setReply st.entry.reply st.result).sweep t rest ns)
    | _ => exact .inl rfl
  | _ => exact .inl rfl

/-- A worker queues no new entry. -/
theorem WorkerMove.queued {event : Event} (ids : Ids s) (move : WorkerMove policy s t pc event s') :
    ∀ e ∈ s'.queued, e ∈ s.queued := by
  have taken : ∀ {prio e rest}, s.prepared.entries prio = e :: rest →
      ∀ e ∈ (s.prepared.removeFront prio rest).queued, e ∈ s.queued := fun front e inside =>
    ids.prepared_queued e ((queued_removeFront front).mem_iff.mpr (List.mem_cons_of_mem _ inside))
  have same : ∀ {s₀ : QueueState}, s₀.entries = s.entries → ∀ e ∈ s₀.queued, e ∈ s.queued := by
    intro s₀ eq e inside
    rwa [DeviceQueue.queued, eq] at inside
  cases move with
  | adoptDraining => exact same (adopt_fields s.cleared t s.draining _).2.2
  | drains | returns | waits => exact ids.prepared_queued
  | declines _ _ front | starts _ _ front => exact taken front
  | @ends pc event e unknown run ns _ =>
    obtain ⟨_, _, eq⟩ := ended_form policy s e unknown run
    rw [eq]
    exact fun _ => id
  | @finishes st after ns _ =>
    cases after with
    | adopt rest =>
      exact same (adopt_fields (s.setReply st.entry.reply st.result).sweep t rest ns).2.2
    | _ => exact fun _ => id
  | _ => exact fun _ => id

/-- A started entry was started before or has just been taken off the queue. -/
theorem WorkerMove.pending {event : Event} (ids : Ids s) (move : WorkerMove policy s t pc event s')
    {pc' : WorkerPc} (live : s'.tasks t = .live pc') {e : QueuedEntry}
    (pending : pc'.pending = some e) :
    s'.called = s.called ∧ (pc.pending = some e ∨ e ∈ s.queued) := by
  have not : ∀ {pc₀ : WorkerPc}, s'.tasks t = .live pc₀ → pc₀.pending ≠ none := by
    intro pc₀ here
    rw [← TaskState.live.inj (live.symm.trans here), pending]
    exact Option.some_ne_none e
  have adopts : ∀ (s₀ : QueueState) {rest ns}, s' = s₀.adopt t rest ns → False := by
    intro s₀ rest ns eq
    obtain ⟨pc₀, here, none⟩ := adopt_task s₀ t rest ns
    exact not (eq ▸ here) none
  cases move with
  | starts _ _ front =>
    cases (Function.update_self ..).symm.trans live
    obtain rfl := Option.some.inj pending
    refine ⟨s.prepared_called, .inr (ids.prepared_queued _ ?_)⟩
    exact (queued_removeFront front).mem_iff.mpr List.mem_cons_self
  | checks =>
    cases (Function.update_self ..).symm.trans live
    exact ⟨rfl, .inl pending⟩
  | returns => cases (Function.update_self ..).symm.trans live
  | adoptDraining => exact (adopts _ rfl).elim
  | @finishes st after ns _ =>
    cases after with
    | adopt rest => exact (adopts (s.setReply st.entry.reply st.result).sweep rfl).elim
    | _ => exact absurd rfl (not (Function.update_self ..))
  | _ => exact absurd rfl (not (Function.update_self ..))

/-! ## The invariant -/

/-- The worker is about to call the executor for the entry. -/
def Pending (s : QueueState) (t : TaskId) (e : QueuedEntry) : Prop :=
  ∃ pc, s.tasks t = .live pc ∧ pc.pending = some e

/-- Calls are made once, for accepted entries that have left the queue, and no
two workers are about to call for the same one. -/
structure Calls (s : QueueState) : Prop where
  once : s.called.Nodup
  accepted : ∀ r ∈ s.called, ∃ e ∈ s.accepted, e.reply = r
  queued : ∀ e ∈ s.queued, e.reply ∉ s.called
  pending : ∀ t e, s.Pending t e → e.reply ∉ s.called
  lone : ∀ t t' e e', s.Pending t e → s.Pending t' e' → e.reply = e'.reply → t = t'

theorem Calls.new (policy : ControlPolicy) (shared : Shared) :
    Calls (QueueState.new policy shared) where
  once := List.nodup_nil
  accepted r inside := by cases inside
  queued e inside := by cases inside
  pending t e := by
    rintro ⟨pc, live, _⟩
    cases live
  lone t t' e e' := by
    rintro ⟨pc, live, _⟩
    cases live

/-- A step that calls nothing. -/
theorem Calls.mono (h : Calls s) (called : s'.called = s.called)
    (accepted : ∀ e ∈ s.accepted, e ∈ s'.accepted) (queued : ∀ e ∈ s'.queued, e.reply ∉ s.called)
    (pending : ∀ t e, s'.Pending t e → s.Pending t e) : Calls s' where
  once := called ▸ h.once
  accepted r inside := by
    obtain ⟨e, before, same⟩ := h.accepted r (called ▸ inside)
    exact ⟨e, accepted e before, same⟩
  queued e inside := called ▸ queued e inside
  pending t e here := called ▸ h.pending t e (pending t e here)
  lone t t' e e' here here' := h.lone t t' e e' (pending t e here) (pending t' e' here')

theorem Calls.ensureWorker (h : Calls s) : Calls s.ensureWorker := by
  refine ensureWorker_of h fun _ => ?_
  refine h.mono rfl (fun _ => id) h.queued ?_
  rintro t e ⟨pc, live, here⟩
  rcases live_of_spawn live with rfl | live
  · cases here
  · exact ⟨pc, live, here⟩

theorem Calls.drop (h : Calls s) (pc : WorkerPc) {state : TaskState}
    (dead : ∀ pc, state ≠ .live pc) : Calls (s.drop t pc state) := by
  have pending : ∀ {s' : QueueState}, s'.tasks = Function.update s.tasks t state →
      ∀ t' e, s'.Pending t' e → s.Pending t' e := by
    rintro s' tasks t' e ⟨pc', live, here⟩
    rw [tasks] at live
    exact ⟨pc', (live_of_update dead live).2, here⟩
  cases pc <;> exact h.mono rfl (fun _ => id) h.queued (pending rfl)

theorem Calls.takeOver (h : Calls s) (budget : Nat) : Calls (s.takeOver budget) := by
  refine h.mono rfl (fun _ => id) (fun e inside => ?_) fun _ _ => id
  rw [(s.takeOver_empty budget).1] at inside
  cases inside

/-- A worker calls for an entry once. -/
theorem Calls.workerMove {event : Event} (h : Calls s) (ids : Ids s)
    (live : s.tasks t = .live pc) (move : WorkerMove policy s t pc event s') : Calls s' := by
  have others : ∀ {t' e}, t' ≠ t → s'.Pending t' e → s.Pending t' e := by
    rintro t' e differ ⟨pc', live', here⟩
    exact ⟨pc', move.steps.tasks t' differ ▸ live', here⟩
  -- An entry that is about to be called for has left the queue.
  have departed : ∀ {t' e}, s.Pending t' e → s.Departed e := by
    rintro t' e ⟨pc', live', here⟩
    exact ids.task live' e (WorkerPc.runs_mem (WorkerPc.pending_runs here))
  rcases move.called with same | ⟨e, ns, pending, rfl⟩
  · have own : ∀ {e}, s'.Pending t e → s.Pending t e ∨ e ∈ s.queued := by
      rintro e ⟨pc', live', here⟩
      exact (move.pending ids live' here).2.imp_left fun before => ⟨pc, live, before⟩
    have clash : ∀ {t' e e'}, t' ≠ t → s'.Pending t e → s'.Pending t' e' → e.reply ≠ e'.reply := by
      intro t' e e' differ here there eq
      rcases own here with before | inside
      · exact differ (h.lone t' t e' e (others differ there) before eq.symm)
      · exact (departed (others differ there)).2 (List.mem_map.mpr ⟨e, inside, eq⟩)
    refine ⟨same ▸ h.once, fun r inside => ?_, fun e inside => ?_, fun t' e here => ?_,
      fun t₁ t₂ e₁ e₂ first second eq => ?_⟩
    · obtain ⟨e, before, eq⟩ := h.accepted r (same ▸ inside)
      exact ⟨e, move.accepted ▸ before, eq⟩
    · exact same ▸ h.queued e (move.queued ids e inside)
    · rw [same]
      by_cases eq : t' = t
      · subst eq
        exact (own here).elim (h.pending _ e) (h.queued e)
      · exact h.pending t' e (others eq here)
    · by_cases eq₁ : t₁ = t <;> by_cases eq₂ : t₂ = t
      · rw [eq₁, eq₂]
      · exact absurd eq (clash eq₂ (eq₁ ▸ first) second)
      · exact absurd eq.symm (clash eq₁ (eq₂ ▸ second) first)
      · exact h.lone t₁ t₂ e₁ e₂ (others eq₁ first) (others eq₂ second) eq
  · have here : s.Pending t e := ⟨pc, live, pending⟩
    have gone : ∀ {t' e'}, (s.call t e ns).Pending t' e' → t' ≠ t := by
      rintro t' e' ⟨pc', live', pending'⟩ rfl
      cases (Function.update_self ..).symm.trans live'
      cases pending'
    refine ⟨?_, fun r inside => ?_, fun e' inside => ?_, fun t' e' there => ?_,
      fun t₁ t₂ e₁ e₂ first second =>
        h.lone t₁ t₂ e₁ e₂ (others (gone first) first) (others (gone second) second)⟩
    · exact List.nodup_cons.mpr ⟨h.pending t e here, h.once⟩
    · rcases List.mem_cons.mp inside with rfl | before
      · exact ⟨e, (departed here).1, rfl⟩
      · exact h.accepted r before
    · refine List.not_mem_cons_of_ne_of_not_mem (fun same => ?_) (h.queued e' inside)
      exact (departed here).2 (List.mem_map.mpr ⟨e', inside, same⟩)
    · have before := others (gone there) there
      refine List.not_mem_cons_of_ne_of_not_mem (fun same => ?_) (h.pending t' e' before)
      exact gone there (h.lone t' t e' e before here same)

/-- No step calls for an entry again. -/
theorem Calls.step {label : Label} (h : Calls s) (ids : Ids s)
    (move : Move policy s label s') : Calls s' := by
  cases move with
  | push fresh =>
    obtain ⟨_, absent⟩ := fresh_notMem fresh
    refine h.mono rfl (fun _ => List.mem_cons_of_mem _) (fun e' inside called => ?_) fun _ _ => id
    rcases List.mem_cons.mp ((queued_push rfl).mem_iff.mp inside) with rfl | before
    · obtain ⟨e, accepted, same⟩ := h.accepted _ called
      exact absent e accepted same
    · exact h.queued e' before called
  | enter | revive => exact Calls.ensureWorker (h.mono rfl (fun _ => id) h.queued fun _ _ => id)
  | joinedDead => exact h.takeOver _
  | @abort t pc budget => exact Calls.takeOver (h.drop pc fun _ eq => by cases eq) budget
  | worker live move => exact h.workerMove ids live move
  | @panic t pc => exact h.drop pc fun _ eq => by cases eq
  | _ => exact h.mono rfl (fun _ => id) h.queued fun _ _ => id

end QueueState

end ForgeLink.Control
