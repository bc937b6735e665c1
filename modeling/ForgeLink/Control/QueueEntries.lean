import Mathlib.Data.List.Nodup
import Mathlib.Data.List.Perm.Basic
import ForgeLink.Control.QueueTasks

/-!
# Entries

Where an entry can be.  It is accepted once, leaves the queue once and is never
queued again: every entry a worker, `running`, `draining` or `join` knows is
*loose*, an accepted one that is no longer queued.  The executor is called for
an entry only by the worker that took it off the queue, so it is called at most
once.
-/

namespace ForgeLink.Control

/-! ## The entries a task knows -/

variable {e : QueuedEntry}

/-- The entry a worker is starting, checking or executing. -/
def WorkerPc.runs : WorkerPc → Option QueuedEntry
  | .starting e => some e
  | .checking e _ => some e
  | .executing e _ => some e
  | _ => none

/-- The entry a worker has started and not called the executor for. -/
def WorkerPc.pending : WorkerPc → Option QueuedEntry
  | .starting e => some e
  | .checking e _ => some e
  | _ => none

/-- The entries a worker has yet to adopt. -/
def After.rest : After → List QueuedEntry
  | .adopt rest => rest
  | _ => []

/-- Every entry a worker knows. -/
def WorkerPc.entries : WorkerPc → List QueuedEntry
  | .starting e => [e]
  | .checking e _ => [e]
  | .executing e _ => [e]
  | .settling st after => st.entry :: after.rest
  | _ => []

/-- Every entry a task knows. -/
def TaskState.entries : TaskState → List QueuedEntry
  | .live pc => pc.entries
  | _ => []

/-- Every entry `settle_abandoned` knows. -/
def JoinPc.entries : JoinPc → List QueuedEntry
  | .abandoning todo _ current => (current.map Settling.entry).toList ++ todo.map Prod.fst
  | _ => []

theorem WorkerPc.pending_runs {pc : WorkerPc} (h : pc.pending = some e) : pc.runs = some e := by
  cases pc <;> first | exact h | cases h

theorem WorkerPc.runs_mem {pc : WorkerPc} (h : pc.runs = some e) : e ∈ pc.entries := by
  cases pc with
  | starting e' | checking e' _ | executing e' _ =>
    obtain rfl := Option.some.inj h
    exact List.mem_cons_self
  | _ => cases h

theorem Settling.next_entry {st st' : Settling} {event : SettleEvent}
    (h : st.next event = some st') : st'.entry = st.entry := by
  cases event with
  | permit | written ok =>
    rw [next, Option.ite_none_right_eq_some, Option.some.injEq] at h
    obtain ⟨_, rfl⟩ := h
    rfl
  | resume =>
    rw [next] at h
    split at h
    · obtain rfl := Option.some.inj h
      rfl
    · obtain rfl := Option.some.inj h
      rfl
    · cases h

/-! ## The queued entries as one list -/

/-- One more entry in one of the lists. -/
theorem flatMap_update_perm {ps : List Priority} {prio : Priority} {f : Priority → List QueuedEntry}
    {xs : List QueuedEntry} (nodup : ps.Nodup) (inside : prio ∈ ps)
    (grows : xs.Perm (e :: f prio)) :
    (ps.flatMap (Function.update f prio xs)).Perm (e :: ps.flatMap f) := by
  induction ps with
  | nil => cases inside
  | cons p ps ih =>
    rw [List.nodup_cons] at nodup
    rw [List.flatMap_cons, List.flatMap_cons]
    by_cases same : p = prio
    · subst same
      have others : ps.flatMap (Function.update f p xs) = ps.flatMap f := by
        apply List.flatMap_congr
        intro p' here
        have differ : p' ≠ p := fun eq => nodup.1 (eq ▸ here)
        rw [Function.update_of_ne differ]
      rw [others, Function.update_self]
      exact grows.append_right _
    · rw [Function.update_of_ne same]
      have later := ih nodup.2 ((List.mem_cons.mp inside).resolve_left (Ne.symm same))
      exact (later.append_left _).trans List.perm_middle

theorem Priority.mem_ascending (prio : Priority) : prio ∈ ascending := by
  cases prio <;> decide

theorem Priority.nodup_ascending : ascending.Nodup := by decide

namespace QueueState

variable {policy : ControlPolicy} {s s' : QueueState} {t : TaskId} {pc : WorkerPc}
variable {e : QueuedEntry} {prio : Priority} {rest : List QueuedEntry} {ns : TimestampNs}
  {state : TaskState}

theorem queued_push
    (entries : s'.entries = Function.update s.entries prio (s.entries prio ++ [e])) :
    s'.queued.Perm (e :: s.queued) := by
  rw [DeviceQueue.queued, entries]
  exact flatMap_update_perm Priority.nodup_ascending prio.mem_ascending
    (List.perm_append_singleton _ _)

theorem queued_removeFront (front : s.entries prio = e :: rest) :
    s.queued.Perm (e :: (s.removeFront prio rest).queued) := by
  have restore : s.entries =
      Function.update (Function.update s.entries prio rest) prio (e :: rest) := by
    rw [Function.update_idem, ← front, Function.update_eq_self]
  rw [DeviceQueue.queued, restore]
  refine flatMap_update_perm Priority.nodup_ascending prio.mem_ascending ?_
  rw [Function.update_self]

theorem queued_eq_nil (h : ∀ prio, s.entries prio = []) : s.queued = [] := by
  rw [DeviceQueue.queued, List.flatMap_eq_nil_iff]
  exact fun prio _ => h prio

theorem entries_of_queued_eq_nil (h : s.queued = []) (prio : Priority) : s.entries prio = [] := by
  rw [DeviceQueue.queued, List.flatMap_eq_nil_iff] at h
  exact h prio prio.mem_ascending

/-! ## Loose entries -/

/-- A worker, `running`, `draining` or `join` knows the entry. -/
def Loose (s : QueueState) (e : QueuedEntry) : Prop :=
  s.running = some e ∨ e ∈ s.draining ∨ (∃ t pc, s.tasks t = .live pc ∧ e ∈ pc.entries) ∨
    e ∈ s.join.entries

/-- The replies of the queued entries. -/
def queuedReplies (s : QueueState) : List ReplyId := s.queued.map QueuedEntry.reply

/-- The entry was accepted and has left the queue. -/
def Departed (s : QueueState) (e : QueuedEntry) : Prop :=
  e ∈ s.accepted ∧ e.reply ∉ s.queuedReplies

/-- The identity of entries: the count of queued entries is right, replies are
distinct, and every loose entry has left the queue. -/
structure Ids (s : QueueState) : Prop where
  counted : s.len = s.queued.length
  distinct : (s.accepted.map QueuedEntry.reply).Nodup
  queued_accepted : ∀ e ∈ s.queued, e ∈ s.accepted
  queued_distinct : s.queuedReplies.Nodup
  loose : ∀ e, s.Loose e → s.Departed e

theorem Ids.new (policy : ControlPolicy) (shared : Shared) :
    Ids (QueueState.new policy shared) where
  counted := rfl
  distinct := List.nodup_nil
  queued_accepted e inside := by cases inside
  queued_distinct := List.nodup_nil
  loose e h := by
    rcases h with h | h | ⟨t, pc, h, _⟩ | h <;> cases h

theorem Ids.running (h : Ids s) : ∀ e, s.running = some e → s.Departed e :=
  fun e here => h.loose e (.inl here)

theorem Ids.draining (h : Ids s) : ∀ e ∈ s.draining, s.Departed e :=
  fun e here => h.loose e (.inr (.inl here))

theorem Ids.task (h : Ids s) (live : s.tasks t = .live pc) : ∀ e ∈ pc.entries, s.Departed e :=
  fun e here => h.loose e (.inr (.inr (.inl ⟨t, pc, live, here⟩)))

theorem Ids.join (h : Ids s) : ∀ e ∈ s.join.entries, s.Departed e :=
  fun e here => h.loose e (.inr (.inr (.inr here)))

/-- Two accepted entries with one reply are the same. -/
theorem Ids.eq_of_reply (h : Ids s) {e' : QueuedEntry} (inside : e ∈ s.accepted)
    (inside' : e' ∈ s.accepted) (same : e.reply = e'.reply) : e = e' :=
  List.inj_on_of_nodup_map h.distinct inside inside' same

/-- A step that accepts nothing keeps the identities if what is loose after it
had left the queue or leaves it now. -/
theorem Ids.mono (h : Ids s) (counted : s'.len = s'.queued.length)
    (accepted : s'.accepted = s.accepted) (queued : ∀ e ∈ s'.queued, e ∈ s.queued)
    (distinct : s'.queuedReplies.Nodup)
    (loose : ∀ e, s'.Loose e → s.Departed e ∨ e ∈ s.queued ∧ e.reply ∉ s'.queuedReplies) :
    Ids s' where
  counted := counted
  distinct := accepted ▸ h.distinct
  queued_accepted e inside := accepted ▸ h.queued_accepted e (queued e inside)
  queued_distinct := distinct
  loose e known := by
    rw [Departed, accepted]
    rcases loose e known with ⟨before, left⟩ | ⟨inside, left⟩
    · refine ⟨before, fun again => left ?_⟩
      obtain ⟨e', inside, same⟩ := List.mem_map.mp again
      exact List.mem_map.mpr ⟨e', queued e' inside, same⟩
    · exact ⟨h.queued_accepted e inside, left⟩

/-- A step that moves no queued entry. -/
theorem Ids.still (h : Ids s) (entries : s'.entries = s.entries) (len : s'.len = s.len)
    (accepted : s'.accepted = s.accepted) (loose : ∀ e, s'.Loose e → s.Departed e) : Ids s' := by
  have queued : s'.queued = s.queued := by rw [DeviceQueue.queued, DeviceQueue.queued, entries]
  refine h.mono ?_ accepted ?_ ?_ fun e known => .inl (loose e known)
  · rw [len, queued]
    exact h.counted
  · rw [queued]
    exact fun _ => id
  · rw [queuedReplies, queued]
    exact h.queued_distinct

/-- What a step of one worker makes loose. -/
theorem loose_steps {P : QueuedEntry → Prop} (steps : Steps t s s')
    (running : ∀ e, s'.running = some e → P e) (draining : ∀ e ∈ s'.draining, P e)
    (own : ∀ e ∈ (s'.tasks t).entries, P e)
    (old : ∀ e, s.Loose e → P e) (e : QueuedEntry) (h : s'.Loose e) : P e := by
  rcases h with here | here | ⟨t', pc, live, here⟩ | here
  · exact running e here
  · exact draining e here
  · by_cases same : t' = t
    · rw [same] at live
      exact own e (live ▸ here)
    · rw [steps.tasks t' same] at live
      exact old e (.inr (.inr (.inl ⟨t', pc, live, here⟩)))
  · rw [steps.frame.join] at here
    exact old e (.inr (.inr (.inr here)))

/-! ## One step -/

theorem prepared_accepted (s : QueueState) : s.prepared.accepted = s.accepted := by
  obtain ⟨_, _, _, _, eq⟩ := s.prepared_form
  rw [eq]
  rfl

theorem prepared_running (s : QueueState) : s.prepared.running = s.running := by
  obtain ⟨_, _, _, _, eq⟩ := s.prepared_form
  rw [eq]

theorem ended_accepted (policy : ControlPolicy) (s : QueueState) (e : QueuedEntry)
    (unknown : Bool) (run : RunResult) :
    (s.ended policy e unknown run).accepted = s.accepted := by
  rw [ended]
  cases unknown <;> split <;> rfl

/-- A closed queue is emptied into `draining`. -/
theorem Ids.prepared_of_closed (h : Ids s) (down : (s.closed || s.flag) = true) :
    s.prepared.draining = s.draining ++ s.queued ∧ s.prepared.queued = [] ∧
      s.prepared.len = 0 := by
  rw [QueueState.prepared_of_closed down, drain]
  split
  · exact ⟨rfl, queued_eq_nil fun _ => rfl, rfl⟩
  next none =>
    have len : s.len = 0 := Nat.eq_zero_of_not_pos none
    have empty : s.queued = [] := List.eq_nil_of_length_eq_zero (h.counted.symm.trans len)
    exact ⟨by rw [empty, List.append_nil], empty, len⟩

/-- What the worker of a queue that is being closed can find. -/
theorem Ids.prepared_draining (h : Ids s) :
    ∀ e ∈ s.prepared.draining,
      s.Departed e ∨ e ∈ s.queued ∧ e.reply ∉ s.prepared.queuedReplies := by
  intro e inside
  cases down : s.closed || s.flag with
  | false =>
    rw [prepared_of_open down] at inside
    exact .inl (h.draining e inside)
  | true =>
    obtain ⟨draining, queued, _⟩ := h.prepared_of_closed down
    rw [draining] at inside
    rcases List.mem_append.mp inside with here | here
    · exact .inl (h.draining e here)
    · refine .inr ⟨here, ?_⟩
      rw [queuedReplies, queued]
      exact List.not_mem_nil

/-- A closed queue has nothing to pick. -/
theorem Ids.open_of_front (h : Ids s) (front : s.prepared.entries prio = e :: rest) :
    (s.closed || s.flag) = false := by
  cases down : s.closed || s.flag with
  | false => rfl
  | true =>
    rw [entries_of_queued_eq_nil (h.prepared_of_closed down).2.1] at front
    cases front

theorem Ids.prepared (h : Ids s) : Ids s.prepared := by
  cases down : s.closed || s.flag with
  | false => rwa [prepared_of_open down]
  | true =>
    obtain ⟨_, queued, len⟩ := h.prepared_of_closed down
    refine h.mono (by rw [queued, len]; rfl) s.prepared_accepted ?_ ?_ ?_
    · rw [queued]
      exact fun e inside => by cases inside
    · rw [queuedReplies, queued]
      exact List.nodup_nil
    · intro e known
      rcases known with here | here | ⟨t, pc, live, here⟩ | here
      · rw [prepared_running] at here
        exact .inl (h.running e here)
      · exact h.prepared_draining e here
      · rw [prepared_tasks] at live
        exact .inl (h.task live e here)
      · rw [s.prepared_frame.join] at here
        exact .inl (h.join e here)

/-- A worker that moves no queued entry and knows nothing new. -/
theorem Ids.steps (h : Ids s) (steps : Steps t s s') (entries : s'.entries = s.entries)
    (len : s'.len = s.len) (accepted : s'.accepted = s.accepted)
    (running : ∀ e, s'.running = some e → s.Departed e) (draining : ∀ e ∈ s'.draining, s.Departed e)
    (own : ∀ e ∈ (s'.tasks t).entries, s.Departed e) : Ids s' :=
  h.still entries len accepted (loose_steps steps running draining own h.loose)

/-- A step that moves no queued entry and no task, and shrinks the rest. -/
theorem Ids.shrink (h : Ids s) (entries : s'.entries = s.entries) (len : s'.len = s.len)
    (accepted : s'.accepted = s.accepted) (tasks : s'.tasks = s.tasks)
    (join : ∀ e ∈ s'.join.entries, s.Departed e)
    (running : ∀ e, s'.running = some e → s.Departed e)
    (draining : ∀ e ∈ s'.draining, s.Departed e) : Ids s' := by
  refine h.still entries len accepted fun e known => ?_
  rcases known with here | here | ⟨t, pc, live, here⟩ | here
  · exact running e here
  · exact draining e here
  · rw [tasks] at live
    exact h.task live e here
  · exact join e here

theorem Ids.setTask (h : Ids s) (own : ∀ e ∈ state.entries, s.Departed e) :
    Ids (s.setTask t state) := by
  refine h.steps (t := t) (.of_tasks (setTask_frame state) rfl) rfl rfl rfl h.running h.draining ?_
  rwa [setTask_tasks, Function.update_self]

theorem Ids.startSettle (h : Ids s) {run : RunResult} {after : After} (loose : s.Departed e)
    (rest : ∀ e ∈ after.rest, s.Departed e) : Ids (s.startSettle t e run after ns) := by
  have counted : Ids { s with depth := s.depth - 1 } := h.still rfl rfl rfl h.loose
  exact counted.setTask (List.forall_mem_cons.mpr ⟨loose, rest⟩)

theorem Ids.startTracked (h : Ids s) {run : RunResult} {after : After} (loose : s.Departed e)
    (rest : ∀ e ∈ after.rest, s.Departed e) :
    Ids (s.startTracked t e run after ns) := by
  have tracked : Ids { s with draining := s.draining ++ [e] } :=
    h.shrink rfl rfl rfl rfl h.join h.running
      (List.forall_mem_append.mpr ⟨h.draining, List.forall_mem_singleton.mpr loose⟩)
  exact tracked.startSettle loose rest

theorem Ids.adopt (h : Ids s) (loose : ∀ e ∈ rest, s.Departed e) : Ids (s.adopt t rest ns) := by
  rcases adopt_eq s t rest ns with ⟨_, eq⟩ | ⟨before, e, rest', split, _, _, eq⟩
  · rw [eq]
    exact h.setTask nofun
  · rw [eq]
    subst split
    exact h.startTracked (loose e (by simp)) fun e' here =>
      loose e' (by simp [show e' ∈ rest' from here])

theorem Ids.cleared (h : Ids s) : Ids s.cleared :=
  h.shrink rfl rfl rfl rfl h.join nofun nofun

theorem Ids.ended (h : Ids s) (e : QueuedEntry) (unknown : Bool) (run : RunResult) :
    Ids (s.ended policy e unknown run) := by
  rw [QueueState.ended]
  cases unknown <;> split <;>
    exact h.shrink rfl rfl rfl rfl h.join h.running h.draining

theorem Ids.settled (h : Ids s) (r : ReplyId) (result : ControlResult) :
    Ids (s.setReply r result).sweep :=
  h.shrink rfl rfl rfl rfl h.join h.running
    fun e here => h.draining e (List.dropWhile_sublist _ |>.subset here)

/-- Taking an entry off the queue. -/
theorem Ids.removeFront (h : Ids s) (front : s.entries prio = e :: rest) :
    Ids (s.removeFront prio rest) ∧ (s.removeFront prio rest).Departed e := by
  have perm := queued_removeFront front
  have replies : s.queuedReplies.Perm (e.reply :: (s.removeFront prio rest).queuedReplies) :=
    perm.map _
  have nodup := replies.nodup_iff.mp h.queued_distinct
  rw [List.nodup_cons] at nodup
  have accepted : e ∈ s.accepted := h.queued_accepted e (perm.mem_iff.mpr List.mem_cons_self)
  refine ⟨h.mono ?_ rfl ?_ nodup.2 ?_, accepted, nodup.1⟩
  · have length := perm.length_eq
    rw [List.length_cons, ← h.counted] at length
    change s.len - 1 = _
    rw [length, Nat.add_sub_cancel]
  · exact fun e' inside => perm.mem_iff.mpr (List.mem_cons_of_mem _ inside)
  · exact fun e' known => .inl (h.loose e' known)

theorem Ids.call (h : Ids s) (departed : s.Departed e) : Ids (s.call t e ns) := by
  have logged : Ids { s with log := .called e s.now :: s.log } :=
    h.still rfl rfl rfl h.loose
  exact logged.setTask (List.forall_mem_singleton.mpr departed)

/-- A worker keeps every entry at one place. -/
theorem Ids.workerMove {event : Event} (h : Ids s) (live : s.tasks t = .live pc)
    (move : WorkerMove policy s t pc event s') : Ids s' := by
  have own := h.task live
  cases move with
  | @adoptRunning ns e here _ =>
    exact h.cleared.startTracked (h.running e here) h.draining
  | adoptDraining => exact h.cleared.adopt h.draining
  | @drains ns e rest _ front =>
    refine h.prepared.startTracked (h.prepared.draining e ?_) nofun
    rw [front]
    exact List.mem_cons_self
  | returns | waits => exact h.prepared.setTask nofun
  | @declines ns prio e rest run _ _ front _ =>
    have opened := h.open_of_front front
    rw [prepared_of_open opened] at front ⊢
    obtain ⟨after, departed⟩ := h.removeFront front
    exact after.startTracked departed nofun
  | @starts ns prio e rest _ _ front =>
    have opened := h.open_of_front front
    rw [prepared_of_open opened] at front ⊢
    obtain ⟨after, departed⟩ := h.removeFront front
    have running : Ids { s.removeFront prio rest with running := some e } :=
      after.shrink rfl rfl rfl rfl after.join
        (fun e' here => Option.some.inj here ▸ departed) after.draining
    exact running.setTask (List.forall_mem_singleton.mpr departed)
  | wakes => exact h.setTask nofun
  | checks => exact h.setTask own
  | @calls e ns | @callsChecked e at' ns => exact h.call (own e List.mem_cons_self)
  | @ends pc event e unknown run ns ends =>
    have inside : e ∈ pc.entries := by
      cases ends <;> exact List.mem_cons_self
    have after : Ids (s.ended policy e unknown run) := h.ended e unknown run
    have still : (s.ended policy e unknown run).tasks t = .live pc := by rwa [ended_tasks]
    exact after.startSettle (after.task still e inside) nofun
  | settles next =>
    refine h.setTask ?_
    rwa [TaskState.entries, WorkerPc.entries, Settling.next_entry next]
  | @finishes st after ns _ =>
    cases after with
    | clear =>
      have cleared : Ids { s.setReply st.entry.reply st.result with running := none } :=
        h.shrink rfl rfl rfl rfl h.join nofun h.draining
      exact cleared.setTask nofun
    | loop => exact (h.settled _ _).setTask nofun
    | adopt rest =>
      exact (h.settled _ _).adopt fun e here => own e (List.mem_cons_of_mem _ here)

theorem Ids.ensureWorker (h : Ids s) : Ids s.ensureWorker := by
  refine ensureWorker_of h fun _ => ?_
  refine h.still rfl rfl rfl fun e known => ?_
  rcases known with here | here | ⟨t, pc, live, here⟩ | here
  · exact h.running e here
  · exact h.draining e here
  · rcases live_of_spawn live with rfl | live
    · cases here
    · exact h.task live e here
  · exact h.join e here

/-- A step that only moves `join`. -/
theorem Ids.move_join (h : Ids s) (entries : s'.entries = s.entries) (len : s'.len = s.len)
    (accepted : s'.accepted = s.accepted) (tasks : s'.tasks = s.tasks)
    (running : s'.running = s.running) (draining : s'.draining = s.draining)
    (join : ∀ e ∈ s'.join.entries, s.Departed e) : Ids s' :=
  h.shrink entries len accepted tasks join (running ▸ h.running) (draining ▸ h.draining)

theorem mem_abandoned {q : DeviceQueue} (h : e ∈ (abandoned q).map Prod.fst) :
    q.running = some e ∨ e ∈ q.queued ∨ e ∈ q.draining := by
  rw [abandoned, List.map_append, List.mem_append] at h
  rcases h with here | here
  · refine .inl ?_
    cases running : q.running with
    | none =>
      rw [running] at here
      cases here
    | some e' =>
      rw [running] at here
      obtain rfl := List.mem_singleton.mp here
      rfl
  · rw [List.map_map] at here
    obtain ⟨e', inside, rfl⟩ := List.mem_map.mp here
    exact .inr (List.mem_append.mp inside)

theorem Ids.takeOver (h : Ids s) (budget : Nat) : Ids (s.takeOver budget) := by
  have queued : (s.takeOver budget).queued = [] := queued_eq_nil fun _ => rfl
  have none : (s.takeOver budget).queuedReplies = [] := by rw [queuedReplies, queued]; rfl
  refine h.mono ?_ rfl (by simp [queued]) (by simp [none]) fun e known => ?_
  · rw [queued]
    change s.len - s.queued.length = 0
    rw [h.counted, Nat.sub_self]
  · rcases known with here | here | ⟨t, pc, live, here⟩ | here
    · cases here
    · cases here
    · exact .inl (h.task live e here)
    · change e ∈ [] ++ (abandoned s.toDeviceQueue).map Prod.fst at here
      rcases mem_abandoned here with running | inside | draining
      · exact .inl (h.running e running)
      · exact .inr ⟨inside, by simp [none]⟩
      · exact .inl (h.draining e draining)

theorem Ids.drop (h : Ids s) (pc : WorkerPc) (dead : ∀ pc, state ≠ .live pc) :
    Ids (s.drop t pc state) := by
  have logged : ∀ r, Ids (s.logEnded r) := fun r => h.still rfl rfl rfl h.loose
  have none : state.entries = [] := by
    cases state with
    | live pc => exact absurd rfl (dead pc)
    | _ => rfl
  cases pc with
  | executing e at' => exact (logged e.reply).setTask (by simp [none])
  | _ => exact h.setTask (by simp [none])

theorem fresh_notMem (h : s.fresh e = true) :
    s.replies e.reply = [] ∧ ∀ e' ∈ s.accepted, e'.reply ≠ e.reply := by
  simp only [fresh, Shared.isSet, Bool.not_not, Bool.and_eq_true, List.isEmpty_iff,
    List.all_eq_true, decide_eq_true_eq] at h
  exact ⟨h.1.1, h.2⟩

/-- Accepting an entry with a reply of its own. -/
theorem Ids.push (h : Ids s) (fresh : ∀ e' ∈ s.accepted, e'.reply ≠ e.reply)
    (entries : s'.entries = Function.update s.entries prio (s.entries prio ++ [e]))
    (len : s'.len = s.len + 1) (accepted : s'.accepted = e :: s.accepted)
    (loose : ∀ e, s'.Loose e → s.Loose e) : Ids s' := by
  have perm := queued_push entries
  have replies : s'.queuedReplies.Perm (e.reply :: s.queuedReplies) := perm.map _
  have absent : e.reply ∉ s.queuedReplies := by
    intro inside
    obtain ⟨e', queued, same⟩ := List.mem_map.mp inside
    exact fresh e' (h.queued_accepted e' queued) same
  refine ⟨?_, ?_, ?_, ?_, fun e' known => ?_⟩
  · rw [len, perm.length_eq, List.length_cons, h.counted]
  · rw [accepted, List.map_cons, List.nodup_cons]
    refine ⟨fun inside => ?_, h.distinct⟩
    obtain ⟨e', before, same⟩ := List.mem_map.mp inside
    exact fresh e' before same
  · intro e' inside
    rw [accepted]
    rcases List.mem_cons.mp (perm.mem_iff.mp inside) with rfl | before
    · exact List.mem_cons_self
    · exact List.mem_cons_of_mem _ (h.queued_accepted e' before)
  · exact replies.nodup_iff.mpr (List.nodup_cons.mpr ⟨absent, h.queued_distinct⟩)
  · obtain ⟨before, left⟩ := h.loose e' (loose e' known)
    refine ⟨accepted ▸ List.mem_cons_of_mem _ before, fun inside => ?_⟩
    rcases List.mem_cons.mp (replies.mem_iff.mp inside) with same | inside
    · exact fresh e' before same
    · exact left inside

/-- Every step keeps the entries apart. -/
theorem Ids.step {label : Label} (h : Ids s) (move : Move policy s label s') : Ids s' := by
  have join := h.join
  cases move with
  | tick | raise | elsewhere | cancel | supervise | findsDead => exact h.still rfl rfl rfl h.loose
  | push fresh => exact h.push (fresh_notMem fresh).2 rfl rfl rfl fun _ => id
  | enter | revive => exact Ids.ensureWorker (h.still rfl rfl rfl h.loose)
  | shutdown | joinNone | joinTake | joined | abandonDone =>
    exact h.move_join rfl rfl rfl rfl rfl rfl fun e here => by cases here
  | joinedDead => exact h.takeOver _
  | @abort t pc budget => exact Ids.takeOver (h.drop pc fun _ eq => by cases eq) budget
  | skip at' | abandonFinishes at' =>
    rw [at'] at join
    refine h.move_join rfl rfl rfl rfl rfl rfl fun e' here => join e' ?_
    exact List.mem_cons_of_mem _ here
  | next at' | givesUp at' =>
    rw [at'] at join
    exact h.move_join rfl rfl rfl rfl rfl rfl fun e' here => join e' here
  | abandonSettles at' next =>
    rw [at'] at join
    refine h.move_join rfl rfl rfl rfl rfl rfl fun e' here => join e' ?_
    change e' ∈ _ :: _ at here
    rwa [Settling.next_entry next] at here
  | worker live move => exact h.workerMove live move
  | @panic t pc => exact h.drop pc fun _ eq => by cases eq

/-! ## Runs with one worker -/

/-- What holds in every run in which `join` is exclusive. -/
structure Regular (s : QueueState) : Prop where
  lineage : Lineage s
  alone : Alone s
  ids : Ids s

theorem Regular.new (policy : ControlPolicy) (shared : Shared) :
    Regular (QueueState.new policy shared) :=
  ⟨.new policy shared, .of_not_taken rfl, .new policy shared⟩

theorem Regular.step {label : Label} (h : Regular s) (ok : s.Exclusive label)
    (move : Move policy s label s') : Regular s' :=
  ⟨h.lineage.step move, h.alone.step h.lineage ok move, h.ids.step move⟩

theorem Regular.unique (h : Regular s) {t t' : TaskId} (live : s.Live t) (live' : s.Live t') :
    t = t' :=
  h.alone.unique h.lineage live live'

/-- The other tasks of a queue with a live worker are not live. -/
theorem Regular.only (h : Regular s) (live : s.tasks t = .live pc) {t' : TaskId} {pc' : WorkerPc}
    (live' : s.tasks t' = .live pc') : t' = t :=
  h.unique (live_of_tasks live') (live_of_tasks live)

/-- So after a step of the worker only it may be live. -/
theorem Regular.stepped (h : Regular s) (live : s.tasks t = .live pc) (steps : Steps t s s')
    {t' : TaskId} {pc' : WorkerPc} (live' : s'.tasks t' = .live pc') : t' = t := by
  by_contra differ
  rw [steps.tasks t' differ] at live'
  exact differ (h.only live live')

/-- No worker is live while `settle_abandoned` runs. -/
theorem Regular.abandoned (h : Regular s) {todo : List (QueuedEntry × RunResult)}
    {deadline : Instant} {current : Option Settling}
    (at' : s.join = .abandoning todo deadline current) : s.tasks t ≠ .live pc := by
  intro live
  have waited := h.alone.waited (by rw [at']; rfl) t (live_of_tasks live)
  rw [at'] at waited
  cases waited

end QueueState

end ForgeLink.Control
