import ForgeLink.Control.QueueMoves

/-!
# Worker tasks

Which worker tasks are live.  Until `join` takes the handle, the only live
worker is the one the handle names (`Lineage`).  If at that moment no `enqueue`
and no supervisor is still to call `ensure_worker`, no worker is spawned after
it and the one `join` waits for stays the only one (`Alone`).
-/

namespace ForgeLink.Control

/-- `join` has taken the worker's handle. -/
def JoinPc.taken : JoinPc → Bool
  | .idle => false
  | .closing => false
  | _ => true

namespace QueueState

variable {policy : ControlPolicy} {s s' : QueueState} {t : TaskId} {pc : WorkerPc}

/-! ## What a worker leaves alone -/

/-- The fields a worker does not write, and `closed`, which it sets only when
the engine is closed. -/
structure Frame (s s' : QueueState) : Prop where
  now : s'.now = s.now
  flag : s'.flag = s.flag
  cancelled : s'.cancelled = s.cancelled
  worker : s'.worker = s.worker
  nextTask : s'.nextTask = s.nextTask
  join : s'.join = s.join
  entering : s'.entering = s.entering
  reviving : s'.reviving = s.reviving
  closes : s'.closed = true → s.closed = true ∨ s.flag = true
  closed : s.closed = true → s'.closed = true

/-- The fields of a `Frame`, in one piece. -/
def outer (s : QueueState) :=
  (s.now, s.flag, s.cancelled, s.worker, s.nextTask, s.join, s.entering, s.reviving)

theorem Frame.of_outer (outer : s'.outer = s.outer)
    (closes : s'.closed = true → s.closed = true ∨ s.flag = true)
    (closed : s.closed = true → s'.closed = true) : Frame s s' := by
  simp only [QueueState.outer, Prod.mk.injEq] at outer
  obtain ⟨now, flag, cancelled, worker, nextTask, join, entering, reviving⟩ := outer
  exact ⟨now, flag, cancelled, worker, nextTask, join, entering, reviving, closes, closed⟩

theorem Frame.same (outer : s'.outer = s.outer) (closed : s'.closed = s.closed) : Frame s s' :=
  .of_outer outer (fun h => .inl (closed ▸ h)) (fun h => closed.trans h)

theorem Frame.trans {s'' : QueueState} (h : Frame s s') (h' : Frame s' s'') : Frame s s'' where
  now := h'.now.trans h.now
  flag := h'.flag.trans h.flag
  cancelled := h'.cancelled.trans h.cancelled
  worker := h'.worker.trans h.worker
  nextTask := h'.nextTask.trans h.nextTask
  join := h'.join.trans h.join
  entering := h'.entering.trans h.entering
  reviving := h'.reviving.trans h.reviving
  closes closed := by
    rcases h'.closes closed with closed | flag
    · exact h.closes closed
    · exact .inr (h.flag ▸ flag)
  closed closed := h'.closed (h.closed closed)

theorem prepared_frame (s : QueueState) : Frame s s.prepared := by
  have drains : ∀ s : QueueState, Frame s s.drain := by
    intro s
    rw [drain]
    split <;> exact .same rfl rfl
  have first : Frame s { s with closed := s.closed || s.flag } :=
    .of_outer rfl (by simp) (fun h => by simp [h])
  rw [prepared]
  dsimp only
  split
  · exact first.trans (drains _)
  · exact first

@[simp] theorem prepared_tasks (s : QueueState) : s.prepared.tasks = s.tasks := by
  obtain ⟨_, _, _, _, eq⟩ := s.prepared_form
  rw [eq]

theorem ended_frame (e : QueuedEntry) (unknown : Bool) (run : RunResult) :
    Frame s (s.ended policy e unknown run) := by
  obtain ⟨_, _, eq⟩ := ended_form policy s e unknown run
  rw [eq]
  exact .same rfl rfl

@[simp] theorem ended_tasks (e : QueuedEntry) (unknown : Bool) (run : RunResult) :
    (s.ended policy e unknown run).tasks = s.tasks := by
  obtain ⟨_, _, eq⟩ := ended_form policy s e unknown run
  rw [eq]

/-- A step of one worker: the frame, and no other task moves. -/
structure Steps (t : TaskId) (s s' : QueueState) : Prop where
  frame : Frame s s'
  tasks : ∀ t', t' ≠ t → s'.tasks t' = s.tasks t'

theorem Steps.of_tasks {state : TaskState} (frame : Frame s s')
    (tasks : s'.tasks = Function.update s.tasks t state) : Steps t s s' := by
  refine ⟨frame, fun t' differ => ?_⟩
  rw [tasks, Function.update_of_ne differ]

theorem setTask_frame (state : TaskState) : Frame s (s.setTask t state) :=
  .same rfl rfl

theorem startSettle_frame (e : QueuedEntry) (run : RunResult) (after : After) (ns : TimestampNs) :
    Frame s (s.startSettle t e run after ns) :=
  .same rfl rfl

theorem startTracked_frame (e : QueuedEntry) (run : RunResult) (after : After) (ns : TimestampNs) :
    Frame s (s.startTracked t e run after ns) :=
  .same rfl rfl

/-- A worker goes to the next open entry. -/
theorem adopt_eq (s : QueueState) (t : TaskId) (rest : List QueuedEntry) (ns : TimestampNs) :
    (∀ e ∈ rest, s.isSet e.reply = true) ∧ s.adopt t rest ns = s.setTask t (.live .head) ∨
      ∃ before e rest', rest = before ++ e :: rest' ∧ (∀ e ∈ before, s.isSet e.reply = true) ∧
        s.isSet e.reply = false ∧
        s.adopt t rest ns = s.startTracked t e .cancelled (.adopt rest') ns := by
  induction rest with
  | nil => exact .inl ⟨by simp, rfl⟩
  | cons e rest ih =>
    cases set : s.isSet e.reply with
    | false =>
      refine .inr ⟨[], e, rest, rfl, by simp, set, ?_⟩
      simp [adopt, set]
    | true =>
      have skip : s.adopt t (e :: rest) ns = s.adopt t rest ns := by
        simp [adopt, set]
      rw [skip]
      rcases ih with ⟨all, eq⟩ | ⟨before, e', rest', split, all, unset, eq⟩
      · exact .inl ⟨by simpa [set] using all, eq⟩
      · exact .inr ⟨e :: before, e', rest', by simp [split], by simpa [set] using all,
          unset, eq⟩

theorem adopt_steps (rest : List QueuedEntry) (ns : TimestampNs) :
    Steps t s (s.adopt t rest ns) := by
  rcases adopt_eq s t rest ns with ⟨_, eq⟩ | ⟨_, e, rest', _, _, _, eq⟩
  · rw [eq]
    exact .of_tasks (setTask_frame _) rfl
  · rw [eq]
    exact .of_tasks (startTracked_frame e _ _ ns) rfl

theorem finish_steps (st : Settling) (after : After) (ns : TimestampNs) :
    Steps t s (s.finish t st after ns) := by
  have plain : ∀ s₀ : QueueState, Frame s s₀ → s₀.tasks = s.tasks →
      ∀ s', Steps t s₀ s' → Steps t s s' := fun s₀ frame tasks s' steps =>
    ⟨frame.trans steps.frame, fun t' differ => (steps.tasks t' differ).trans (by rw [tasks])⟩
  cases after with
  | clear | loop =>
    exact .of_tasks (.same rfl rfl) rfl
  | adopt rest =>
    exact plain (s.setReply st.entry.reply st.result).sweep
      (.same rfl rfl) rfl _ (adopt_steps rest ns)

/-- A worker moves no task but its own. -/
theorem WorkerMove.steps {event : Event} (move : WorkerMove policy s t pc event s') :
    Steps t s s' := by
  cases move with
  | adoptRunning | calls | callsChecked =>
    exact .of_tasks (.same rfl rfl) rfl
  | @adoptDraining ns _ =>
    have steps : Steps t s.cleared (s.cleared.adopt t s.draining ns) := adopt_steps _ _
    have first : Frame s s.cleared := .same rfl rfl
    exact ⟨first.trans steps.frame, steps.tasks⟩
  | @drains ns e =>
    exact .of_tasks (s.prepared_frame.trans (startTracked_frame e _ _ ns))
      (congrArg (Function.update · t _) s.prepared_tasks)
  | returns | waits =>
    exact .of_tasks (s.prepared_frame.trans (setTask_frame _))
      (congrArg (Function.update · t _) s.prepared_tasks)
  | @declines ns prio e rest run | starts =>
    exact .of_tasks (s.prepared_frame.trans (.same rfl rfl))
      (congrArg (Function.update · t _) s.prepared_tasks)
  | wakes | checks | settles => exact .of_tasks (setTask_frame _) rfl
  | @ends pc event e unknown run ns _ =>
    exact .of_tasks ((ended_frame e unknown run).trans (startSettle_frame e run .clear ns))
      (congrArg (Function.update · t _) (ended_tasks e unknown run))
  | @finishes st after ns _ => exact finish_steps st after ns

/-! ## Until the handle is taken -/

/-- A live task. -/
def Live (s : QueueState) (t : TaskId) : Prop := (s.tasks t).isLive = true

instance (s : QueueState) (t : TaskId) : Decidable (s.Live t) :=
  inferInstanceAs (Decidable (_ = _))

theorem live_of_tasks (h : s.tasks t = .live pc) : s.Live t := by
  rw [Live, h]
  rfl

/-- Tasks are born in order, the flag comes before the queue is closed and that
before `join`, and until `join` takes the handle it names the live worker. -/
structure Lineage (s : QueueState) : Prop where
  unborn : ∀ t, s.nextTask ≤ t → s.tasks t = .unborn
  handle : ∀ t, s.worker = some t → t < s.nextTask
  closing : s.join ≠ .idle → s.closed = true
  flagged : s.closed = true → s.flag = true
  lone : s.join.taken = false → ∀ t, s.Live t → s.worker = some t

theorem Lineage.new (policy : ControlPolicy) (shared : Shared) :
    Lineage (QueueState.new policy shared) where
  unborn _ _ := rfl
  handle t here := absurd here.symm (Option.some_ne_none t)
  closing differ := absurd rfl differ
  flagged closed := absurd closed Bool.false_ne_true
  lone _ _ live := absurd live Bool.false_ne_true

/-- A step of a worker. -/
theorem Lineage.steps (h : Lineage s) (live : s.Live t) (steps : Steps t s s') : Lineage s' := by
  obtain ⟨frame, tasks⟩ := steps
  have born : t < s.nextTask := by
    by_contra late
    rw [Live, h.unborn t (Nat.le_of_not_lt late)] at live
    cases live
  refine ⟨fun t' le => ?_, fun t' here => ?_, fun differ => ?_, fun closed => ?_,
    fun taken t' live' => ?_⟩
  · rw [frame.nextTask] at le
    rw [tasks t' (Nat.ne_of_gt (Nat.lt_of_lt_of_le born le))]
    exact h.unborn t' le
  · rw [frame.nextTask]
    exact h.handle t' (frame.worker ▸ here)
  · exact frame.closed (h.closing (frame.join ▸ differ))
  · rw [frame.flag]
    exact (frame.closes closed).elim h.flagged id
  · rw [frame.worker]
    rw [frame.join] at taken
    by_cases same : t' = t
    · exact same ▸ h.lone taken t live
    · exact h.lone taken t' (by rwa [Live, ← tasks t' same])

theorem spawn_tasks (s : QueueState) :
    s.spawn.tasks = Function.update s.tasks s.nextTask (.live .spawned) := rfl

/-- The live tasks of a queue with one more worker. -/
theorem live_of_spawn (h : s.spawn.tasks t = .live pc) : pc = .spawned ∨ s.tasks t = .live pc := by
  rw [spawn_tasks] at h
  by_cases same : t = s.nextTask
  · rw [same, Function.update_self] at h
    exact .inl (TaskState.live.inj h).symm
  · rw [Function.update_of_ne same] at h
    exact .inr h

/-- Until `join` takes the handle there is one live worker. -/
theorem Lineage.only (h : Lineage s) (fresh : s.join.taken = false) {t t' : TaskId}
    (live : s.Live t) (live' : s.Live t') : t = t' :=
  Option.some.inj ((h.lone fresh t live).symm.trans (h.lone fresh t' live'))

/-- The live tasks after the death of one. -/
theorem live_of_update {state : TaskState} {t' : TaskId} (dead : ∀ pc, state ≠ .live pc)
    (h : Function.update s.tasks t state t' = .live pc) : t' ≠ t ∧ s.tasks t' = .live pc := by
  by_cases same : t' = t
  · rw [same, Function.update_self] at h
    exact absurd h (dead pc)
  · rw [Function.update_of_ne same] at h
    exact ⟨same, h⟩

theorem Lineage.spawn (h : Lineage s) (lacks : s.Lacks) : Lineage s.spawn where
  unborn t le := by
    rw [spawn_tasks, Function.update_of_ne (Nat.ne_of_gt le)]
    exact h.unborn t (Nat.le_of_succ_le le)
  handle t here := by
    obtain rfl := Option.some.inj here
    exact Nat.lt_succ_self _
  closing := h.closing
  flagged := h.flagged
  lone taken t live := by
    -- Whoever was live was the handle, and the handle is not live.
    by_cases same : t = s.nextTask
    · exact same ▸ rfl
    · have before : s.Live t := by
        rwa [Live, spawn_tasks, Function.update_of_ne same] at live
      have := lacks t (h.lone taken t before)
      rw [Live, this] at before
      cases before

theorem Lineage.ensureWorker (h : Lineage s) : Lineage s.ensureWorker := by
  refine ensureWorker_of h fun lacks => ?_
  exact h.spawn lacks

theorem drop_steps (s : QueueState) (t : TaskId) (pc : WorkerPc) (state : TaskState) :
    Steps t s (s.drop t pc state) := by
  cases pc <;> exact .of_tasks (.same rfl rfl) rfl

/-- After the handle is taken, `join` moves on and no task moves. -/
theorem Lineage.move_join (h : Lineage s) (tasks : s'.tasks = s.tasks)
    (nextTask : s'.nextTask = s.nextTask) (flag : s'.flag = s.flag)
    (worker : ∀ t, s'.worker = some t → s.worker = some t) (closed : s.closed = true)
    (closed' : s'.closed = true) (taken : s'.join.taken = true) : Lineage s' where
  unborn t le := by
    rw [tasks]
    exact h.unborn t (nextTask ▸ le)
  handle t here := by
    rw [nextTask]
    exact h.handle t (worker t here)
  closing _ := closed'
  flagged _ := flag.trans (h.flagged closed)
  lone fresh := by
    rw [taken] at fresh
    cases fresh

/-- Every step keeps the order of the tasks. -/
theorem Lineage.step {label : Label} (h : Lineage s) (move : Move policy s label s') :
    Lineage s' := by
  have closed : ∀ {join}, s.join = join → join ≠ .idle → s.closed = true := fun eq differ =>
    h.closing (eq ▸ differ)
  cases move with
  | tick | elsewhere | push | cancel | supervise | findsDead =>
    exact ⟨h.unborn, h.handle, h.closing, h.flagged, h.lone⟩
  | raise => exact ⟨h.unborn, h.handle, h.closing, fun _ => rfl, h.lone⟩
  | enter | revive =>
    apply Lineage.ensureWorker
    exact ⟨h.unborn, h.handle, h.closing, h.flagged, h.lone⟩
  | shutdown flag idle =>
    exact ⟨h.unborn, h.handle, fun _ => rfl, fun _ => flag, fun _ => h.lone (by rw [idle]; rfl)⟩
  | joinNone at' | joined at' | skip at' | next at' | abandonSettles at' | givesUp at'
  | abandonFinishes at' | abandonDone at' =>
    exact h.move_join rfl rfl rfl (fun _ => id) (closed at' nofun) (closed at' nofun) rfl
  | joinTake at' =>
    exact h.move_join rfl rfl rfl (fun _ here => by cases here) (closed at' nofun)
      (closed at' nofun) rfl
  | joinedDead at' => exact h.move_join rfl rfl rfl (fun _ => id) (closed at' nofun) rfl rfl
  | @abort t pc budget at' live =>
    have dropped := h.steps (live_of_tasks live) (s.drop_steps t pc .aborted)
    have still := (s.drop_steps t pc .aborted).frame.closed (closed at' nofun)
    exact dropped.move_join rfl rfl rfl (fun _ => id) still rfl rfl
  | worker live move => exact h.steps (live_of_tasks live) move.steps
  | panic live => exact h.steps (live_of_tasks live) (s.drop_steps ..)

theorem Lineage.join_idle (h : Lineage s) (down : s.closed = false ∨ s.flag = false) :
    s.join = .idle := by
  by_contra differ
  have closed := h.closing differ
  rcases down with opened | lowered
  · rw [closed] at opened
    cases opened
  · rw [h.flagged closed] at lowered
    cases lowered

/-! ## After the handle is taken -/

/-- `join` takes the handle only when no call of `ensure_worker` is pending. -/
def Exclusive (s : QueueState) (label : Label) : Prop :=
  label = .join → s.entering = 0 ∧ s.reviving = 0

instance (s : QueueState) (label : Label) : Decidable (s.Exclusive label) :=
  inferInstanceAs (Decidable (_ → _))

/-- Once `join` has taken the handle no worker can be spawned, and the only
live one is the one it waits for. -/
structure Alone (s : QueueState) : Prop where
  quiet : s.join.taken = true → s.worker = none ∧ s.entering = 0 ∧ s.reviving = 0
  waited : s.join.taken = true → ∀ t, s.Live t → s.join = .waiting t

theorem Alone.of_not_taken (h : s.join.taken = false) : Alone s :=
  ⟨fun taken => absurd (h.symm.trans taken) Bool.false_ne_true,
    fun taken => absurd (h.symm.trans taken) Bool.false_ne_true⟩

theorem Alone.steps (h : Alone s) (live : s.Live t) (steps : Steps t s s') : Alone s' := by
  obtain ⟨frame, tasks⟩ := steps
  refine ⟨fun taken => ?_, fun taken t' live' => ?_⟩
  · rw [frame.worker, frame.entering, frame.reviving]
    exact h.quiet (frame.join ▸ taken)
  · rw [frame.join] at taken ⊢
    by_cases same : t' = t
    · exact same ▸ h.waited taken t live
    · exact h.waited taken t' (by rwa [Live, ← tasks t' same])

/-- `join` moves on after it stopped waiting. -/
theorem Alone.move_join (h : Alone s) (taken : s.join.taken = true)
    (gone : ∀ t, ¬s.Live t) (tasks : s'.tasks = s.tasks) (worker : s'.worker = s.worker)
    (entering : s'.entering = s.entering) (reviving : s'.reviving = s.reviving) : Alone s' := by
  refine ⟨fun _ => ?_, fun _ t live => ?_⟩
  · rw [worker, entering, reviving]
    exact h.quiet taken
  · exact absurd (by rwa [Live, ← tasks]) (gone t)

theorem not_live_of_tasks (h : s.tasks t = .returned ∨ s.tasks t = .panicked ∨
    s.tasks t = .aborted) :
    ¬s.Live t := by
  intro live
  rw [Live] at live
  rcases h with h | h | h <;> rw [h] at live <;> cases live

/-- An exclusive `join` leaves one worker at most. -/
theorem Alone.step {label : Label} (h : Alone s) (lineage : Lineage s) (ok : s.Exclusive label)
    (move : Move policy s label s') : Alone s' := by
  have idle : ∀ {s' : QueueState}, s.closed = false ∨ s.flag = false → s'.join = s.join →
      Alone s' := fun down eq =>
    .of_not_taken (by rw [eq, lineage.join_idle down]; rfl)
  have only : ∀ {t}, s.join = .waiting t → ¬s.Live t → ∀ t', ¬s.Live t' := by
    intro t waiting dead t' live
    have := h.waited (by rw [waiting]; rfl) t' live
    rw [waiting] at this
    cases this
    exact dead live
  have gone : ∀ {todo deadline current}, s.join = .abandoning todo deadline current →
      ∀ t, ¬s.Live t := fun eq t live => by
    have := h.waited (by rw [eq]; rfl) t live
    rw [eq] at this
    cases this
  cases move with
  | tick | raise | elsewhere | cancel | supervise => exact ⟨h.quiet, h.waited⟩
  | push _ opened => exact idle (.inl opened) rfl
  | enter entering =>
    have fresh : s.join.taken = false := by
      cases taken : s.join.taken with
      | false => rfl
      | true =>
        rw [(h.quiet taken).2.1] at entering
        cases entering
    refine .of_not_taken ?_
    rw [QueueState.enter]
    exact ensureWorker_of fresh fun _ => fresh
  | findsDead lowered => exact idle (.inr lowered) rfl
  | revive reviving =>
    have fresh : s.join.taken = false := by
      cases taken : s.join.taken with
      | false => rfl
      | true =>
        rw [(h.quiet taken).2.2] at reviving
        cases reviving
    exact .of_not_taken (ensureWorker_of fresh fun _ => fresh)
  | shutdown => exact .of_not_taken rfl
  | joinNone at' none =>
    have fresh : s.join.taken = false := by rw [at']; rfl
    refine ⟨fun _ => ⟨none, ok rfl⟩, fun _ t live => ?_⟩
    have := lineage.lone fresh t live
    rw [none] at this
    cases this
  | @joinTake t at' handle =>
    have fresh : s.join.taken = false := by rw [at']; rfl
    refine ⟨fun _ => ⟨rfl, ok rfl⟩, fun _ t' live => ?_⟩
    have := lineage.lone fresh t' live
    rw [handle] at this
    obtain rfl := Option.some.inj this
    rfl
  | joined at' returned =>
    exact h.move_join (by rw [at']; rfl) (only at' (not_live_of_tasks (.inl returned))) rfl rfl
      rfl rfl
  | joinedDead at' panicked =>
    exact h.move_join (by rw [at']; rfl)
      (only at' (not_live_of_tasks (.inr (.inl panicked)))) rfl rfl rfl rfl
  | @abort t pc budget at' live =>
    have steps := s.drop_steps t pc .aborted
    have dropped := h.steps (live_of_tasks live) steps
    have waiting : (s.drop t pc .aborted).join = .waiting t := steps.frame.join.trans at'
    have dead : ∀ t', ¬(s.drop t pc .aborted).Live t' := by
      intro t' live'
      have := dropped.waited (by rw [waiting]; rfl) t' live'
      rw [waiting] at this
      cases this
      refine absurd live' (not_live_of_tasks (.inr (.inr ?_)))
      cases pc <;> exact Function.update_self ..
    exact dropped.move_join (by rw [waiting]; rfl) dead rfl rfl rfl rfl
  | skip at' | next at' | abandonSettles at' | givesUp at' | abandonFinishes at'
  | abandonDone at' =>
    exact h.move_join (by rw [at']; rfl) (gone at') rfl rfl rfl rfl
  | worker live move => exact h.steps (live_of_tasks live) move.steps
  | panic live => exact h.steps (live_of_tasks live) (s.drop_steps ..)

/-- At most one worker is live. -/
theorem Alone.unique (h : Alone s) (lineage : Lineage s) {t t' : TaskId} (live : s.Live t)
    (live' : s.Live t') : t = t' := by
  cases taken : s.join.taken with
  | false => exact lineage.only taken live live'
  | true =>
    have same := (h.waited taken t live).symm.trans (h.waited taken t' live')
    cases same
    rfl

end QueueState

end ForgeLink.Control
