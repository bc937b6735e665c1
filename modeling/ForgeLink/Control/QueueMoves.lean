import ForgeLink.Control.Queue

/-!
# What a step of the queue can do

`QueueState.Move` lists the steps of the queue with their guards and the state
each leads to.  It is proved once from the step function (`step_move`), and the
invariants of the queue are proved by cases on it.
-/

namespace ForgeLink.Control

namespace QueueState

variable {policy : ControlPolicy} {s s' : QueueState} {t : TaskId}

/-! ## Fields of the updates -/

@[simp] theorem setTask_tasks (s : QueueState) (t : TaskId) (state : TaskState) :
    (s.setTask t state).tasks = Function.update s.tasks t state := rfl

@[simp] theorem setReply_replies (s : QueueState) (r : ReplyId) (result : ControlResult) :
    (s.setReply r result).replies = Function.update s.replies r (s.replies r ++ [result]) := rfl

/-- A worker that is about to pick: a closed queue is drained first. -/
def prepared (s : QueueState) : QueueState :=
  let s := { s with closed := s.closed || s.flag }
  if s.closed then s.drain else s

/-- In a closed queue the worker gets to picking only if nothing is left to
drain while another worker runs an entry. -/
def Picks (s : QueueState) : Prop :=
  (s.closed || s.flag) = true → s.prepared.draining = [] ∧ s.running.isSome

/-- The worker before its loop, without what it takes over. -/
def cleared (s : QueueState) : QueueState := { s with running := none, draining := [] }

/-- The run that a worker which never started an entry settles it with. -/
def Declined (s : QueueState) (e : QueuedEntry) (run : RunResult) : Prop :=
  s.cancelled e.reply = true ∧ run = .cancelled ∨ e.deadline ≤ s.now ∧ run = .timeout

/-- How `run_entry` ends: the place it ends from, whether the call ended
without a definite outcome, and the run. -/
inductive Ends (policy : ControlPolicy) (s : QueueState) (e : QueuedEntry) :
    WorkerPc → Bool → RunResult → Prop where
  | declined {run} : Declined s e run → Ends policy s e (.starting e) false run
  | unconfigured {ns} :
      Ends policy s e (.starting e) false
        (.done (checkFailedResult policy (runBase e.key.deviceId ns) .unconfigured))
  | unchecked {at' failure} :
      Ends policy s e (.checking e at') false
        (.done (checkFailedResult policy (runBase e.key.deviceId at') failure))
  | checkCut {at' code message} :
      Ends policy s e (.checking e at') false (.indeterminate code message)
  | callCut {at' code message} :
      Ends policy s e (.executing e at') true (.indeterminate code message)
  | answered {at' outcome result} :
      e.operation.result (runBase e.key.deviceId at') outcome = some result →
      Ends policy s e (.executing e at') (RunResult.done result).unknown (.done result)

/-- The state in which an ended run is settled. -/
def ended (policy : ControlPolicy) (s : QueueState) (e : QueuedEntry) (unknown : Bool)
    (run : RunResult) : QueueState :=
  let s := if unknown then s.logEnded e.reply else s
  if run.unknown && policy.indeterminateCooldownMs > 0 then
    { s with cooldownUntil := some (s.now + millis policy.indeterminateCooldownMs) }
  else s

/-- The steps of a worker. -/
inductive WorkerMove (policy : ControlPolicy) (s : QueueState) (t : TaskId) :
    WorkerPc → Event → QueueState → Prop where
  | adoptRunning {ns e} :
      s.running = some e → s.isSet e.reply = false →
      WorkerMove policy s t .spawned (.begin ns)
        (s.cleared.startTracked t e
          (.indeterminate "QUEUE_WORKER_ABORTED" "控制队列 worker 异常终止，执行结果未知")
          (.adopt s.draining) ns)
  | adoptDraining {ns} :
      (∀ e, s.running = some e → s.isSet e.reply = true) →
      WorkerMove policy s t .spawned (.begin ns) (s.cleared.adopt t s.draining ns)
  | drains {ns e rest} :
      (s.closed || s.flag) = true → s.prepared.draining = e :: rest →
      WorkerMove policy s t .head (.round ns)
        (s.prepared.startTracked t e .cancelled .loop ns)
  | returns {ns} :
      (s.closed || s.flag) = true → s.prepared.draining = [] → s.running = none →
      WorkerMove policy s t .head (.round ns) (s.prepared.setTask t .returned)
  | waits {ns} :
      s.Picks → WorkerMove policy s t .head (.round ns) (s.prepared.setTask t (.live .idle))
  | declines {ns prio e rest run} :
      s.Picks → s.inCooldown = false → s.prepared.entries prio = e :: rest → Declined s e run →
      WorkerMove policy s t .head (.round ns)
        ((s.prepared.removeFront prio rest).startTracked t e run .loop ns)
  | starts {ns prio e rest} :
      s.Picks → s.inCooldown = false → s.prepared.entries prio = e :: rest →
      WorkerMove policy s t .head (.round ns)
        ({ s.prepared.removeFront prio rest with running := some e }.setTask t
          (.live (.starting e)))
  | wakes : WorkerMove policy s t .idle .wake (s.setTask t (.live .head))
  | checks {e ns} :
      WorkerMove policy s t (.starting e) (.poll ns) (s.setTask t (.live (.checking e ns)))
  | calls {e ns} : WorkerMove policy s t (.starting e) (.poll ns) (s.call t e ns)
  | callsChecked {e at' ns} :
      WorkerMove policy s t (.checking e at') (.checked none ns) (s.call t e at')
  | ends {pc event e unknown run ns} :
      Ends policy s e pc unknown run →
      WorkerMove policy s t pc event ((s.ended policy e unknown run).startSettle t e run .clear ns)
  | settles {st st' after event} :
      st.next event = some st' →
      WorkerMove policy s t (.settling st after) (.settle event)
        (s.setTask t (.live (.settling st' after)))
  | finishes {st after ns} :
      st.stage = .audit →
      WorkerMove policy s t (.settling st after) (.audited ns) (s.finish t st after ns)

/-! ## The worker's steps -/

theorem begin_move (ns : TimestampNs) :
    WorkerMove policy s t .spawned (.begin ns) (s.begin t ns) := by
  rw [begin]
  split
  next e orphan =>
    obtain ⟨here, unset⟩ := Option.filter_eq_some_iff.mp orphan
    exact .adoptRunning here (by simpa using unset)
  next none =>
    refine .adoptDraining fun e here => ?_
    rw [here] at none
    simpa [Option.filter_some] using none

theorem prepared_of_closed (h : (s.closed || s.flag) = true) :
    s.prepared = { s with closed := true }.drain := by
  have closed : ({ s with closed := s.closed || s.flag } : QueueState) =
    { s with closed := true } := by
    rw [h]
  rw [prepared, closed]
  rfl

theorem closed_of_open (h : (s.closed || s.flag) = false) :
    s.closed = false ∧ ({ s with closed := s.closed || s.flag } : QueueState) = s := by
  have same : s.closed = false := by
    cases closed : s.closed
    · rfl
    · simp [closed] at h
  exact ⟨same, by rw [h, ← same]⟩

theorem prepared_of_open (h : (s.closed || s.flag) = false) : s.prepared = s := by
  obtain ⟨same, eq⟩ := closed_of_open h
  rw [prepared, eq]
  exact if_neg (by rw [same]; exact Bool.false_ne_true)

theorem schedule_move {ns : TimestampNs} (picks : s.Picks)
    (cancelled : s.prepared.cancelled = s.cancelled) (now : s.prepared.now = s.now)
    (cooldown : s.prepared.cooldownUntil = s.cooldownUntil) :
    WorkerMove policy s t .head (.round ns) (s.prepared.schedule policy t ns) := by
  have cooling : s.prepared.inCooldown = s.inCooldown := by
    rw [inCooldown, inCooldown, cooldown, now]
  rw [schedule]
  split
  · exact .waits picks
  next ready =>
    have ready : s.inCooldown = false := by simpa [cooling] using ready
    split
    · exact .waits picks
    next prio _ =>
      split
      · exact .waits picks
      next e rest front =>
        dsimp only
        split
        next marked =>
          exact .declines picks ready front (.inl ⟨cancelled ▸ marked, rfl⟩)
        next =>
          split
          next late => exact .declines picks ready front (.inr ⟨now ▸ late, rfl⟩)
          next => exact .starts picks ready front

/-- A round of the worker is one of the moves. -/
theorem round_move (ns : TimestampNs) :
    WorkerMove policy s t .head (.round ns) (s.round policy t ns) := by
  cases h : s.closed || s.flag with
  | true =>
    have running : s.prepared.running = s.running := by
      rw [prepared_of_closed h, drain]
      split <;> rfl
    rw [round, h, if_pos rfl]
    dsimp only
    rw [← prepared_of_closed h]
    split
    next e rest front => exact .drains h front
    next empty =>
      split
      next none => exact .returns h empty (by simpa [running] using none)
      next some =>
        refine schedule_move (fun _ => ⟨empty, ?_⟩) ?_ ?_ ?_
        · simpa [running, Option.isSome_iff_ne_none] using some
        all_goals
          rw [prepared_of_closed h, drain]
          split <;> rfl
  | false =>
    have eq : s.round policy t ns = s.prepared.schedule policy t ns := by
      obtain ⟨same, eq⟩ := closed_of_open h
      rw [round, eq, prepared_of_open h]
      exact if_neg (by rw [same]; exact Bool.false_ne_true)
    rw [eq]
    refine schedule_move (fun closed => ?_) ?_ ?_ ?_
    · rw [h] at closed
      cases closed
    all_goals rw [prepared_of_open h]

/-- Every step of a worker is one of the moves. -/
theorem worker_move {pc : WorkerPc} {event : Event}
    (h : s.workerStep policy t pc event = some s') : WorkerMove policy s t pc event s' := by
  cases pc with
  | spawned =>
    cases event with
    | begin ns =>
      cases h
      exact begin_move ns
    | _ => cases h
  | head =>
    cases event with
    | round ns =>
      cases h
      exact round_move ns
    | _ => cases h
  | idle =>
    cases event with
    | wake =>
      cases h
      exact .wakes
    | _ => cases h
  | starting e =>
    cases event with
    | expire ns =>
      obtain ⟨late, ⟨⟩⟩ := Option.ite_none_right_eq_some.mp h
      exact .ends (.declined (.inr ⟨late, rfl⟩))
    | interrupt ns =>
      obtain ⟨marked, ⟨⟩⟩ := Option.ite_none_right_eq_some.mp h
      exact .ends (.declined (.inl ⟨marked, rfl⟩))
    | poll ns =>
      obtain ⟨_, ⟨⟩⟩ := Option.ite_none_right_eq_some.mp h
      rw [poll]
      split
      · exact .calls
      · split
        · exact .calls
        · split
          · exact .checks
          · exact .ends .unconfigured
    | _ => cases h
  | checking e startedAtNs =>
    cases event with
    | expire ns | interrupt ns =>
      obtain ⟨_, ⟨⟩⟩ := Option.ite_none_right_eq_some.mp h
      exact .ends .checkCut
    | checked failure ns =>
      cases failure with
      | none =>
        cases h
        exact .callsChecked
      | some failure =>
        cases h
        exact .ends .unchecked
    | _ => cases h
  | executing e startedAtNs =>
    cases event with
    | expire ns | interrupt ns =>
      obtain ⟨_, ⟨⟩⟩ := Option.ite_none_right_eq_some.mp h
      exact .ends .callCut
    | answer outcome ns =>
      obtain ⟨result, answered, rfl⟩ := Option.map_eq_some_iff.mp h
      exact .ends (.answered answered)
    | _ => cases h
  | settling st after =>
    cases event with
    | settle event =>
      obtain ⟨st', next, rfl⟩ := Option.map_eq_some_iff.mp h
      exact .settles next
    | audited ns =>
      obtain ⟨ready, ⟨⟩⟩ := Option.ite_none_right_eq_some.mp h
      exact .finishes ready
    | _ => cases h

/-- The fields in which a worker that is about to pick may change the queue. -/
theorem prepared_form (s : QueueState) :
    ∃ closed draining entries len, s.prepared = { s with closed, draining, entries, len } := by
  rw [prepared]
  dsimp only
  split
  · rw [drain]
    split <;> exact ⟨_, _, _, _, rfl⟩
  · exact ⟨_, _, _, _, rfl⟩

theorem ended_form (policy : ControlPolicy) (s : QueueState) (e : QueuedEntry) (unknown : Bool)
    (run : RunResult) :
    ∃ cooldownUntil log, s.ended policy e unknown run = { s with cooldownUntil, log } := by
  rw [ended]
  cases unknown <;> split <;> exact ⟨_, _, rfl⟩

/-! ## All steps -/

/-- A new worker and its supervisor. -/
def spawn (s : QueueState) : QueueState :=
  { s with
    worker := some s.nextTask
    tasks := Function.update s.tasks s.nextTask (.live .spawned)
    nextTask := s.nextTask + 1
    supervisors := s.supervisors + 1 }

/-- There is no worker, or the last one has finished. -/
def Lacks (s : QueueState) : Prop := ∀ t, s.worker = some t → (s.tasks t).isLive = false

theorem ensureWorker_eq (s : QueueState) :
    s.ensureWorker = s ∧ ¬s.Lacks ∨ s.ensureWorker = s.spawn ∧ s.Lacks := by
  cases handle : s.worker with
  | none =>
    refine .inr ⟨?_, fun t here => ?_⟩
    · rw [ensureWorker, handle]
      rfl
    · rw [handle] at here
      cases here
  | some t =>
    cases live : (s.tasks t).isLive with
    | true =>
      refine .inl ⟨?_, fun lacks => ?_⟩
      · rw [ensureWorker, handle]
        simp [live]
      · rw [lacks t handle] at live
        cases live
    | false =>
      refine .inr ⟨?_, fun t' here => ?_⟩
      · rw [ensureWorker, handle]
        simp [live, spawn]
      · rw [handle] at here
        cases here
        exact live

/-- What holds of the queue and of the queue with a new worker. -/
@[elab_as_elim]
theorem ensureWorker_of {P : QueueState → Prop} (same : P s) (spawned : s.Lacks → P s.spawn) :
    P s.ensureWorker := by
  rcases s.ensureWorker_eq with ⟨eq, _⟩ | ⟨eq, lacks⟩
  · rwa [eq]
  · exact eq ▸ spawned lacks

/-- The state after a supervisor's check. -/
def superviseTo (s : QueueState) (supervisors reviving : Nat) : QueueState :=
  { s with supervisors, reviving }

/-- The step of a queue, with its guards. -/
inductive Move (policy : ControlPolicy) (s : QueueState) : Label → QueueState → Prop where
  | tick {ns} : Move policy s (.tick ns) { s with now := s.now + ns }
  | raise : Move policy s .raise { s with flag := true }
  | elsewhere {r result} :
      (∀ e ∈ s.accepted, e.reply ≠ r) → Move policy s (.elsewhere r result) (s.setReply r result)
  | push {e prio} :
      s.fresh e = true → s.closed = false → s.flag = false →
      Move policy s (.push e)
        { s with
          entries := Function.update s.entries prio (s.entries prio ++ [e])
          len := s.len + 1
          entering := s.entering + 1
          log := .accepted e :: s.log }
  | enter : 0 < s.entering → Move policy s .enter s.enter
  | cancel {key cancelled} :
      (∀ r, cancelled r = true → s.cancelled r = true ∨
        ∃ e, (e ∈ s.queued ∨ s.running = some e) ∧ e.reply = r) →
      Move policy s (.cancel key) { s with cancelled }
  | supervise {n} : Move policy s .supervise (s.superviseTo n s.reviving)
  | findsDead {t : TaskId} {n} :
      s.flag = false → s.worker = some t → (s.tasks t).isLive = false →
      Move policy s .supervise (s.superviseTo n (s.reviving + 1))
  | revive :
      0 < s.reviving → Move policy s .revive { s with reviving := s.reviving - 1 }.ensureWorker
  | shutdown :
      s.flag = true → s.join = .idle →
      Move policy s .shutdown { s with closed := true, join := .closing }
  | joinNone :
      s.join = .closing → s.worker = none → Move policy s .join { s with join := .finished }
  | joinTake {t : TaskId} :
      s.join = .closing → s.worker = some t →
      Move policy s .join { s with worker := none, join := .waiting t }
  | joined {t : TaskId} {budget} :
      s.join = .waiting t → s.tasks t = .returned →
      Move policy s (.joined budget) { s with join := .finished }
  | joinedDead {t : TaskId} {budget} :
      s.join = .waiting t → s.tasks t = .panicked →
      Move policy s (.joined budget) (s.takeOver budget)
  | abort {t : TaskId} {pc budget} :
      s.join = .waiting t → s.tasks t = .live pc → pc.awaits = true →
      Move policy s (.abort budget) ((s.drop t pc .aborted).takeOver budget)
  | skip {e run todo deadline ns} :
      s.join = .abandoning ((e, run) :: todo) deadline none → s.isSet e.reply = true →
      Move policy s (.abandon (.next ns)) (s.setJoin (.abandoning todo deadline none))
  | next {e run todo deadline stage ns} :
      s.join = .abandoning ((e, run) :: todo) deadline none → s.isSet e.reply = false →
      stage = (if deadline ≤ s.now then Stage.audit else .gate) →
      Move policy s (.abandon (.next ns))
        { s with
          depth := s.depth - 1
          join := .abandoning todo deadline (some (.start e run stage ns)) }
  | abandonSettles {todo deadline st st' event} :
      s.join = .abandoning todo deadline (some st) → st.next event = some st' →
      Move policy s (.abandon (.settle event)) (s.setJoin (.abandoning todo deadline (some st')))
  | givesUp {todo deadline st} :
      s.join = .abandoning todo deadline (some st) → deadline ≤ s.now →
      Move policy s (.abandon .giveUp)
        (s.setJoin (.abandoning todo deadline (some { st with stage := .audit })))
  | abandonFinishes {todo deadline st} :
      s.join = .abandoning todo deadline (some st) → st.stage = .audit →
      Move policy s (.abandon .audited)
        ((s.setReply st.entry.reply st.result).setJoin (.abandoning todo deadline none))
  | abandonDone {deadline} :
      s.join = .abandoning [] deadline none →
      Move policy s (.abandon .done) (s.setJoin .finished)
  | worker {t : TaskId} {pc event} {s' : QueueState} :
      s.tasks t = .live pc → WorkerMove policy s t pc event s' →
      Move policy s (.worker t event) s'
  | panic {t : TaskId} {pc} :
      s.tasks t = .live pc → pc.awaits = true → Move policy s (.panic t) (s.drop t pc .panicked)

/-- Every step of `abandon` is one of the moves. -/
theorem abandon_move {join : JoinPc} {event : AbandonEvent} (at' : s.join = join)
    (h : s.abandonStep join event = some s') : Move policy s (.abandon event) s' := by
  cases join with
  | abandoning todo deadline current =>
    cases current with
    | none =>
      cases todo with
      | nil =>
        cases event with
        | done =>
          cases h
          exact .abandonDone at'
        | _ => cases h
      | cons first todo =>
        obtain ⟨e, run⟩ := first
        cases event with
        | next ns =>
          rw [abandonStep] at h
          split at h
          next set =>
            cases h
            exact .skip at' set
          next unset =>
            cases h
            exact .next at' (by simpa using unset) rfl
        | _ => cases h
    | some st =>
      cases event with
      | settle event =>
        rw [abandonStep] at h
        obtain ⟨st', next, rfl⟩ := Option.map_eq_some_iff.mp h
        exact .abandonSettles at' next
      | giveUp =>
        rw [abandonStep] at h
        obtain ⟨⟨late, _⟩, ⟨⟩⟩ := Option.ite_none_right_eq_some.mp h
        exact .givesUp at' late
      | audited =>
        rw [abandonStep] at h
        obtain ⟨ready, ⟨⟩⟩ := Option.ite_none_right_eq_some.mp h
        exact .abandonFinishes at' ready
      | next ns | done => cases todo <;> cases h
  | _ => cases h

theorem cancel_move (key : IdempotencyKey) : Move policy s (.cancel key) (s.cancel key).1 := by
  rw [cancel]
  split
  · exact .cancel fun _ => .inl
  · split
    next e found =>
      refine .cancel fun r marked => ?_
      by_cases same : r = e.reply
      · refine .inr ⟨e, ?_, same.symm⟩
        rcases Option.or_eq_some_iff.mp found with queued | ⟨_, running⟩
        · exact .inl (List.mem_of_find?_eq_some queued)
        · exact .inr (Option.filter_eq_some_iff.mp running).1
      · rw [Function.update_of_ne same] at marked
        exact .inl marked
    · exact .cancel fun _ => .inl

theorem supervise_move : Move policy s .supervise s.supervise := by
  rw [supervise]
  split
  · exact .supervise
  next down =>
    split
    next t handle =>
      split
      · exact .supervise
      next dead => exact .findsDead (by simpa using down) handle (by simpa using dead)
    · exact .supervise

/-- Every step is one of the moves. -/
theorem step_move {label : Label} (h : (queueMachine policy).step s label = some s') :
    Move policy s label s' := by
  cases label with
  | tick ns =>
    cases h
    exact .tick
  | raise =>
    cases h
    exact .raise
  | elsewhere r result =>
    obtain ⟨foreign, ⟨⟩⟩ := Option.ite_none_right_eq_some.mp h
    exact .elsewhere (by simpa using foreign)
  | push e =>
    obtain ⟨fresh, pushed⟩ := Option.ite_none_right_eq_some.mp h
    rw [push] at pushed
    split at pushed
    · cases pushed
    next opened =>
      split at pushed
      · cases pushed
      · cases pushed
        simp only [Bool.not_eq_true, Bool.or_eq_false_iff] at opened
        exact .push fresh opened.1 opened.2
  | enter =>
    obtain ⟨entering, ⟨⟩⟩ := Option.ite_none_right_eq_some.mp h
    exact .enter entering
  | cancel key =>
    cases h
    exact cancel_move key
  | supervise =>
    obtain ⟨_, ⟨⟩⟩ := Option.ite_none_right_eq_some.mp h
    exact supervise_move
  | revive =>
    obtain ⟨reviving, ⟨⟩⟩ := Option.ite_none_right_eq_some.mp h
    exact .revive reviving
  | shutdown =>
    obtain ⟨⟨flag, idle⟩, ⟨⟩⟩ := Option.ite_none_right_eq_some.mp h
    exact .shutdown flag idle
  | join =>
    obtain ⟨closing, taken⟩ := Option.ite_none_right_eq_some.mp h
    split at taken
    next none =>
      cases taken
      exact .joinNone closing none
    next t handle =>
      cases taken
      exact .joinTake closing handle
  | joined budget =>
    simp only [queueMachine, step] at h
    split at h
    next t waiting =>
      split at h
      next returned =>
        cases h
        exact .joined waiting returned
      next panicked =>
        cases h
        exact .joinedDead waiting panicked
      · cases h
    · cases h
  | abort budget =>
    simp only [queueMachine, step] at h
    split at h
    next t waiting =>
      split at h
      next pc live =>
        obtain ⟨awaits, ⟨⟩⟩ := Option.ite_none_right_eq_some.mp h
        exact .abort waiting live awaits
      · cases h
    · cases h
  | abandon event => exact abandon_move rfl h
  | worker t event =>
    simp only [queueMachine, step] at h
    split at h
    next pc live => exact .worker live (worker_move h)
    · cases h
  | panic t =>
    simp only [queueMachine, step] at h
    split at h
    next pc live =>
      obtain ⟨awaits, ⟨⟩⟩ := Option.ite_none_right_eq_some.mp h
      exact .panic live awaits
    · cases h

end QueueState

end ForgeLink.Control
