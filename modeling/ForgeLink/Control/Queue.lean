import ForgeLink.Control.Operation
import ForgeLink.Lib.Run

/-!
# The device queue

`queue.rs`: the bounded queue of one device, its worker task, the supervisor
that respawns a dead worker, and the shutdown that waits for the worker and
takes over what it left.

The state is everything that the steps of these tasks read and write.  A task
is stepped from one await point to the next; a panic and a forced abort take
effect at an await point.  `enqueue` is two steps, as the source takes two
locks: the critical section that accepts the entry, and `ensure_worker`.  The
supervisor's check and its `ensure_worker` are two steps as well, and so are
taking the worker's handle in `join` and waiting for it.

A reply keeps every result it was given (`Shared.replies`), and `log` records
the accepted entries, the executor calls, and the calls that ended without a
definite outcome.  Nothing in the queue reads either record except for whether
a reply is set.
-/

namespace ForgeLink.Control

/-- A `SharedResult`; the entry's `CancellationToken` goes by the same name. -/
abbrev ReplyId := Nat

/-- A spawned worker task. -/
abbrev TaskId := Nat

/-! ## The state -/

/-- `QueuedEntry`, without the fields that only the audit reads. -/
structure QueuedEntry where
  reply : ReplyId
  key : IdempotencyKey
  operation : ValidatedOperation
  deadline : Instant
  queuedAtNs : TimestampNs
deriving DecidableEq, Repr

/-- Where `settle_entry` waits: for a journal permit, for the journal job, to
be resumed after it, and for the audit. -/
inductive Stage where
  | gate
  | flying
  | written (ok : Bool)
  | audit
deriving DecidableEq, Repr

/-- A call of `settle_entry` in progress. -/
structure Settling where
  entry : QueuedEntry
  result : ControlResult
  stage : Stage
deriving DecidableEq, Repr

/-- What the worker does after a settlement: adopt the next entry a dead worker
left behind, go on with its loop, or clear `running` first. -/
inductive After where
  | adopt (rest : List QueuedEntry)
  | loop
  | clear
deriving DecidableEq, Repr

/-- Where a worker is.  `head` and `starting` lie between await points. -/
inductive WorkerPc where
  | spawned
  | head
  | idle
  | starting (entry : QueuedEntry)
  | checking (entry : QueuedEntry) (startedAtNs : TimestampNs)
  | executing (entry : QueuedEntry) (startedAtNs : TimestampNs)
  | settling (settling : Settling) (after : After)
deriving DecidableEq, Repr

/-- A worker task. -/
inductive TaskState where
  | unborn
  | live (pc : WorkerPc)
  | returned
  | panicked
  | aborted
deriving DecidableEq, Repr

/-- `shutdown` and `join` of the queue.  `abandoning` is `settle_abandoned`:
what it took over, its deadline, and the entry it is settling. -/
inductive JoinPc where
  | idle
  | closing
  | waiting (task : TaskId)
  | abandoning (todo : List (QueuedEntry × RunResult)) (deadline : Instant)
      (current : Option Settling)
  | finished
deriving DecidableEq, Repr

/-- What the log records. -/
inductive QueueEvent where
  | accepted (entry : QueuedEntry)
  | called (entry : QueuedEntry) (time : Instant)
  | ended (reply : ReplyId) (time : Instant)
deriving DecidableEq, Repr

/-- What the queues share with the engine: the clock, the engine's closed flag
and the results of the replies, oldest first. -/
@[ext]
structure Shared where
  now : Instant
  flag : Bool
  replies : ReplyId → List ControlResult

/-- `DeviceQueue` with its `QueueInner`, its tasks, and the calls in progress. -/
structure DeviceQueue where
  entries : Priority → List QueuedEntry
  capacity : Nat
  closed : Bool
  len : Nat
  running : Option QueuedEntry
  draining : List QueuedEntry
  cooldownUntil : Option Instant
  worker : Option TaskId
  tasks : TaskId → TaskState
  nextTask : TaskId
  /-- Calls of `enqueue` between the critical section and `ensure_worker`. -/
  entering : Nat
  /-- Supervisors asleep. -/
  supervisors : Nat
  /-- Supervisors that found the worker dead and have not called
  `ensure_worker` yet. -/
  reviving : Nat
  join : JoinPc
  cancelled : ReplyId → Bool
  /-- The queue depth gauge of the device. -/
  depth : Nat
  log : List QueueEvent

/-- A queue together with what it shares. -/
structure QueueState extends Shared, DeviceQueue

/-- An empty queue. -/
def DeviceQueue.new (capacity : Nat) : DeviceQueue where
  entries _ := []
  capacity := capacity
  closed := false
  len := 0
  running := none
  draining := []
  cooldownUntil := none
  worker := none
  tasks _ := .unborn
  nextTask := 0
  entering := 0
  supervisors := 0
  reviving := 0
  join := .idle
  cancelled _ := false
  depth := 0
  log := []

/-- A reply was sent. -/
def Shared.isSet (s : Shared) (r : ReplyId) : Bool := !(s.replies r).isEmpty

/-- Every queued entry, in the order in which the queue is emptied. -/
def DeviceQueue.queued (q : DeviceQueue) : List QueuedEntry :=
  Priority.ascending.flatMap q.entries

/-- The entries the queue has accepted. -/
def DeviceQueue.accepted (q : DeviceQueue) : List QueuedEntry :=
  q.log.filterMap fun
    | .accepted e => some e
    | _ => none

/-- The replies of the entries for which the executor was called. -/
def DeviceQueue.called (q : DeviceQueue) : List ReplyId :=
  q.log.filterMap fun
    | .called e _ => some e.reply
    | _ => none

/-- The task has not finished. -/
def TaskState.isLive : TaskState → Bool
  | .live _ => true
  | _ => false

/-- The worker can be dropped here: it waits, or it has not been polled. -/
def WorkerPc.awaits : WorkerPc → Bool
  | .head => false
  | .starting _ => false
  | _ => true

/-- The queue waits after an indeterminate outcome. -/
def QueueState.inCooldown (s : QueueState) : Bool :=
  match s.cooldownUntil with
  | some t => s.now < t
  | none => false

/-! ## Settling -/

/-- The journal's part in a settlement. -/
inductive SettleEvent where
  | permit
  | written (ok : Bool)
  | resume
deriving DecidableEq, Repr

/-- `settle_entry` up to the audit. -/
def Settling.next (st : Settling) : SettleEvent → Option Settling
  | .permit => if st.stage = .gate then some { st with stage := .flying } else none
  | .written ok => if st.stage = .flying then some { st with stage := .written ok } else none
  | .resume =>
    match st.stage with
    | .written true => some { st with stage := .audit }
    | .written false =>
      some { st with stage := .audit, result := journalSettleFailed st.result }
    | _ => none

/-- The start of `settle_entry`. -/
def Settling.start (e : QueuedEntry) (run : RunResult) (stage : Stage) (ns : TimestampNs) :
    Settling :=
  { entry := e, result := settledResult e.key run ns, stage }

namespace QueueState

/-- Move a task. -/
def setTask (s : QueueState) (t : TaskId) (state : TaskState) : QueueState :=
  { s with tasks := Function.update s.tasks t state }

/-- Move the shutdown. -/
def setJoin (s : QueueState) (join : JoinPc) : QueueState := { s with join }

/-- `SharedResult::set`. -/
def setReply (s : QueueState) (r : ReplyId) (result : ControlResult) : QueueState :=
  { s with replies := Function.update s.replies r (s.replies r ++ [result]) }

/-- A worker enters `settle_entry`. -/
def startSettle (s : QueueState) (t : TaskId) (e : QueuedEntry) (run : RunResult) (after : After)
    (ns : TimestampNs) : QueueState :=
  { s with depth := s.depth - 1 }.setTask t
    (.live (.settling (.start e run .gate ns) after))

/-- `settle_tracked` up to its first await: the entry goes into `draining`. -/
def startTracked (s : QueueState) (t : TaskId) (e : QueuedEntry) (run : RunResult) (after : After)
    (ns : TimestampNs) : QueueState :=
  { s with draining := s.draining ++ [e] }.startSettle t e run after ns

/-- The end of `settle_tracked`: drop the settled entries at the front. -/
def sweep (s : QueueState) : QueueState :=
  { s with draining := s.draining.dropWhile fun e => s.isSet e.reply }

/-- The loop over the entries a dead worker left in `draining`. -/
def adopt (s : QueueState) (t : TaskId) (rest : List QueuedEntry) (ns : TimestampNs) :
    QueueState :=
  match rest.dropWhile fun e => s.isSet e.reply with
  | [] => s.setTask t (.live .head)
  | e :: rest => s.startTracked t e .cancelled (.adopt rest) ns

/-- `worker_loop` before its loop: take over what a dead worker left. -/
def begin (s : QueueState) (t : TaskId) (ns : TimestampNs) : QueueState :=
  let s' : QueueState := { s with running := none, draining := [] }
  match s.running.filter fun e => !s.isSet e.reply with
  | some e =>
    s'.startTracked t e (.indeterminate "QUEUE_WORKER_ABORTED" "控制队列 worker 异常终止，执行结果未知")
      (.adopt s.draining) ns
  | none => s'.adopt t s.draining ns

/-- The end of a settlement by a worker. -/
def finish (s : QueueState) (t : TaskId) (st : Settling) (after : After) (ns : TimestampNs) :
    QueueState :=
  let s := s.setReply st.entry.reply st.result
  match after with
  | .clear => { s with running := none }.setTask t (.live .head)
  | .loop => s.sweep.setTask t (.live .head)
  | .adopt rest => s.sweep.adopt t rest ns

/-! ## Picking an entry -/

/-- The entry is neither cancelled nor past its deadline. -/
def ready (s : QueueState) (e : QueuedEntry) : Bool :=
  !s.cancelled e.reply && s.now < e.deadline

/-- The effective priority of the front entry of a class: its own, raised one
level for every aging period it has waited. -/
def effective (policy : ControlPolicy) (s : QueueState) (nowNs : TimestampNs) (prio : Priority)
    (front : QueuedEntry) : Int :=
  let base := prio.toInt
  let boost :=
    if policy.priorityAgingMs > 0 ∧ s.ready front then
      let waitedMs := (saturate (nowNs - front.queuedAtNs)).tdiv 1000000
      max 0 (min (3 - base) (waitedMs.tdiv (asI64 policy.priorityAgingMs)))
    else 0
  base + boost

/-- The scan from the highest class down: a later class wins only if it is
strictly better. -/
def best (policy : ControlPolicy) (s : QueueState) (nowNs : TimestampNs) :
    List Priority → Option (Int × Priority) → Option (Int × Priority)
  | [], best => best
  | prio :: rest, best =>
    match s.entries prio with
    | [] => s.best policy nowNs rest best
    | front :: _ =>
      let eff := s.effective policy nowNs prio front
      match best with
      | some (bestEff, p) =>
        s.best policy nowNs rest
          (if eff > bestEff then some (eff, prio) else some (bestEff, p))
      | none => s.best policy nowNs rest (some (eff, prio))

/-- The class the worker picks from. -/
def pick (policy : ControlPolicy) (s : QueueState) (nowNs : TimestampNs) : Option Priority :=
  (s.best policy nowNs Priority.ascending.reverse none).map Prod.snd

/-- Take an entry off the front of its class. -/
def removeFront (s : QueueState) (prio : Priority) (rest : List QueuedEntry) : QueueState :=
  { s with entries := Function.update s.entries prio rest, len := s.len - 1 }

/-- The second half of a round: wait out a cooldown, or pick an entry, settle it
if it is cancelled or expired, and start it otherwise. -/
def schedule (policy : ControlPolicy) (s : QueueState) (t : TaskId) (nowNs : TimestampNs) :
    QueueState :=
  if s.inCooldown then s.setTask t (.live .idle)
  else
    match s.pick policy nowNs with
    | none => s.setTask t (.live .idle)
    | some prio =>
      match s.entries prio with
      | [] => s.setTask t (.live .idle)
      | e :: rest =>
        let s := s.removeFront prio rest
        if s.cancelled e.reply then s.startTracked t e .cancelled .loop nowNs
        else if e.deadline ≤ s.now then s.startTracked t e .timeout .loop nowNs
        else { s with running := some e }.setTask t (.live (.starting e))

/-- Move every queued entry into `draining`. -/
def drain (s : QueueState) : QueueState :=
  if s.len > 0 then
    { s with draining := s.draining ++ s.queued, entries := fun _ => [], len := 0 }
  else s

/-- One round of the worker's loop.  A closed queue starts nothing: its entries
are settled as cancelled, one at a time from the front of `draining`. -/
def round (policy : ControlPolicy) (s : QueueState) (t : TaskId) (nowNs : TimestampNs) :
    QueueState :=
  let s := { s with closed := s.closed || s.flag }
  if s.closed then
    let s := s.drain
    match s.draining with
    | e :: _ => s.startTracked t e .cancelled .loop nowNs
    | [] =>
      if s.running.isNone then s.setTask t .returned else s.schedule policy t nowNs
  else s.schedule policy t nowNs

/-! ## Running an entry -/

/-- The executor is called for the entry. -/
def call (s : QueueState) (t : TaskId) (e : QueuedEntry) (startedAtNs : TimestampNs) :
    QueueState :=
  { s with log := .called e s.now :: s.log }.setTask t (.live (.executing e startedAtNs))

/-- The first poll of the executor future. -/
def poll (policy : ControlPolicy) (s : QueueState) (t : TaskId) (e : QueuedEntry)
    (ns : TimestampNs) : QueueState :=
  match e.operation with
  | .write _ => s.call t e ns
  | .execute _ preconditions =>
    if preconditions.isEmpty then s.call t e ns
    else if policy.preconditionChecker then s.setTask t (.live (.checking e ns))
    else
      s.startSettle t e
        (.done (checkFailedResult policy (runBase e.key.deviceId ns) .unconfigured)) .clear ns

/-- The end of `run_entry`: an unknown outcome starts the cooldown. -/
def endRun (policy : ControlPolicy) (s : QueueState) (t : TaskId) (e : QueuedEntry)
    (run : RunResult) (ns : TimestampNs) : QueueState :=
  let s :=
    if run.unknown && policy.indeterminateCooldownMs > 0 then
      { s with cooldownUntil := some (s.now + millis policy.indeterminateCooldownMs) }
    else s
  s.startSettle t e run .clear ns

/-- Record that a call ended without a definite outcome. -/
def logEnded (s : QueueState) (r : ReplyId) : QueueState :=
  { s with log := .ended r s.now :: s.log }

/-! ## Worker steps -/

/-- What happens to a worker. -/
inductive Event where
  | begin (ns : TimestampNs)
  | round (ns : TimestampNs)
  | wake
  | expire (ns : TimestampNs)
  | interrupt (ns : TimestampNs)
  | poll (ns : TimestampNs)
  | checked (failure : Option CheckFailure) (ns : TimestampNs)
  | answer (outcome : Outcome) (ns : TimestampNs)
  | settle (event : SettleEvent)
  | audited (ns : TimestampNs)
deriving DecidableEq, Repr

/-- A started run is cut short by its deadline or by a cancel. -/
def cutShort (policy : ControlPolicy) (s : QueueState) (t : TaskId) (e : QueuedEntry)
    (called : Bool) (code message : String) (ns : TimestampNs) : QueueState :=
  let s := if called then s.logEnded e.reply else s
  s.endRun policy t e (.indeterminate code message) ns

/-- The texts of a run that its deadline cut short. -/
def timeoutMessage : String := "控制请求超时且结果不确定（驱动可能已下发）"

/-- The texts of a run that a cancel cut short. -/
def cancelMessage : String := "控制请求已取消且结果不确定（驱动可能已下发）"

/-- One step of a worker from one await point to the next. -/
def workerStep (policy : ControlPolicy) (s : QueueState) (t : TaskId) :
    WorkerPc → Event → Option QueueState
  | .spawned, .begin ns => some (s.begin t ns)
  | .head, .round ns => some (s.round policy t ns)
  | .idle, .wake => some (s.setTask t (.live .head))
  | .starting e, .expire ns =>
    if e.deadline ≤ s.now then some (s.endRun policy t e .timeout ns) else none
  | .starting e, .interrupt ns =>
    if s.cancelled e.reply then some (s.endRun policy t e .cancelled ns) else none
  | .starting e, .poll ns =>
    if s.now < e.deadline then some (s.poll policy t e ns) else none
  | .checking e _, .expire ns =>
    if e.deadline ≤ s.now then some (s.cutShort policy t e false "TIMEOUT" timeoutMessage ns)
    else none
  | .checking e _, .interrupt ns =>
    if s.cancelled e.reply then some (s.cutShort policy t e false "CANCELLED" cancelMessage ns)
    else none
  | .checking e startedAtNs, .checked none _ => some (s.call t e startedAtNs)
  | .checking e startedAtNs, .checked (some failure) ns =>
    some (s.endRun policy t e
      (.done (checkFailedResult policy (runBase e.key.deviceId startedAtNs) failure)) ns)
  | .executing e _, .expire ns =>
    if e.deadline ≤ s.now then some (s.cutShort policy t e true "TIMEOUT" timeoutMessage ns)
    else none
  | .executing e _, .interrupt ns =>
    if s.cancelled e.reply then some (s.cutShort policy t e true "CANCELLED" cancelMessage ns)
    else none
  | .executing e startedAtNs, .answer outcome ns =>
    (e.operation.result (runBase e.key.deviceId startedAtNs) outcome).map fun result =>
      let run := RunResult.done result
      (if run.unknown then s.logEnded e.reply else s).endRun policy t e run ns
  | .settling st after, .settle event =>
    (st.next event).map fun st => s.setTask t (.live (.settling st after))
  | .settling st after, .audited ns =>
    if st.stage = .audit then some (s.finish t st after ns) else none
  | _, _ => none

/-! ## Enqueue, cancel and supervision -/

/-- `ensure_worker`: spawn a worker and its supervisor if there is no worker or
the last one has finished. -/
def ensureWorker (s : QueueState) : QueueState :=
  let spawn := match s.worker with
    | none => true
    | some t => !(s.tasks t).isLive
  if spawn then
    { s with
      worker := some s.nextTask
      tasks := Function.update s.tasks s.nextTask (.live .spawned)
      nextTask := s.nextTask + 1
      supervisors := s.supervisors + 1 }
  else s

/-- Why a request is not accepted. -/
inductive EnqueueError where
  | full (capacity : Nat)
  | closed
deriving DecidableEq, Repr

/-- The critical section of `enqueue`. -/
def push (policy : ControlPolicy) (s : QueueState) (e : QueuedEntry) :
    Except EnqueueError QueueState :=
  if s.closed || s.flag then .error .closed
  else if s.len ≥ s.capacity then .error (.full s.capacity)
  else
    let prio := policy.priority e.operation.kind
    .ok { s with
      entries := Function.update s.entries prio (s.entries prio ++ [e])
      len := s.len + 1
      entering := s.entering + 1
      log := .accepted e :: s.log }

/-- The rest of `enqueue`. -/
def enter (s : QueueState) : QueueState :=
  { s with entering := s.entering - 1, depth := s.depth + 1 }.ensureWorker

/-- An entry carries a `SharedResult` and a token of its own. -/
def fresh (s : QueueState) (e : QueuedEntry) : Bool :=
  !s.isSet e.reply && !s.cancelled e.reply && s.accepted.all fun e' => e'.reply ≠ e.reply

/-- What `cancel` answers. -/
inductive CancelOutcome where
  | marked
  | notFound
  | closed
deriving DecidableEq, Repr

/-- A request is cancelled by namespace and request id. -/
def named (key : IdempotencyKey) (e : QueuedEntry) : Bool :=
  e.key.ns = key.ns && e.key.requestId = key.requestId

/-- `cancel`: the first queued entry of that name, else the running one. -/
def cancel (s : QueueState) (key : IdempotencyKey) : QueueState × CancelOutcome :=
  if s.closed then (s, .closed)
  else
    match (s.queued.find? (named key)).or (s.running.filter (named key)) with
    | some e => ({ s with cancelled := Function.update s.cancelled e.reply true }, .marked)
    | none => (s, .notFound)

/-- A supervisor wakes up: it ends if the engine is closed, goes on to
`ensure_worker` if the worker has finished, and sleeps again otherwise. -/
def supervise (s : QueueState) : QueueState :=
  if s.flag then { s with supervisors := s.supervisors - 1 }
  else
    match s.worker with
    | some t =>
      if (s.tasks t).isLive then s
      else { s with supervisors := s.supervisors - 1, reviving := s.reviving + 1 }
    | none => s

/-! ## Shutdown -/

/-- A worker is dropped at an await point. -/
def drop (s : QueueState) (t : TaskId) (pc : WorkerPc) (state : TaskState) : QueueState :=
  let s := match pc with
    | .executing e _ => s.logEnded e.reply
    | _ => s
  s.setTask t state

/-- The entries a `settle_abandoned` takes over, and how it settles each. -/
def abandoned (q : DeviceQueue) : List (QueuedEntry × RunResult) :=
  (q.running.map fun e =>
      (e, RunResult.indeterminate "QUEUE_WORKER_ABORTED"
        "控制队列强制中止，执行结果未知（驱动可能已下发）")).toList ++
    (q.queued ++ q.draining).map fun e => (e, RunResult.cancelled)

/-- The critical section of `settle_abandoned`. -/
def takeOver (s : QueueState) (budget : Nat) : QueueState :=
  { s with
    closed := true
    running := none
    entries := fun _ => []
    draining := []
    len := s.len - s.queued.length
    join := .abandoning (abandoned s.toDeviceQueue) (s.now + budget) none }

/-- What happens to `settle_abandoned`. -/
inductive AbandonEvent where
  | next (ns : TimestampNs)
  | settle (event : SettleEvent)
  | giveUp
  | audited
  | done
deriving DecidableEq, Repr

/-- `settle_abandoned` after its critical section: it settles the entries that
are still without a result, and stops waiting for the journal at its deadline. -/
def abandonStep (s : QueueState) : JoinPc → AbandonEvent → Option QueueState
  | .abandoning ((e, run) :: todo) deadline none, .next ns =>
    if s.isSet e.reply then some { s with join := .abandoning todo deadline none }
    else
      let stage := if deadline ≤ s.now then Stage.audit else .gate
      some { s with
        depth := s.depth - 1
        join := .abandoning todo deadline (some (.start e run stage ns)) }
  | .abandoning todo deadline (some st), .settle event =>
    (st.next event).map fun st => { s with join := .abandoning todo deadline (some st) }
  | .abandoning todo deadline (some st), .giveUp =>
    -- A journal job that has answered is seen before the deadline is.
    if deadline ≤ s.now ∧ (st.stage = .gate ∨ st.stage = .flying) then
      some { s with join := .abandoning todo deadline (some { st with stage := .audit }) }
    else none
  | .abandoning todo deadline (some st), .audited =>
    if st.stage = .audit then
      some ((s.setReply st.entry.reply st.result).setJoin (.abandoning todo deadline none))
    else none
  | .abandoning [] _ none, .done => some { s with join := .finished }
  | _, _ => none

/-! ## The machine -/

/-- A step of the queue and its surroundings. -/
inductive Label where
  /-- Time passes. -/
  | tick (ns : Nat)
  /-- The engine raises its closed flag. -/
  | raise
  /-- Someone sets a reply that no entry of this queue carries. -/
  | elsewhere (reply : ReplyId) (result : ControlResult)
  | push (entry : QueuedEntry)
  | enter
  | cancel (key : IdempotencyKey)
  | supervise
  | revive
  | shutdown
  /-- `join` takes the worker's handle. -/
  | join
  /-- The worker finishes while `join` waits. -/
  | joined (budget : Nat)
  /-- The grace period is over and the worker is aborted. -/
  | abort (budget : Nat)
  | abandon (event : AbandonEvent)
  | worker (task : TaskId) (event : Event)
  | panic (task : TaskId)
deriving DecidableEq, Repr

/-- One step, if it is enabled. -/
def step (policy : ControlPolicy) (s : QueueState) : Label → Option QueueState
  | .tick ns => some { s with now := s.now + ns }
  | .raise => some { s with flag := true }
  | .elsewhere r result =>
    if s.accepted.all fun e => e.reply ≠ r then some (s.setReply r result) else none
  | .push e => if s.fresh e then (s.push policy e).toOption else none
  | .enter => if s.entering > 0 then some s.enter else none
  | .cancel key => some (s.cancel key).1
  | .supervise => if s.supervisors > 0 then some s.supervise else none
  | .revive =>
    if s.reviving > 0 then some { s with reviving := s.reviving - 1 }.ensureWorker else none
  | .shutdown =>
    if s.flag ∧ s.join = .idle then some { s with closed := true, join := .closing } else none
  | .join =>
    if s.join = .closing then
      match s.worker with
      | none => some { s with join := .finished }
      | some t => some { s with worker := none, join := .waiting t }
    else none
  | .joined budget =>
    match s.join with
    | .waiting t =>
      match s.tasks t with
      | .returned => some { s with join := .finished }
      | .panicked => some (s.takeOver budget)
      | _ => none
    | _ => none
  | .abort budget =>
    match s.join with
    | .waiting t =>
      match s.tasks t with
      | .live pc =>
        if pc.awaits then some ((s.drop t pc .aborted).takeOver budget) else none
      | _ => none
    | _ => none
  | .abandon event => s.abandonStep s.join event
  | .worker t event =>
    match s.tasks t with
    | .live pc => s.workerStep policy t pc event
    | _ => none
  | .panic t =>
    match s.tasks t with
    | .live pc => if pc.awaits then some (s.drop t pc .panicked) else none
    | _ => none

end QueueState

/-- The queue as a machine. -/
def queueMachine (policy : ControlPolicy) : Lib.Machine QueueState QueueState.Label :=
  ⟨QueueState.step policy⟩

/-- A queue that has just been created. -/
def QueueState.new (policy : ControlPolicy) (shared : Shared) : QueueState :=
  { shared with toDeviceQueue := DeviceQueue.new policy.queueCapacity }

end ForgeLink.Control
