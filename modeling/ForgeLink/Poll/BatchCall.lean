import ForgeLink.Drivers.Abi
import ForgeLink.Lib.Run

/-!
# The blocking reads of a poll task

`BatchCall` of `poll-engine/src/poll.rs`.  A poll reads its batch in a blocking task and waits
for the end of it, but no longer than `request_timeout`.  A blocking task cannot be stopped, so
after a timeout its handle is kept in `slot`.  The next poll first waits for that task, whose
result is void, and gives up if the poll task is cancelled meanwhile.  At the end `drain` waits
for the last task for a limited time.

Reads finish whenever the driver returns or panics, in any phase of the call.  The scheduler may
abort the poll task at any point of it, which drops the handle.
-/

namespace ForgeLink.Poll

open Lib
open Drivers (DriverErrorInfo DriverReadItem RawReadResult)

/-! ## The call -/

/-- A `JoinHandle`: the position of its task among the reads that were started. -/
abbrev Handle := Nat

/-- What a blocking read came to: the answer of the driver, or the message of a panic. -/
abbrev Joined := Except String (Except DriverErrorInfo (List RawReadResult))

/-- What a read returns, and how long it took. -/
structure BatchOutcome where
  results : List RawReadResult
  elapsedNs : Nat

/-- Why there is no result. -/
inductive TaskError where
  | driver (error : DriverErrorInfo)
  | cancelled

/-- `PollTarget`, the field that a read uses. -/
structure PollTarget where
  items : List DriverReadItem

/-- `PollConfig`, the field that a read uses, in nanoseconds. -/
structure PollConfig where
  requestTimeout : Nat

/-- The error of a read that takes too long. -/
def timeoutError (config : PollConfig) (target : PollTarget) : DriverErrorInfo :=
  let millis := config.requestTimeout / 1000000
  let itemCount := target.items.length
  { code := "driver_request_timeout"
    message := s!"批量读取超过 {millis}ms 超时上限（{itemCount} items）"
    protocolCode := none
    retryable := true }

/-- The error of a read that panicked. -/
def panicError (message : String) : DriverErrorInfo :=
  { code := "driver_read_panicked", message, protocolCode := none, retryable := true }

/-- What `run` returns for a read that ended in time. -/
def outcome (elapsedNs : Nat) : Joined → Except TaskError BatchOutcome
  | .ok (.error error) => .error (.driver error)
  | .error message => .error (.driver (panicError message))
  | .ok (.ok results) => .ok { results, elapsedNs }

/-- Where the poll task is: between calls, in `run` before its own read, in `run` with its own
read, in `drain`, or at its end. -/
inductive Phase where
  | idle
  | reaping
  | waiting (handle : Handle)
  | draining (handle : Handle)
  | ended
deriving DecidableEq

/-- What a call of `run` returned, with the read that it started. -/
structure Returned where
  handle : Option Handle
  result : Except TaskError BatchOutcome

/-- The call and its reads.  `timedOut` and `returned` are history. -/
structure State where
  slot : Option Handle
  phase : Phase
  cancelled : Bool
  reads : List (Option Joined)
  latencies : List Nat
  timedOut : List Handle
  returned : List Returned

/-- What happens to a call. -/
inductive Label where
  /-- `run` is called. -/
  | poll
  /-- A blocking read ends. -/
  | complete (handle : Handle) (joined : Joined)
  /-- The wait for the read of an earlier call is over. -/
  | reap
  /-- The token is cancelled. -/
  | cancel
  /-- `run` sees the cancellation. -/
  | quit
  /-- `run` gets the result of its read. -/
  | answer (latencyNs elapsedNs : Nat)
  /-- `request_timeout` has passed. -/
  | timeout (latencyNs : Nat)
  /-- `drain` is called. -/
  | drain
  /-- `drain` sees the end of the read. -/
  | drained
  /-- `shutdown_drain_timeout` has passed. -/
  | giveUp
  /-- The scheduler aborts the task. -/
  | abort

namespace State

/-- The state before the first call. -/
def start : State :=
  { slot := none, phase := .idle, cancelled := false, reads := [], latencies := []
    timedOut := [], returned := [] }

/-- The result of a read, if it is finished. -/
def joined (s : State) (handle : Handle) : Option Joined := s.reads[handle]?.join

/-- `spawn_blocking`, and the wait for it. -/
def spawn (s : State) : State :=
  { s with reads := s.reads ++ [none], phase := .waiting s.reads.length }

/-- The beginning of `run`. -/
def run (s : State) : State :=
  match s.slot with
  | some handle =>
    if (s.joined handle).isSome then { s with slot := none }.spawn
    else { s with phase := .reaping }
  | none => s.spawn

/-- `run` returns. -/
def returns (handle : Option Handle) (result : Except TaskError BatchOutcome) (s : State) :
    State :=
  { s with phase := .idle, returned := s.returned ++ [⟨handle, result⟩] }

/-- One step. -/
def step (config : PollConfig) (target : PollTarget) (s : State) : Label → Option State
  | .poll => if s.phase = .idle then some s.run else none
  | .complete handle joined =>
    match s.reads[handle]? with
    | some none => some { s with reads := s.reads.set handle (some joined) }
    | _ => none
  | .reap =>
    match s.phase, s.slot with
    | .reaping, some handle =>
      if (s.joined handle).isSome then some { s with slot := none }.spawn else none
    | _, _ => none
  | .cancel => some { s with cancelled := true }
  | .quit =>
    if s.phase = .reaping ∧ s.cancelled then some (s.returns none (.error .cancelled)) else none
  | .answer latencyNs elapsedNs =>
    match s.phase with
    | .waiting handle =>
      (s.joined handle).map fun joined =>
        { s with latencies := s.latencies ++ [latencyNs] }.returns handle
          (outcome elapsedNs joined)
    | _ => none
  | .timeout latencyNs =>
    match s.phase with
    | .waiting handle =>
      some <| { s with
        slot := some handle
        latencies := s.latencies ++ [latencyNs]
        timedOut := s.timedOut ++ [handle] }.returns handle
          (.error (.driver (timeoutError config target)))
    | _ => none
  | .drain =>
    if s.phase = .idle then
      match s.slot with
      | some handle => some { s with slot := none, phase := .draining handle }
      | none => some { s with phase := .ended }
    else none
  | .drained =>
    match s.phase with
    | .draining handle =>
      if (s.joined handle).isSome then some { s with phase := .ended } else none
    | _ => none
  | .giveUp =>
    match s.phase with
    | .draining _ => some { s with phase := .ended }
    | _ => none
  | .abort => some { s with slot := none, phase := .ended }

end State

/-- The call as a machine. -/
def batchMachine (config : PollConfig) (target : PollTarget) : Machine State Label :=
  ⟨State.step config target⟩

namespace State

variable {config : PollConfig} {target : PollTarget} {s s' : State} {label : Label}
  {handle : Handle}

/-- A read has not ended. -/
def Unfinished (s : State) (handle : Handle) : Prop := s.reads[handle]? = some none

theorem joined_eq_some {joined : Joined} :
    s.joined handle = some joined ↔ s.reads[handle]? = some (some joined) :=
  Option.join_eq_some_iff

/-! ## Steps -/

/-- What a step does. -/
inductive Move (config : PollConfig) (target : PollTarget) (s : State) : Label → State → Prop where
  /-- `run` and its wait, when the handle in the slot is finished or there is none. -/
  | spawn {label : Label} : s.phase = .idle ∨ s.phase = .reaping →
      (∀ handle, s.slot = some handle → ∃ joined, s.reads[handle]? = some (some joined)) →
      Move config target s label { s with slot := none }.spawn
  | wait : s.phase = .idle → Move config target s .poll { s with phase := .reaping }
  | complete {handle : Handle} {joined : Joined} : s.Unfinished handle →
      Move config target s (.complete handle joined)
        { s with reads := s.reads.set handle (some joined) }
  | cancel : Move config target s .cancel { s with cancelled := true }
  | quit : s.phase = .reaping →
      Move config target s .quit (s.returns none (.error .cancelled))
  | answer {handle : Handle} {joined : Joined} {latencyNs elapsedNs : Nat} :
      s.phase = .waiting handle → s.reads[handle]? = some (some joined) →
      Move config target s (.answer latencyNs elapsedNs)
        ({ s with latencies := s.latencies ++ [latencyNs] }.returns handle
          (outcome elapsedNs joined))
  | timeout {handle : Handle} {latencyNs : Nat} : s.phase = .waiting handle →
      Move config target s (.timeout latencyNs) ({ s with
        slot := some handle
        latencies := s.latencies ++ [latencyNs]
        timedOut := s.timedOut ++ [handle] }.returns handle
          (.error (.driver (timeoutError config target))))
  | drain {handle : Handle} : s.phase = .idle → s.slot = some handle →
      Move config target s .drain { s with slot := none, phase := .draining handle }
  /-- The end of the task. -/
  | ends {label : Label} {slot : Option Handle} :
      Move config target s label { s with slot, phase := .ended }

/-- Every step is one of the moves. -/
theorem Move.of_step (taken : s.step config target label = some s') :
    Move config target s label s' := by
  cases label with
  | poll =>
    obtain ⟨idle, ⟨⟩⟩ := Option.ite_none_right_eq_some.mp taken
    unfold run
    split
    next handle slot =>
      split
      next finished =>
        obtain ⟨joined, finished⟩ := Option.isSome_iff_exists.mp finished
        refine .spawn (.inl idle) fun handle' slot' => ⟨joined, ?_⟩
        rw [slot] at slot'
        cases slot'
        exact joined_eq_some.mp finished
      next => exact .wait idle
    next slot =>
      have same : s.spawn = { s with slot := none }.spawn := by rw [← slot]
      rw [same]
      refine .spawn (.inl idle) fun handle slot' => ?_
      rw [slot] at slot'
      cases slot'
  | complete handle joined =>
    simp only [step] at taken
    split at taken
    next unfinished =>
      cases taken
      exact .complete unfinished
    next => cases taken
  | reap =>
    simp only [step] at taken
    split at taken
    next handle phase slot =>
      rw [Option.ite_none_right_eq_some] at taken
      obtain ⟨finished, eq⟩ := taken
      cases eq
      obtain ⟨joined, finished⟩ := Option.isSome_iff_exists.mp finished
      refine .spawn (.inr phase) fun handle' slot' => ⟨joined, ?_⟩
      rw [slot] at slot'
      cases slot'
      exact joined_eq_some.mp finished
    next => cases taken
  | cancel =>
    cases taken
    exact .cancel
  | quit =>
    obtain ⟨⟨reaping, _⟩, ⟨⟩⟩ := Option.ite_none_right_eq_some.mp taken
    exact .quit reaping
  | answer latencyNs elapsedNs =>
    simp only [step] at taken
    split at taken
    next handle phase =>
      obtain ⟨joined, finished, rfl⟩ := Option.map_eq_some_iff.mp taken
      exact .answer phase (joined_eq_some.mp finished)
    next => cases taken
  | timeout latencyNs =>
    simp only [step] at taken
    split at taken
    next handle phase =>
      cases taken
      exact .timeout phase
    next => cases taken
  | drain =>
    obtain ⟨idle, taken⟩ := Option.ite_none_right_eq_some.mp taken
    split at taken
    next handle slot =>
      cases taken
      exact .drain idle slot
    next =>
      cases taken
      exact .ends
  | drained =>
    simp only [step] at taken
    split at taken
    next handle phase =>
      rw [Option.ite_none_right_eq_some] at taken
      cases taken.2
      exact .ends
    next => cases taken
  | giveUp =>
    simp only [step] at taken
    split at taken
    next =>
      cases taken
      exact .ends
    next => cases taken
  | abort =>
    cases taken
    exact .ends

/-! ## Single flight -/

/-- The call has the handle of a read, or has ended. -/
def Holds (s : State) (handle : Handle) : Prop :=
  s.slot = some handle ∨ s.phase = .waiting handle ∨ s.phase = .draining handle ∨ s.phase = .ended

/-- Only the last read may be unfinished, and the call has its handle. -/
structure Single (s : State) : Prop where
  last : ∀ handle, s.Unfinished handle → handle + 1 = s.reads.length ∧ s.Holds handle
  alone : ∀ handle, s.phase = .waiting handle → s.slot = none

/-- Between calls the handle is in the slot. -/
theorem Single.slot_eq (h : s.Single) (between : s.phase = .idle ∨ s.phase = .reaping)
    (unfinished : s.Unfinished handle) : s.slot = some handle := by
  rcases (h.last handle unfinished).2 with slot | phase | phase | phase
  · exact slot
  all_goals
    rw [phase] at between
    rcases between with eq | eq <;> cases eq

/-- A call that waits has the handle of its own read only. -/
theorem Single.waiting_eq {current : Handle} (h : s.Single) (waiting : s.phase = .waiting current)
    (unfinished : s.Unfinished handle) : handle = current := by
  rcases (h.last handle unfinished).2 with slot | phase | phase | phase
  · rw [h.alone _ waiting] at slot
    cases slot
  all_goals
    rw [waiting] at phase
    cases phase
  rfl

/-- No step starts a second call. -/
theorem Single.step (h : s.Single) (move : Move config target s label s') : s'.Single := by
  cases move with
  | spawn between finished =>
    refine ⟨fun handle unfinished => ?_, fun _ _ => rfl⟩
    rcases Nat.lt_or_ge handle s.reads.length with old | new
    · have unfinished : s.Unfinished handle := by
        simpa only [Unfinished, State.spawn, List.getElem?_append_left old] using unfinished
      obtain ⟨joined, ended⟩ := finished handle (h.slot_eq between unfinished)
      rw [unfinished] at ended
      cases ended
    · obtain ⟨inside, _⟩ := List.getElem?_eq_some_iff.mp unfinished
      have inside : handle < s.reads.length + 1 := by
        simpa only [State.spawn, List.length_append, List.length_singleton] using inside
      obtain rfl := Nat.le_antisymm (Nat.lt_succ_iff.mp inside) new
      exact ⟨by simp [State.spawn], .inr (.inl rfl)⟩
  | wait idle =>
    refine ⟨fun handle unfinished => ⟨(h.last handle unfinished).1, .inl ?_⟩, ?_⟩
    · exact h.slot_eq (.inl idle) unfinished
    · rintro handle ⟨⟩
  | @complete handle joined open' =>
    refine ⟨fun other unfinished => ?_, h.alone⟩
    rw [Unfinished, List.getElem?_set] at unfinished
    split at unfinished
    · split at unfinished <;> cases unfinished
    · rw [List.length_set]
      exact h.last other unfinished
  | cancel => exact ⟨h.last, h.alone⟩
  | quit reaping =>
    refine ⟨fun handle unfinished => ⟨(h.last handle unfinished).1, .inl ?_⟩, ?_⟩
    · exact h.slot_eq (.inr reaping) unfinished
    · rintro handle ⟨⟩
  | answer waiting ended =>
    refine ⟨fun handle unfinished => ?_, ?_⟩
    · obtain rfl := h.waiting_eq waiting unfinished
      exact absurd (ended.symm.trans unfinished) (by simp)
    · rintro handle ⟨⟩
  | timeout waiting =>
    refine ⟨fun handle unfinished => ⟨(h.last handle unfinished).1, .inl ?_⟩, ?_⟩
    · exact congrArg some (h.waiting_eq waiting unfinished).symm
    · rintro handle ⟨⟩
  | drain idle slot =>
    refine ⟨fun handle unfinished => ⟨(h.last handle unfinished).1, .inr (.inr (.inl ?_))⟩, ?_⟩
    · cases slot.symm.trans (h.slot_eq (.inl idle) unfinished)
      rfl
    · rintro handle ⟨⟩
  | ends =>
    refine ⟨fun handle unfinished => ⟨(h.last handle unfinished).1, .inr (.inr (.inr rfl))⟩, ?_⟩
    rintro handle ⟨⟩

/-! ## Results -/

/-- The reason of what `run` returned. -/
inductive Explained (config : PollConfig) (target : PollTarget) (s : State) : Returned → Prop where
  | cancelled : Explained config target s ⟨none, .error .cancelled⟩
  | timedOut {handle : Handle} : handle ∈ s.timedOut →
      Explained config target s ⟨some handle, .error (.driver (timeoutError config target))⟩
  | answered {handle : Handle} {joined : Joined} {elapsedNs : Nat} : handle ∉ s.timedOut →
      s.reads[handle]? = some (some joined) →
      Explained config target s ⟨some handle, outcome elapsedNs joined⟩

/-- A reason stays one as long as finished reads stay and no read times out after its call. -/
theorem Explained.mono {r : Returned} (h : Explained config target s r)
    (reads : ∀ (handle : Handle) joined, s.reads[handle]? = some (some joined) →
      s'.reads[handle]? = some (some joined))
    (timed : ∀ handle ∈ s.timedOut, handle ∈ s'.timedOut)
    (fresh : ∀ handle, r.handle = some handle → handle ∈ s'.timedOut → handle ∈ s.timedOut) :
    Explained config target s' r := by
  cases h with
  | cancelled => exact .cancelled
  | timedOut late => exact .timedOut (timed _ late)
  | answered inTime ended =>
    exact .answered (fun late => inTime (fresh _ rfl late)) (reads _ _ ended)

theorem Explained.of_eq {r : Returned} (h : Explained config target s r)
    (reads : s'.reads = s.reads) (timedOut : s'.timedOut = s.timedOut) :
    Explained config target s' r :=
  h.mono (fun _ _ => reads ▸ id) (fun _ => timedOut ▸ id) fun _ _ => timedOut ▸ id

/-- The read of a call is no other call's, and every result has its reason. -/
structure Traced (config : PollConfig) (target : PollTarget) (s : State) : Prop where
  current : ∀ handle, s.phase = .waiting handle → handle < s.reads.length ∧
    handle ∉ s.timedOut ∧ ∀ r ∈ s.returned, r.handle ≠ some handle
  timed : ∀ handle ∈ s.timedOut, handle < s.reads.length
  started : ∀ r ∈ s.returned, ∀ handle, r.handle = some handle → handle < s.reads.length
  explained : ∀ r ∈ s.returned, Explained config target s r
  apart : (s.returned.filterMap Returned.handle).Nodup

/-- Another phase. -/
theorem Traced.enter (h : s.Traced config target) {slot : Option Handle} {phase : Phase}
    (between : ∀ handle, phase ≠ .waiting handle) :
    { s with slot, phase }.Traced config target :=
  ⟨fun handle eq => absurd eq (between handle), h.timed, h.started,
    fun r here => (h.explained r here).of_eq rfl rfl, h.apart⟩

/-- A call with a read of its own returns. -/
theorem Traced.returns {result : Except TaskError BatchOutcome} {slot : Option Handle}
    {latencies : List Nat} {timedOut : List Handle} (h : s.Traced config target)
    (waiting : s.phase = .waiting handle)
    (timed : ∀ other, other ∈ timedOut ↔ other ∈ s.timedOut ∨ other = handle ∧ handle ∈ timedOut)
    (explained : Explained config target { s with slot, latencies, timedOut } ⟨handle, result⟩) :
    ({ s with slot, latencies, timedOut }.returns handle result).Traced config target := by
  obtain ⟨inside, _, fresh⟩ := h.current handle waiting
  refine ⟨?_, ?_, ?_, ?_, ?_⟩
  · rintro other ⟨⟩
  · intro other late
    rcases (timed other).mp late with old | ⟨rfl, _⟩
    · exact h.timed other old
    · exact inside
  · intro r here other own
    rcases List.mem_append.mp here with old | new
    · exact h.started r old other own
    · cases List.mem_singleton.mp new
      cases own
      exact inside
  · intro r here
    rcases List.mem_append.mp here with old | new
    · refine (h.explained r old).mono (fun _ _ => id) (fun other => ?_) fun other own late => ?_
      · exact fun late => (timed other).mpr (.inl late)
      · rcases (timed other).mp late with late | ⟨rfl, _⟩
        · exact late
        · exact absurd own (fresh r old)
    · cases List.mem_singleton.mp new
      exact explained.of_eq rfl rfl
  · rw [State.returns, List.filterMap_append]
    refine List.nodup_append.mpr ⟨h.apart, List.nodup_singleton _, fun other old new own' => ?_⟩
    obtain ⟨r, here, own⟩ := List.mem_filterMap.mp old
    rintro rfl
    cases List.mem_singleton.mp own'
    exact fresh r here own

/-- Every new result has a read of its own and a reason. -/
theorem Traced.step (h : s.Traced config target) (move : Move config target s label s') :
    s'.Traced config target := by
  cases move with
  | spawn =>
    have grown : ∀ handle, handle < s.reads.length → handle < (s.reads ++ [none]).length := by
      intro handle old
      rw [List.length_append]
      exact Nat.lt_add_right _ old
    refine ⟨?_, fun handle late => grown _ (h.timed handle late),
      fun r here handle own => grown _ (h.started r here handle own), fun r here => ?_, h.apart⟩
    · rintro handle ⟨⟩
      refine ⟨by simp [State.spawn], fun late => ?_, fun r here own => ?_⟩
      · exact Nat.lt_irrefl _ (h.timed _ late)
      · exact Nat.lt_irrefl _ (h.started r here _ own)
    · refine (h.explained r here).mono (fun handle joined ended => ?_) (fun _ => id) fun _ _ => id
      obtain ⟨inside, _⟩ := List.getElem?_eq_some_iff.mp ended
      exact (List.getElem?_append_left inside).trans ended
  | wait | drain | ends => exact h.enter (fun _ => by rintro ⟨⟩)
  | @complete handle joined open' =>
    refine ⟨?_, ?_, ?_, fun r here => ?_, h.apart⟩
    · simpa only [List.length_set] using h.current
    · simpa only [List.length_set] using h.timed
    · simpa only [List.length_set] using h.started
    · refine (h.explained r here).mono (fun other joined' ended => ?_) (fun _ => id) fun _ _ => id
      have other_ne : handle ≠ other := by
        rintro rfl
        rw [open'] at ended
        cases ended
      exact (List.getElem?_set_ne other_ne).trans ended
  | cancel =>
    exact ⟨h.current, h.timed, h.started, fun r here => (h.explained r here).of_eq rfl rfl, h.apart⟩
  | quit =>
    refine ⟨?_, h.timed, fun r here handle own => ?_, fun r here => ?_, ?_⟩
    · rintro handle ⟨⟩
    · rcases List.mem_append.mp here with old | new
      · exact h.started r old handle own
      · cases List.mem_singleton.mp new
        cases own
    · rcases List.mem_append.mp here with old | new
      · exact (h.explained r old).of_eq rfl rfl
      · cases List.mem_singleton.mp new
        exact .cancelled
    · rw [State.returns, List.filterMap_append]
      exact (List.append_nil _).symm ▸ h.apart
  | answer waiting ended =>
    obtain ⟨_, inTime, _⟩ := h.current _ waiting
    refine h.returns waiting (fun other => ?_) (.answered inTime ended)
    exact ⟨.inl, fun late => late.elim id fun ⟨same, late⟩ => same ▸ late⟩
  | timeout waiting =>
    refine h.returns waiting (fun other => ?_) (.timedOut (List.mem_append_right _ ?_))
    · simp
    · exact List.mem_singleton_self _

/-- In every run of a call at most one read is unfinished.  What a call of `run` returns for its
read is the timeout error if the read has timed out; results that it returns are those of a read
that has not, and no two calls have the same read. -/
theorem single_flight {labels : List Label}
    (run : (batchMachine config target).Run Machine.Always .start labels s) :
    (∀ handle other, s.Unfinished handle → s.Unfinished other → handle = other) ∧
    (∀ r ∈ s.returned, ∀ outcome, r.result = .ok outcome → ∃ handle, r.handle = some handle ∧
      handle ∉ s.timedOut ∧ s.reads[handle]? = some (some (.ok (.ok outcome.results)))) ∧
    (∀ r ∈ s.returned, ∀ handle ∈ s.timedOut, r.handle = some handle →
      r.result = .error (.driver (timeoutError config target))) ∧
    (s.returned.filterMap Returned.handle).Nodup := by
  obtain ⟨single, traced⟩ : s.Single ∧ s.Traced config target := by
    refine run.invariant (P := fun s => s.Single ∧ s.Traced config target) ?_ ?_
    · refine ⟨⟨?_, ?_⟩, ?_, ?_, ?_, ?_, List.nodup_nil⟩
      all_goals simp [start, Unfinished]
    · rintro s label s' ⟨single, traced⟩ _ taken
      exact ⟨single.step (.of_step taken), traced.step (.of_step taken)⟩
  refine ⟨fun handle other open' open'' => ?_, fun r here result ok => ?_,
    fun r here handle late own => ?_, traced.apart⟩
  · have first := (single.last handle open').1
    have second := (single.last other open'').1
    exact Nat.succ.inj (first.trans second.symm)
  · cases traced.explained r here with
    | cancelled => cases ok
    | timedOut => cases ok
    | @answered handle joined elapsedNs inTime ended =>
      refine ⟨handle, rfl, inTime, ?_⟩
      unfold outcome at ok
      split at ok
      · cases ok
      · cases ok
      · cases ok
        exact ended
  · cases traced.explained r here with
    | cancelled => cases own
    | timedOut => rfl
    | answered inTime =>
      cases own
      exact absurd late inTime

/-- A read times out and ends while the next call waits for it; that call's own read answers, the
third panics, and the fourth is still under way when the task is cancelled. -/
def sampleLabels : List Label :=
  [.poll, .timeout 5000000, .poll, .complete 0 (.ok (.ok [.good 1 (.i64 1)])), .reap,
    .complete 1 (.ok (.ok [.good 1 (.i64 2)])), .answer 300 310,
    .poll, .complete 2 (.error "panicked"), .answer 100 110,
    .poll, .timeout 5000000, .poll, .cancel, .quit, .drain, .giveUp]

/-- Two reads time out, and only one is unfinished. -/
theorem single_flight_sample :
    ∃ s, (batchMachine ⟨5000000⟩ ⟨[]⟩).Run Machine.Always .start sampleLabels s ∧
      (s.reads.map Option.isNone = [false, false, false, true] ∧ s.timedOut = [0, 3] ∧
        s.returned.map (fun r => (r.handle, r.result.isOk)) =
          [(some 0, false), (some 1, true), (some 2, false), (some 3, false), (none, false)]) ∧
      (∀ handle other, s.Unfinished handle → s.Unfinished other → handle = other) ∧
      ∀ r ∈ s.returned, ∀ outcome, r.result = .ok outcome → ∃ handle, r.handle = some handle ∧
        handle ∉ s.timedOut ∧ s.reads[handle]? = some (some (.ok (.ok outcome.results))) := by
  refine Machine.Run.find (by decide) fun s run _ => ?_
  obtain ⟨single, results, _⟩ := single_flight run
  exact ⟨single, results⟩

end State

end ForgeLink.Poll
