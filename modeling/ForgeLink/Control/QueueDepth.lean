import Mathlib.Algebra.Order.BigOperators.Group.Finset
import Mathlib.Data.Fintype.BigOperators
import ForgeLink.Control.QueueSettlement

/-!
# The queue depth gauges

`metrics.rs`: a gauge for every device, and one for the engine.  `enqueue` adds one to both
after its critical section, and `settle_entry` takes one from both, which is the first thing it
does.  So the gauges count an entry neither before `enqueue` has got to them nor while the entry
is being settled.

A settlement that a panic or an abort interrupts is begun again by whoever takes the entry over,
and the entry is taken off a second time (`depth_twice`).  As long as no settlement is
interrupted, none begins while an entry is not counted yet, and `join` is exclusive, the gauges
and what they leave out make up the entries without a result (`depth_exact`).
-/

namespace ForgeLink.Control

/-! ## What moves the gauges -/

/-- The calls of `ControlMetrics` that move the gauges. -/
inductive Observation where
  | enqueued
  | settledExit
deriving DecidableEq, Repr

/-- A gauge after at most one call; it stops at zero. -/
def observe : Option Observation → Nat → Nat
  | some .enqueued, depth => depth + 1
  | some .settledExit, depth => depth - 1
  | none, depth => depth

/-- The settlement a task is in. -/
def TaskState.settling : TaskState → Option Settling
  | .live (.settling st _) => some st
  | _ => none

namespace QueueState

variable {policy : ControlPolicy} {s s' : QueueState} {t : TaskId} {pc : WorkerPc}
variable {e : QueuedEntry}

/-- The call that a step makes, by the state it leads to: a worker that waits for a permit, and a
`settle_abandoned` with an entry in hand, have just entered `settle_entry`. -/
def observes : Label → QueueState → Option Observation
  | .enter, _ => some .enqueued
  | .abandon (.next _), s' => s'.join.current.map fun _ => .settledExit
  | .worker t _, s' =>
    if (s'.tasks t).settling.map Settling.stage = some .gate then some .settledExit else none
  | _, _ => none

/-- What a step of a worker does to the gauge and to the replies: nothing, the beginning of a
settlement, more of it, and its end, which may be the beginning of the next. -/
inductive Tally (s : QueueState) (t : TaskId) : WorkerPc → QueueState → Prop where
  | rests {pc : WorkerPc} {s' : QueueState} :
      (TaskState.live pc).settling = none → (s'.tasks t).settling = none →
      s'.depth = s.depth → s'.replies = s.replies → Tally s t pc s'
  | begins {pc : WorkerPc} {s' : QueueState} {st : Settling} :
      (TaskState.live pc).settling = none → (s'.tasks t).settling = some st → st.stage = .gate →
      s'.depth = s.depth - 1 → s'.replies = s.replies → Tally s t pc s'
  | goesOn {st st' : Settling} {after : After} {s' : QueueState} :
      (s'.tasks t).settling = some st' → st'.stage ≠ .gate →
      s'.depth = s.depth → s'.replies = s.replies → Tally s t (.settling st after) s'
  | ends {st : Settling} {after : After} {s' : QueueState} :
      (s'.tasks t).settling = none → s'.depth = s.depth →
      s'.replies = (s.setReply st.entry.reply st.result).replies →
      Tally s t (.settling st after) s'
  | passesOn {st st' : Settling} {after : After} {s' : QueueState} :
      (s'.tasks t).settling = some st' → st'.stage = .gate → s'.depth = s.depth - 1 →
      s'.replies = (s.setReply st.entry.reply st.result).replies →
      Tally s t (.settling st after) s'

theorem settling_setTask (s : QueueState) (t : TaskId) (state : TaskState) :
    ((s.setTask t state).tasks t).settling = state.settling :=
  congrArg TaskState.settling (Function.update_self ..)

theorem adopt_settling (s : QueueState) (t : TaskId) (rest : List QueuedEntry) (ns : TimestampNs) :
    ((s.adopt t rest ns).tasks t).settling = none ∧ (s.adopt t rest ns).depth = s.depth ∨
      ∃ st, ((s.adopt t rest ns).tasks t).settling = some st ∧ st.stage = .gate ∧
        (s.adopt t rest ns).depth = s.depth - 1 := by
  rcases adopt_eq s t rest ns with ⟨_, eq⟩ | ⟨_, _, _, _, _, _, eq⟩ <;> rw [eq]
  · exact .inl ⟨settling_setTask .., rfl⟩
  · exact .inr ⟨_, settling_setTask .., rfl, rfl⟩

theorem Settling.next_stage {st st' : Settling} {event : SettleEvent}
    (h : st.next event = some st') : st'.stage ≠ .gate := by
  cases event with
  | permit | written ok =>
    rw [Settling.next, Option.ite_none_right_eq_some, Option.some.injEq] at h
    rw [← h.2]
    rintro ⟨⟩
  | resume =>
    rw [Settling.next] at h
    split at h
    all_goals cases h
    all_goals rintro ⟨⟩

/-- What a step of a worker does to the counters. -/
theorem WorkerMove.tally {event : Event} (move : WorkerMove policy s t pc event s') :
    Tally s t pc s' := by
  have prepared : s.prepared.depth = s.depth := by
    obtain ⟨_, _, _, _, eq⟩ := s.prepared_form
    rw [eq]
  cases move with
  | adoptRunning => exact .begins rfl (settling_setTask ..) rfl rfl rfl
  | @adoptDraining ns _ =>
    have replies := (adopt_fields s.cleared t s.draining ns).1
    rcases adopt_settling s.cleared t s.draining ns with ⟨none, depth⟩ | ⟨st, own, gate, depth⟩
    · exact .rests rfl none depth replies
    · exact .begins rfl own gate depth replies
  | drains | declines =>
    exact .begins rfl (settling_setTask ..) rfl (congrArg (· - 1) prepared) s.prepared_replies
  | returns | waits | starts =>
    exact .rests rfl (settling_setTask ..) prepared s.prepared_replies
  | wakes | checks | calls | callsChecked => exact .rests rfl (settling_setTask ..) rfl rfl
  | @ends pc event e unknown run ns ends =>
    have apart : (TaskState.live pc).settling = none := by cases ends <;> rfl
    obtain ⟨_, _, eq⟩ := ended_form policy s e unknown run
    rw [eq]
    exact .begins apart (settling_setTask ..) rfl rfl rfl
  | settles next => exact .goesOn (settling_setTask ..) (Settling.next_stage next) rfl rfl
  | @finishes st after ns _ =>
    cases after with
    | clear | loop => exact .ends (settling_setTask ..) rfl rfl
    | adopt rest =>
      have replies := (adopt_fields (s.setReply st.entry.reply st.result).sweep t rest ns).1
      rcases adopt_settling (s.setReply st.entry.reply st.result).sweep t rest ns with
        ⟨none, depth⟩ | ⟨st', own, gate, depth⟩
      · exact .ends none depth replies
      · exact .passesOn own gate depth replies

/-- The gauge of the device moves by the calls that are made. -/
theorem depth_observes {label : Label} (move : Move policy s label s') :
    s'.depth = observe (observes label s') s.depth := by
  cases move with
  | enter => exact ensureWorker_of (P := (·.depth = s.depth + 1)) rfl fun _ => rfl
  | revive => exact ensureWorker_of (P := (·.depth = s.depth)) rfl fun _ => rfl
  | @abort t pc => cases pc <;> rfl
  | @panic t pc => cases pc <;> rfl
  | worker live move =>
    cases move.tally with
    | rests _ none depth => rw [observes, none]; exact depth
    | begins _ own gate depth => rw [observes, own, Option.map_some, gate]; exact depth
    | goesOn own gate depth =>
      rw [observes, own, Option.map_some, if_neg fun eq => gate (Option.some.inj eq)]
      exact depth
    | ends none depth => rw [observes, none]; exact depth
    | passesOn own gate depth => rw [observes, own, Option.map_some, gate]; exact depth
  | _ => rfl

/-! ## Entries without a result -/

/-- The accepted entries whose settlement is not complete. -/
def unsettled (s : QueueState) : Nat := s.accepted.countP fun e => !s.isSet e.reply

theorem unsettled_of_eq (accepted : s'.accepted = s.accepted) (replies : s'.replies = s.replies) :
    s'.unsettled = s.unsettled := by
  simp only [unsettled, accepted, isSet_of_replies replies]

theorem unsettled_pos (inside : e ∈ s.accepted) (unset : s.isSet e.reply = false) :
    0 < s.unsettled :=
  List.countP_pos_iff.mpr ⟨e, inside, by rw [unset]; rfl⟩

/-- A result that nothing accepted waits for. -/
theorem unsettled_elsewhere {r : ReplyId} (foreign : ∀ e ∈ s.accepted, e.reply ≠ r)
    (result : ControlResult) : (s.setReply r result).unsettled = s.unsettled := by
  refine List.countP_congr fun e inside => ?_
  rw [isSet_setReply_of_ne result (foreign e inside)]

/-- A result completes one settlement. -/
theorem unsettled_setReply (ids : Ids s) (inside : e ∈ s.accepted)
    (unset : s.isSet e.reply = false) (result : ControlResult) :
    (s.setReply e.reply result).unsettled + 1 = s.unsettled := by
  have perm := List.perm_cons_erase inside
  have apart := (perm.map QueuedEntry.reply).nodup_iff.mp ids.distinct
  rw [List.map_cons, List.nodup_cons] at apart
  have others :
      (s.accepted.erase e).countP (fun e' => !(s.setReply e.reply result).isSet e'.reply) =
        (s.accepted.erase e).countP fun e' => !s.isSet e'.reply := by
    refine List.countP_congr fun e' here => ?_
    have differ : e'.reply ≠ e.reply := fun same =>
      apart.1 (List.mem_map.mpr ⟨e', here, same⟩)
    rw [isSet_setReply_of_ne result differ]
  change (s.accepted.countP fun e' => !(s.setReply e.reply result).isSet e'.reply) + 1 = _
  rw [unsettled, perm.countP_eq, perm.countP_eq, List.countP_cons, List.countP_cons, others,
    isSet_setReply_self, unset]
  rfl

/-! ## The balance -/

/-- The gauge, the entries it does not count yet, and `n` more make up the entries without a
result. -/
def Owes (s : QueueState) (n : Nat) : Prop := s.depth + s.entering + n = s.unsettled

/-- A settlement is under way. -/
def Settles (s : QueueState) : Prop :=
  (∃ t, (s.tasks t).settling.isSome) ∨ s.join.current.isSome

/-- The gauge leaves out the entry of a settlement under way. -/
structure Balance (s : QueueState) : Prop where
  busy : s.Settles → s.Owes 1
  calm : ¬s.Settles → s.Owes 0

theorem Balance.new (policy : ControlPolicy) (shared : Shared) :
    Balance (QueueState.new policy shared) := by
  refine ⟨?_, fun _ => rfl⟩
  rintro (⟨_, own⟩ | own) <;> cases own

theorem Balance.of_iff (h : Balance s) (settles : s'.Settles ↔ s.Settles)
    (owes : ∀ n, s.Owes n → s'.Owes n) : Balance s' :=
  ⟨fun busy => owes 1 (h.busy (settles.mp busy)),
    fun calm => owes 0 (h.calm fun busy => calm (settles.mpr busy))⟩

theorem Owes.of_eq {n : Nat} (h : s.Owes n) (depth : s'.depth = s.depth)
    (entering : s'.entering = s.entering) (accepted : s'.accepted = s.accepted)
    (replies : s'.replies = s.replies) : s'.Owes n := by
  rw [Owes, depth, entering, unsettled_of_eq accepted replies]
  exact h

/-- The gauge is not at zero when a settlement begins. -/
theorem Owes.pos (h : s.Owes 0) (counted : s.entering = 0) (left : 0 < s.unsettled) :
    0 < s.depth := by
  rw [Owes] at h
  omega

/-- A settlement begins. -/
theorem Owes.begins (h : s.Owes 0) (pos : 0 < s.depth) (depth : s'.depth = s.depth - 1)
    (entering : s'.entering = s.entering) (same : s'.unsettled = s.unsettled) : s'.Owes 1 := by
  rw [Owes] at h ⊢
  omega

/-- The settlement of an entry ends. -/
theorem Owes.ends (h : s.Owes 1) (ids : Ids s) (inside : e ∈ s.accepted)
    (unset : s.isSet e.reply = false) (result : ControlResult) :
    (s.setReply e.reply result).Owes 0 := by
  have fewer := unsettled_setReply ids inside unset result
  rw [Owes] at h ⊢
  change s.depth + s.entering + 0 = _
  omega

/-! ## Steps of a worker -/

/-- With a live worker, a settlement that is under way is its own, before a step and after. -/
theorem settles_iff (regular : Regular s) (live : s.tasks t = .live pc) (steps : Steps t s s') :
    s'.Settles ↔ (s'.tasks t).settling.isSome := by
  refine ⟨?_, fun own => .inl ⟨t, own⟩⟩
  rintro (⟨t', own⟩ | own)
  · by_cases same : t' = t
    · exact same ▸ own
    · rw [steps.tasks t' same] at own
      cases other : s.tasks t' with
      | live pc' => exact absurd (regular.only live other) same
      | _ =>
        rw [other] at own
        cases own
  · rw [steps.frame.join] at own
    cases join : s.join with
    | abandoning todo deadline current => exact absurd live (regular.abandoned join)
    | _ =>
      rw [join] at own
      cases own

/-- While `settle_abandoned` runs, a settlement that is under way is its own. -/
theorem settles_abandoning {todo : List (QueuedEntry × RunResult)} {deadline : Instant}
    {current : Option Settling} (regular : Regular s)
    (at' : s.join = .abandoning todo deadline current) : s.Settles ↔ current.isSome := by
  have own : s.join.current.isSome = current.isSome := by
    rw [at']
    cases current <;> rfl
  refine ⟨?_, fun busy => .inr (own.trans busy)⟩
  rintro (⟨t, busy⟩ | busy)
  · cases live : s.tasks t with
    | live pc => exact absurd live (regular.abandoned at')
    | _ =>
      rw [live] at busy
      cases busy
  · exact own.symm.trans busy

/-- One worker at a time, and no settlement of an entry that has a result. -/
structure Sound (s : QueueState) : Prop where
  regular : Regular s
  settlement : Settlement s

theorem Sound.step {label : Label} (h : Sound s) (exclusive : s.Exclusive label)
    (move : Move policy s label s') : Sound s' :=
  ⟨h.regular.step exclusive move, h.settlement.step h.regular move⟩

/-- The entry of a settlement is accepted and has no result. -/
theorem Sound.settling_unset {st : Settling} (h : Sound s)
    (own : (s.tasks t).settling = some st) :
    st.entry ∈ s.accepted ∧ s.isSet st.entry.reply = false := by
  unfold TaskState.settling at own
  split at own
  next live =>
    cases own
    have departed := h.regular.ids.task live st.entry List.mem_cons_self
    exact ⟨departed.1, (h.settlement.workers t _ live).current _ rfl⟩
  next => cases own

/-- A step of a worker keeps the balance, and the gauge is not at zero when it goes down. -/
theorem Balance.tally (h : Balance s) (sound : Sound s) (sound' : Sound s')
    (live : s.tasks t = .live pc) (steps : Steps t s s') (accepted : s'.accepted = s.accepted)
    (tally : Tally s t pc s')
    (counted : (s'.tasks t).settling.map Settling.stage = some .gate → s.entering = 0) :
    Balance s' ∧ ((s'.tasks t).settling.map Settling.stage = some .gate → 0 < s.depth) := by
  have before := settles_iff sound.regular live ⟨.same rfl rfl, fun _ _ => rfl⟩
  have after := settles_iff sound.regular live steps
  have entering := steps.frame.entering
  rw [live] at before
  cases tally with
  | rests calm none depth replies =>
    rw [calm] at before
    rw [none] at after ⊢
    refine ⟨h.of_iff (after.trans before.symm) fun n owes => ?_, by rintro ⟨⟩⟩
    exact owes.of_eq depth entering accepted replies
  | @begins _ _ st calm own gate depth replies =>
    rw [calm] at before
    have same := unsettled_of_eq accepted replies
    have owes := h.calm fun busy => by cases before.mp busy
    obtain ⟨inside, unset⟩ := sound'.settling_unset own
    have pos := owes.pos (counted (by rw [own, Option.map_some, gate]))
      (same ▸ unsettled_pos inside unset)
    refine ⟨⟨fun _ => owes.begins pos depth entering same, fun idle => ?_⟩, fun _ => pos⟩
    exact absurd (after.mpr (by rw [own]; rfl)) idle
  | goesOn own gate depth replies =>
    rw [own] at after ⊢
    refine ⟨h.of_iff (after.trans before.symm) fun n owes => ?_, fun eq => ?_⟩
    · exact owes.of_eq depth entering accepted replies
    · exact absurd (Option.some.inj eq) gate
  | @ends st _ _ none depth replies =>
    obtain ⟨inside, unset⟩ := sound.settling_unset (congrArg _ live)
    have owes := (h.busy (before.mpr rfl)).ends sound.regular.ids inside unset st.result
    rw [none] at after ⊢
    refine ⟨⟨fun busy => ?_, fun _ => owes.of_eq depth entering accepted replies⟩, by rintro ⟨⟩⟩
    cases after.mp busy
  | @passesOn st st' _ _ own gate depth replies =>
    obtain ⟨inside, unset⟩ := sound.settling_unset (congrArg _ live)
    have owes := (h.busy (before.mpr rfl)).ends sound.regular.ids inside unset st.result
    have same : s'.unsettled = (s.setReply st.entry.reply st.result).unsettled :=
      unsettled_of_eq accepted replies
    obtain ⟨inside, unset⟩ := sound'.settling_unset own
    have pos := owes.pos (counted (by rw [own, Option.map_some, gate]))
      (same ▸ unsettled_pos inside unset)
    refine ⟨⟨fun _ => owes.begins pos depth entering same, fun idle => ?_⟩, fun _ => pos⟩
    exact absurd (after.mpr (by rw [own]; rfl)) idle

/-! ## Steps of the queue -/

/-- A step that moves neither the gauge nor a settlement. -/
theorem Balance.still (h : Balance s) (depth : s'.depth = s.depth)
    (entering : s'.entering = s.entering) (accepted : s'.accepted = s.accepted)
    (replies : s'.replies = s.replies) (tasks : s'.tasks = s.tasks)
    (join : s'.join.current = s.join.current) : Balance s' := by
  refine h.of_iff ?_ fun n owes => owes.of_eq depth entering accepted replies
  rw [Settles, Settles, tasks, join]

/-- A task that is in no settlement gets another state of that kind. -/
theorem Balance.update (h : Balance s) {state : TaskState} (depth : s'.depth = s.depth)
    (entering : s'.entering = s.entering) (accepted : s'.accepted = s.accepted)
    (replies : s'.replies = s.replies) (tasks : s'.tasks = Function.update s.tasks t state)
    (join : s'.join.current = s.join.current) (before : (s.tasks t).settling = none)
    (after : state.settling = none) : Balance s' := by
  refine h.of_iff ?_ fun n owes => owes.of_eq depth entering accepted replies
  have same : ∀ t', (s'.tasks t').settling = (s.tasks t').settling := by
    intro t'
    rw [tasks]
    by_cases own : t' = t
    · rw [own, Function.update_self, before, after]
    · rw [Function.update_of_ne own]
  simp only [Settles, same, join]

theorem Balance.ensureWorker (h : Balance s) (lineage : Lineage s) : Balance s.ensureWorker := by
  refine ensureWorker_of h fun _ => ?_
  refine h.update rfl rfl rfl rfl s.spawn_tasks rfl ?_ rfl
  rw [lineage.unborn s.nextTask (Nat.le_refl _)]
  rfl

theorem Balance.drop (h : Balance s) (live : s.tasks t = .live pc)
    (calm : (s.tasks t).settling = none) {state : TaskState} (dead : state.settling = none) :
    Balance (s.drop t pc state) := by
  cases pc <;> exact h.update rfl rfl rfl rfl rfl rfl calm dead

theorem Balance.takeOver (h : Balance s) (join : s.join.current = none) (budget : Nat) :
    Balance (s.takeOver budget) :=
  h.still rfl rfl rfl rfl rfl join.symm

theorem Balance.push {prio : Priority} (h : Balance s) (fresh : s.fresh e = true) : Balance { s with
      entries := Function.update s.entries prio (s.entries prio ++ [e])
      len := s.len + 1
      entering := s.entering + 1
      log := .accepted e :: s.log } := by
  refine h.of_iff Iff.rfl fun n owes => ?_
  have unset : s.isSet e.reply = false := by
    rw [Shared.isSet, (fresh_notMem fresh).1]
    rfl
  have more : (e :: s.accepted).countP (fun e => !s.isSet e.reply) = s.unsettled + 1 := by
    rw [List.countP_cons, unset]
    rfl
  change s.depth + (s.entering + 1) + n = (e :: s.accepted).countP fun e => !s.isSet e.reply
  rw [Owes] at owes
  omega

/-- A worker is killed in a settlement. -/
def interrupts (s : QueueState) : Label → Bool
  | .panic t => (s.tasks t).settling.isSome
  | .abort _ =>
    match s.join with
    | .waiting t => (s.tasks t).settling.isSome
    | _ => false
  | _ => false

/-- A settlement begins. -/
def begins (policy : ControlPolicy) (s : QueueState) (label : Label) : Bool :=
  (s.step policy label).any fun s' => observes label s' = some .settledExit

/-- The calls stay paired: `join` is exclusive, no worker is killed in a settlement, and no
settlement begins while an accepted entry has not been counted. -/
def Paired (policy : ControlPolicy) (s : QueueState) (label : Label) : Prop :=
  s.Exclusive label ∧ s.interrupts label = false ∧ (s.begins policy label = true → s.entering = 0)

instance (policy : ControlPolicy) (s : QueueState) (label : Label) :
    Decidable (s.Paired policy label) :=
  inferInstanceAs (Decidable (_ ∧ _))

/-- What holds along paired runs. -/
structure Counted (s : QueueState) : Prop extends Sound s where
  balance : Balance s

theorem Counted.new (policy : ControlPolicy) (shared : Shared) :
    Counted (QueueState.new policy shared) :=
  ⟨⟨.new policy shared, .new policy shared⟩, .new policy shared⟩

/-- The entry that `settle_abandoned` takes up. -/
theorem Counted.next_pos {run : RunResult} {todo : List (QueuedEntry × RunResult)}
    {deadline : Instant} (h : Counted s)
    (at' : s.join = .abandoning ((e, run) :: todo) deadline none)
    (unset : s.isSet e.reply = false) (counted : s.entering = 0) : s.Owes 0 ∧ 0 < s.depth := by
  have departed := h.regular.ids.join e (by
    rw [at']
    exact List.mem_cons_self)
  have owes := h.balance.calm fun busy => by cases (settles_abandoning h.regular at').mp busy
  exact ⟨owes, owes.pos counted (unsettled_pos departed.1 unset)⟩

theorem Paired.counted {label : Label} (h : s.Paired policy label)
    (taken : s.step policy label = some s') (exits : observes label s' = some .settledExit) :
    s.entering = 0 :=
  h.2.2 (by rw [begins, taken]; exact decide_eq_true exits)

/-- The gauge is not at zero when it goes down. -/
theorem Counted.pos {label : Label} (h : Counted s) (paired : s.Paired policy label)
    (taken : s.step policy label = some s') (exits : observes label s' = some .settledExit) :
    0 < s.depth := by
  have counted := paired.counted taken exits
  have move : Move policy s label s' := step_move taken
  have sound' := h.toSound.step paired.1 move
  cases move with
  | next at' unset => exact (h.next_pos at' unset counted).2
  | @worker t pc event _ live move =>
    refine (h.balance.tally h.toSound sound' live move.steps move.accepted move.tally
      fun _ => counted).2 ?_
    by_contra other
    rw [observes, if_neg other] at exits
    cases exits
  | _ => cases exits

theorem Counted.step {label : Label} (h : Counted s) (paired : s.Paired policy label)
    (taken : s.step policy label = some s') : Counted s' := by
  have move : Move policy s label s' := step_move taken
  have sound' := h.toSound.step paired.1 move
  have counted := paired.counted taken
  have whole := paired.2.1
  have balance := h.balance
  refine ⟨sound', ?_⟩
  cases move with
  | tick | raise | cancel | supervise | findsDead => exact balance.still rfl rfl rfl rfl rfl rfl
  | elsewhere foreign =>
    refine balance.of_iff Iff.rfl fun n owes => ?_
    rw [Owes, unsettled_elsewhere foreign]
    exact owes
  | push fresh => exact balance.push fresh
  | enter pos =>
    have moved : Balance { s with entering := s.entering - 1, depth := s.depth + 1 } := by
      refine balance.of_iff Iff.rfl fun n owes => ?_
      rw [Owes] at owes ⊢
      change s.depth + 1 + (s.entering - 1) + n = s.unsettled
      omega
    exact moved.ensureWorker
      ⟨h.regular.lineage.unborn, h.regular.lineage.handle, h.regular.lineage.closing,
        h.regular.lineage.flagged, h.regular.lineage.lone⟩
  | revive =>
    have moved : Balance { s with reviving := s.reviving - 1 } :=
      balance.still rfl rfl rfl rfl rfl rfl
    exact moved.ensureWorker
      ⟨h.regular.lineage.unborn, h.regular.lineage.handle, h.regular.lineage.closing,
        h.regular.lineage.flagged, h.regular.lineage.lone⟩
  | shutdown _ at' | joinNone at' | joinTake at' | joined at' | skip at' | abandonDone at' =>
    exact balance.still rfl rfl rfl rfl rfl (by rw [at']; rfl)
  | joinedDead at' => exact balance.takeOver (by rw [at']; rfl) _
  | @abort t pc budget at' live =>
    rw [interrupts, at'] at whole
    have calm := Option.not_isSome_iff_eq_none.mp (Bool.eq_false_iff.mp whole)
    refine (balance.drop live calm rfl).takeOver ?_ budget
    rw [(drop_steps s t pc .aborted).frame.join, at']
    rfl
  | next at' unset =>
    obtain ⟨owes, pos⟩ := h.next_pos at' unset (counted rfl)
    refine ⟨fun _ => owes.begins pos rfl rfl rfl, fun calm => absurd (.inr rfl) calm⟩
  | abandonSettles at' next =>
    refine balance.still rfl rfl rfl rfl rfl ?_
    rw [at']
    exact congrArg some (Settling.next_entry next)
  | givesUp at' =>
    refine balance.still rfl rfl rfl rfl rfl ?_
    rw [at']
    rfl
  | @abandonFinishes todo deadline st at' _ =>
    have departed := h.regular.ids.join st.entry (by
      rw [at']
      exact List.mem_cons_self)
    have unset := h.settlement.join st.entry (by rw [at']; rfl)
    have busy : s.Settles := (settles_abandoning h.regular at').mpr rfl
    refine ⟨fun busy => ?_, fun _ => (balance.busy busy).ends h.regular.ids departed.1 unset _⟩
    cases (settles_abandoning sound'.regular rfl).mp busy
  | @worker t pc event _ live move =>
    refine (balance.tally h.toSound sound' live move.steps move.accepted move.tally
      fun gate => counted ?_).1
    rw [observes, gate]
    rfl
  | @panic t pc live =>
    exact balance.drop live (Option.not_isSome_iff_eq_none.mp (Bool.eq_false_iff.mp whole)) rfl

/-- The gauge of the device is right when no settlement is under way and every entry has been
counted. -/
theorem Counted.depth_iff (h : Counted s) :
    s.depth = s.unsettled ↔ ¬s.Settles ∧ s.entering = 0 := by
  by_cases busy : s.Settles
  · have owes := h.balance.busy busy
    rw [Owes] at owes
    exact ⟨fun _ => by omega, fun calm => absurd busy calm.1⟩
  · have owes := h.balance.calm busy
    rw [Owes] at owes
    exact ⟨fun _ => ⟨busy, by omega⟩, fun _ => by omega⟩

theorem Counted.depth_le (h : Counted s) : s.depth ≤ s.unsettled := by
  by_cases busy : s.Settles
  · have owes := h.balance.busy busy
    rw [Owes] at owes
    omega
  · have owes := h.balance.calm busy
    rw [Owes] at owes
    omega

end QueueState

/-! ## The engine -/

/-- The queues of the devices, and the gauge of the engine. -/
structure Engine (ι : Type) where
  queues : ι → QueueState
  depth : Nat

namespace Engine

open QueueState (observes)

variable {ι : Type} [DecidableEq ι] {policy : ControlPolicy}

/-- An engine without requests. -/
def new (policy : ControlPolicy) (shared : Shared) : Engine ι :=
  ⟨fun _ => .new policy shared, 0⟩

/-- A step of one queue, whose calls move the gauge of the engine as well. -/
def step (policy : ControlPolicy) (e : Engine ι) (label : ι × QueueState.Label) :
    Option (Engine ι) :=
  ((e.queues label.1).step policy label.2).map fun s =>
    { queues := Function.update e.queues label.1 s
      depth := observe (observes label.2 s) e.depth }

/-- The step keeps the calls of its queue paired. -/
def Paired (policy : ControlPolicy) (e : Engine ι) (label : ι × QueueState.Label) : Prop :=
  (e.queues label.1).Paired policy label.2

instance (e : Engine ι) (label : ι × QueueState.Label) : Decidable (e.Paired policy label) :=
  inferInstanceAs (Decidable (QueueState.Paired ..))

/-- The engine as a machine. -/
def machine (policy : ControlPolicy) : Lib.Machine (Engine ι) (ι × QueueState.Label) :=
  ⟨step policy⟩

section
variable [Fintype ι]

theorem sum_update (queues : ι → QueueState) (i : ι) (s : QueueState) :
    ∑ j, (Function.update queues i s j).depth + (queues i).depth =
      ∑ j, (queues j).depth + s.depth := by
  have others : ∑ j ∈ Finset.univ.erase i, (Function.update queues i s j).depth =
      ∑ j ∈ Finset.univ.erase i, (queues j).depth :=
    Finset.sum_congr rfl fun j other => by rw [Function.update_of_ne (Finset.ne_of_mem_erase other)]
  rw [← Finset.add_sum_erase _ _ (Finset.mem_univ i),
    ← Finset.add_sum_erase _ (fun j => (queues j).depth) (Finset.mem_univ i), others,
    Function.update_self]
  omega

/-- The gauges of the devices are right, and the gauge of the engine is their sum. -/
structure Counted (e : Engine ι) : Prop where
  queues : ∀ i, (e.queues i).Counted
  depth : e.depth = ∑ i, (e.queues i).depth

theorem Counted.step {e e' : Engine ι} {label : ι × QueueState.Label} (h : e.Counted)
    (paired : e.Paired policy label) (taken : e.step policy label = some e') : e'.Counted := by
  obtain ⟨s, moved, rfl⟩ := Option.map_eq_some_iff.mp taken
  refine ⟨fun i => ?_, ?_⟩
  · by_cases own : i = label.1
    · rw [own]
      dsimp only
      rw [Function.update_self]
      exact (h.queues _).step paired moved
    · dsimp only
      rw [Function.update_of_ne own]
      exact h.queues i
  · have move : QueueState.Move policy (e.queues label.1) label.2 s := QueueState.step_move moved
    have depth := QueueState.depth_observes move
    have sum := sum_update e.queues label.1 s
    have total := h.depth
    have part : (e.queues label.1).depth ≤ ∑ i, (e.queues i).depth :=
      Finset.single_le_sum (f := fun i => (e.queues i).depth) (fun _ _ => Nat.zero_le _)
        (Finset.mem_univ _)
    dsimp only
    cases call : observes label.2 s with
    | none =>
      rw [call, observe] at depth
      rw [observe]
      omega
    | some observation =>
      rw [call] at depth
      cases observation with
      | enqueued =>
        rw [observe] at depth ⊢
        omega
      | settledExit =>
        have pos := (h.queues _).pos paired moved call
        rw [observe] at depth ⊢
        omega

/-- In every paired run the gauge of the engine is the sum of those of the devices, and they are
the numbers of entries without a result except for the settlements that are under way and the
entries that are not counted yet. -/
theorem depth_exact {shared : Shared} {labels : List (ι × QueueState.Label)} {e : Engine ι}
    (run : (machine policy).Run (Paired policy) (.new policy shared) labels e) :
    (∀ i, (e.queues i).depth = (e.queues i).unsettled ↔
      ¬(e.queues i).Settles ∧ (e.queues i).entering = 0) ∧
    e.depth = ∑ i, (e.queues i).depth ∧
    (e.depth = ∑ i, (e.queues i).unsettled ↔
      ∀ i, ¬(e.queues i).Settles ∧ (e.queues i).entering = 0) := by
  have counted : e.Counted := by
    refine run.invariant (P := Counted) ⟨fun _ => .new policy shared, ?_⟩ ?_
    · exact (Finset.sum_const_zero).symm
    · exact fun _ _ _ counted paired taken => counted.step paired taken
  have each := fun i => (counted.queues i).depth_iff
  refine ⟨each, counted.depth, ?_⟩
  rw [counted.depth, Finset.sum_eq_sum_iff_of_le fun i _ => (counted.queues i).depth_le]
  exact ⟨fun same i => (each i).mp (same i (Finset.mem_univ i)),
    fun calm i _ => (each i).mpr (calm i)⟩

end

open QueueState (sample settles succeeds)

/-- Two entries are accepted and counted, and the settlement of the first begins. -/
def settling : List QueueState.Label :=
  [.push (sample 0), .enter, .push (sample 1), .enter, .worker 0 (.begin 0), .worker 0 (.round 0),
    .worker 0 (.poll 0), .worker 0 succeeds]

/-- The settlement is completed, and an entry is accepted on the other device. -/
def pairedLabels : List (Bool × QueueState.Label) :=
  (settling ++ settles 0).map (true, ·) ++ [(false, .push (sample 0)), (false, .enter)]

/-- One unsettled entry on each device. -/
theorem depth_exact_sample :
    ∃ e : Engine Bool,
      (machine .default).Run (Paired .default) (.new .default ⟨0, false, fun _ => []⟩)
        pairedLabels e ∧
      (e.depth = 2 ∧ (e.queues true).unsettled = 1 ∧ (e.queues false).unsettled = 1) ∧
      ((e.queues true).depth = (e.queues true).unsettled ↔
        ¬(e.queues true).Settles ∧ (e.queues true).entering = 0) ∧
      (e.depth = ∑ i, (e.queues i).unsettled ↔
        ∀ i, ¬(e.queues i).Settles ∧ (e.queues i).entering = 0) := by
  refine Lib.Machine.Run.find (by decide) fun e run _ => ?_
  obtain ⟨each, _, total⟩ := depth_exact run
  exact ⟨each true, total⟩

/-- The worker panics in the settlement, and the next one settles the entry. -/
def interrupted : List QueueState.Label :=
  settling ++ [.panic 0, .supervise, .revive, .worker 1 (.begin 0)] ++ settles 1

/-- With a settlement under way the gauges are one short.  After it was interrupted and done again
they are at zero, although the second entry is in the queue and nothing is under way. -/
theorem depth_twice :
    (∃ e : Engine Unit, (machine .default).Run Lib.Machine.Always
        (.new .default ⟨0, false, fun _ => []⟩) (settling.map ((), ·)) e ∧
      (e.queues ()).unsettled = 2 ∧ (e.queues ()).depth = 1 ∧ e.depth = 1) ∧
    ∃ e : Engine Unit, (machine .default).Run Lib.Machine.Always
        (.new .default ⟨0, false, fun _ => []⟩) (interrupted.map ((), ·)) e ∧
      (e.queues ()).unsettled = 1 ∧ (e.queues ()).queued = [sample 1] ∧
      (e.queues ()).tasks 0 = .panicked ∧ (e.queues ()).tasks 1 = .live .head ∧
      (e.queues ()).join = .idle ∧ (e.queues ()).entering = 0 ∧
      (e.queues ()).depth = 0 ∧ e.depth = 0 := by
  constructor
  · exact Lib.Machine.Run.of_any _ (by decide)
  · exact Lib.Machine.Run.of_any _ (by decide)

end Engine

end ForgeLink.Control
