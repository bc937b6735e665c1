import ForgeLink.Control.QueueCustody

/-!
# The cooldown

After a call that ended without a definite outcome the device gets no call for
the time of the cooldown.  `run_entry` arms the cooldown when it ends with an
unknown outcome, and a worker does not pick during it.  A worker that dies
during a call arms nothing, and neither does the worker that takes over from
it; `Rearms` excludes that takeover.

The proof does not need `join` to be exclusive: an entry is started only while
the queue is open, when there is one worker.
-/

namespace ForgeLink.Control

/-- The calls that ended without a definite outcome. -/
def DeviceQueue.endings (q : DeviceQueue) : List (ReplyId × Instant) :=
  q.log.filterMap fun
    | .ended r time => some (r, time)
    | _ => none

namespace QueueState

variable {policy : ControlPolicy} {s s' : QueueState} {t : TaskId} {pc : WorkerPc}
variable {event : Event} {e : QueuedEntry} {run : RunResult} {label : Label}

/-- The cooldown of a call that ended at the given time is armed. -/
def Armed (policy : ControlPolicy) (s : QueueState) (time : Instant) : Prop :=
  match s.cooldownUntil with
  | some until' => time + millis policy.indeterminateCooldownMs ≤ until'
  | none => False

instance (policy : ControlPolicy) (s : QueueState) (time : Instant) :
    Decidable (s.Armed policy time) := by
  unfold Armed
  split <;> infer_instance

/-- A worker that begins does not take over an entry whose call its predecessor
left without arming the cooldown. -/
def Rearms (policy : ControlPolicy) (s : QueueState) : Label → Prop
  | .worker _ (.begin _) =>
    ∀ e ∈ s.running, ∀ p ∈ s.endings, p.1 = e.reply → s.Armed policy p.2
  | _ => True

instance (policy : ControlPolicy) (s : QueueState) :
    (label : Label) → Decidable (s.Rearms policy label)
  | .worker _ (.begin _) =>
    inferInstanceAs (Decidable
      (∀ e ∈ s.running, ∀ p ∈ s.endings, p.1 = e.reply → s.Armed policy p.2))
  | .worker _ (.round _) | .worker _ .wake | .worker _ (.expire _) | .worker _ (.interrupt _)
  | .worker _ (.poll _) | .worker _ (.checked _ _) | .worker _ (.answer _ _)
  | .worker _ (.settle _) | .worker _ (.audited _) | .tick _ | .raise | .elsewhere _ _ | .push _
  | .enter | .cancel _ | .supervise | .revive | .shutdown | .join | .joined _ | .abort _
  | .abandon _ | .panic _ => isTrue trivial

/-- A call comes a cooldown after every earlier ending. -/
def Apart (policy : ControlPolicy) (later earlier : QueueEvent) : Prop :=
  ∀ e time r' time', later = .called e time → earlier = .ended r' time' →
    time' + millis policy.indeterminateCooldownMs ≤ time

/-! ## The invariant -/

/-- No worker runs an entry, and none can start one: the queue is closed, or
the entry is still in `running` and no worker has begun. -/
def Blocked (s : QueueState) (r : ReplyId) : Prop :=
  (∀ t pc, s.tasks t = .live pc → pc.runs = none) ∧
    (s.closed = true ∨ ∃ e, s.running = some e ∧ e.reply = r ∧
      ∀ t pc, s.tasks t = .live pc → pc = .spawned)

/-- Every ending is covered by the cooldown or blocks the queue, and whoever
runs an entry has waited for all of them. -/
structure Cooldown (policy : ControlPolicy) (s : QueueState) : Prop where
  past : ∀ p ∈ s.endings, p.2 ≤ s.now
  covered : ∀ p ∈ s.endings, s.Armed policy p.2 ∨ s.Blocked p.1
  one : ∀ t t' pc pc', s.tasks t = .live pc → s.tasks t' = .live pc' → pc.runs ≠ none →
    pc'.runs ≠ none → t = t'
  elapsed : ∀ t pc, s.tasks t = .live pc → pc.runs ≠ none → ∀ p ∈ s.endings,
    p.2 + millis policy.indeterminateCooldownMs ≤ s.now
  spaced : s.log.Pairwise (Apart policy)

theorem Cooldown.new (policy : ControlPolicy) (shared : Shared) :
    Cooldown policy (QueueState.new policy shared) where
  past p inside := by cases inside
  covered p inside := by cases inside
  one t t' pc pc' live := by cases live
  elapsed t pc live := by cases live
  spaced := List.Pairwise.nil

theorem endings_of_log (h : s'.log = s.log) : s'.endings = s.endings := by
  rw [DeviceQueue.endings, DeviceQueue.endings, h]

theorem armed_of_until {time : Instant} (h : s'.cooldownUntil = s.cooldownUntil)
    (armed : s.Armed policy time) : s'.Armed policy time := by
  rw [Armed, h]
  exact armed

theorem exists_until {time : Instant} (h : s.Armed policy time) :
    ∃ until', s.cooldownUntil = some until' ∧
      time + millis policy.indeterminateCooldownMs ≤ until' := by
  rw [Armed] at h
  split at h
  next until' eq => exact ⟨until', eq, h⟩
  next => exact h.elim

/-- A step that logs nothing, sets no cooldown and starts nothing. -/
theorem Cooldown.still (h : Cooldown policy s) (log : s'.log = s.log)
    (cooldown : s'.cooldownUntil = s.cooldownUntil) (now : s.now ≤ s'.now)
    (runs : ∀ t pc, s'.tasks t = .live pc → pc.runs ≠ none → s.tasks t = .live pc)
    (blocked : ∀ r, s.Blocked r → s'.Blocked r) : Cooldown policy s' where
  past p inside := (h.past p (endings_of_log log ▸ inside)).trans now
  covered p inside :=
    (h.covered p (endings_of_log log ▸ inside)).imp (armed_of_until cooldown) (blocked p.1)
  one t t' pc pc' live live' run run' :=
    h.one t t' pc pc' (runs t pc live run) (runs t' pc' live' run') run run'
  elapsed t pc live run p inside :=
    (h.elapsed t pc (runs t pc live run) run p (endings_of_log log ▸ inside)).trans now
  spaced := log ▸ h.spaced

/-! ## Worker steps -/

theorem WorkerMove.begins (move : WorkerMove policy s t .spawned event s') :
    ∃ ns, event = .begin ns := by
  cases move with
  | ends ends => cases ends
  | _ => exact ⟨_, rfl⟩

/-- Where a worker is that has begun or takes over nothing uncovered, blocking
is blocking by a closed queue. -/
theorem Blocked.closed_of_live {r : ReplyId} (h : s.Blocked r) (live : s.tasks t = .live pc)
    (begun : pc ≠ .spawned) : s.closed = true := by
  rcases h.2 with closed | ⟨e, _, _, spawned⟩
  · exact closed
  · exact absurd (spawned t pc live) begun

/-- What an ending means to a worker that moves. -/
theorem Cooldown.covered_live (h : Cooldown policy s) (ok : s.Rearms policy (.worker t event))
    (live : s.tasks t = .live pc) (move : WorkerMove policy s t pc event s') :
    ∀ p ∈ s.endings, s.Armed policy p.2 ∨
      s.closed = true ∧ ∀ t pc, s.tasks t = .live pc → pc.runs = none := by
  intro p inside
  rcases h.covered p inside with armed | ⟨quiet, down⟩
  · exact .inl armed
  · rcases down with closed | ⟨e, running, same, spawned⟩
    · exact .inr ⟨closed, quiet⟩
    · obtain rfl := spawned t pc live
      obtain ⟨ns, rfl⟩ := move.begins
      exact .inl (ok e running p inside same.symm)

/-- Whoever runs an entry after a step of a worker that starts none ran one before it. -/
theorem runs_before (live : s.tasks t = .live pc)
    (tasks : ∀ t', t' ≠ t → s'.tasks t' = s.tasks t')
    (own : ∀ pc', s'.tasks t = .live pc' → pc'.runs ≠ none → pc.runs ≠ none) :
    ∀ t' pc', s'.tasks t' = .live pc' → pc'.runs ≠ none →
      ∃ pc, s.tasks t' = .live pc ∧ pc.runs ≠ none := by
  intro t' pc' live' run
  by_cases same : t' = t
  · subst same
    exact ⟨pc, live, own pc' live' run⟩
  · rw [tasks t' same] at live'
    exact ⟨pc', live', run⟩

/-- So there is still at most one. -/
theorem Cooldown.one_after (h : Cooldown policy s)
    (before : ∀ t' pc', s'.tasks t' = .live pc' → pc'.runs ≠ none →
      ∃ pc, s.tasks t' = .live pc ∧ pc.runs ≠ none) :
    ∀ t₁ t₂ pc₁ pc₂, s'.tasks t₁ = .live pc₁ → s'.tasks t₂ = .live pc₂ → pc₁.runs ≠ none →
      pc₂.runs ≠ none → t₁ = t₂ := by
  intro t₁ t₂ pc₁ pc₂ live₁ live₂ run₁ run₂
  obtain ⟨pc₁, live₁, run₁⟩ := before t₁ pc₁ live₁ run₁
  obtain ⟨pc₂, live₂, run₂⟩ := before t₂ pc₂ live₂ run₂
  exact h.one t₁ t₂ pc₁ pc₂ live₁ live₂ run₁ run₂

/-- A worker step that logs nothing, sets no cooldown and starts nothing. -/
theorem Cooldown.steps (h : Cooldown policy s) (ok : s.Rearms policy (.worker t event))
    (live : s.tasks t = .live pc) (move : WorkerMove policy s t pc event s')
    (log : s'.log = s.log) (cooldown : s'.cooldownUntil = s.cooldownUntil)
    (own : ∀ pc', s'.tasks t = .live pc' → pc'.runs ≠ none → pc.runs ≠ none) :
    Cooldown policy s' := by
  obtain ⟨frame, tasks⟩ := move.steps
  have before := runs_before live tasks own
  refine ⟨fun p inside => ?_, fun p inside => ?_, h.one_after before,
    fun t' pc' live' run p inside => ?_, log ▸ h.spaced⟩
  · rw [frame.now]
    exact h.past p (endings_of_log log ▸ inside)
  · rcases h.covered_live ok live move p (endings_of_log log ▸ inside) with armed | ⟨closed, quiet⟩
    · exact .inl (armed_of_until cooldown armed)
    · refine .inr ⟨fun t' pc' live' => ?_, .inl (frame.closed closed)⟩
      by_contra run
      obtain ⟨pc, live, run⟩ := before t' pc' live' run
      exact run (quiet t' pc live)
  · obtain ⟨pc, live, run⟩ := before t' pc' live' run
    rw [frame.now]
    exact h.elapsed t' pc live run p (endings_of_log log ▸ inside)

/-- A worker starts an entry: the queue is open, so it is the only worker, and
the cooldown is over. -/
theorem Cooldown.starts {prio : Priority} {rest : List QueuedEntry} (h : Cooldown policy s)
    (lineage : Lineage s) (live : s.tasks t = .live .head) (opened : (s.closed || s.flag) = false)
    (cool : s.inCooldown = false) :
    Cooldown policy
      ({ s.removeFront prio rest with running := some e }.setTask t (.live (.starting e))) := by
  obtain ⟨closed, _⟩ := closed_of_open opened
  have fresh : s.join.taken = false := by
    rw [lineage.join_idle (.inl closed)]
    rfl
  have only : ∀ t' pc', s.tasks t' = .live pc' → t' = t := fun t' pc' live' =>
    lineage.only fresh (live_of_tasks live') (live_of_tasks live)
  have armed : ∀ p ∈ s.endings, s.Armed policy p.2 := by
    intro p inside
    rcases h.covered p inside with armed | blocked
    · exact armed
    · rw [blocked.closed_of_live live nofun] at closed
      cases closed
  have others : ∀ t' pc', Function.update s.tasks t (.live (.starting e)) t' = .live pc' →
      t' = t := by
    intro t' pc' live'
    by_contra differ
    rw [Function.update_of_ne differ] at live'
    exact differ (only t' pc' live')
  refine ⟨h.past, fun p inside => .inl (armed p inside),
    fun t₁ t₂ pc₁ pc₂ live₁ live₂ _ _ => (others t₁ pc₁ live₁).trans (others t₂ pc₂ live₂).symm,
    fun t' pc' _ _ p inside => ?_, h.spaced⟩
  obtain ⟨until', eq, le⟩ := exists_until (armed p inside)
  rw [inCooldown, eq] at cool
  exact le.trans (Nat.le_of_not_lt (of_decide_eq_false cool))

/-- The executor is called. -/
theorem Cooldown.call {ns : TimestampNs} (h : Cooldown policy s) (live : s.tasks t = .live pc)
    (run : pc.runs ≠ none) : Cooldown policy (s.call t e ns) := by
  have others : ∀ t', t' ≠ t → (s.call t e ns).tasks t' = s.tasks t' :=
    fun _ differ => Function.update_of_ne differ ..
  have before := runs_before live others fun _ _ _ => run
  refine ⟨h.past, fun p inside => ?_, h.one_after before,
    fun t' pc' _ _ => h.elapsed t pc live run, List.pairwise_cons.mpr ⟨?_, h.spaced⟩⟩
  · rcases h.covered p inside with armed | blocked
    · exact .inl armed
    · exact absurd (blocked.1 t pc live) run
  · intro event inside r time r' time' eq eq'
    cases eq
    exact h.elapsed t pc live run (r', time') (List.mem_filterMap.mpr ⟨event, inside, by rw [eq']⟩)

theorem Ends.runs {unknown : Bool} (h : Ends policy s e pc unknown run) : pc.runs = some e := by
  cases h <;> rfl

theorem Ends.unknown {unknown : Bool} (h : Ends policy s e pc unknown run)
    (open' : unknown = true) : run.unknown = true := by
  cases h with
  | callCut => rfl
  | answered => exact open'
  | _ => cases open'

/-- The only runner has stopped. -/
theorem Cooldown.quiet (h : Cooldown policy s) (live : s.tasks t = .live pc) (run : pc.runs ≠ none)
    (tasks : ∀ t', t' ≠ t → s'.tasks t' = s.tasks t')
    (own : ∀ pc', s'.tasks t = .live pc' → pc'.runs = none) :
    ∀ t' pc', s'.tasks t' = .live pc' → pc'.runs = none := by
  intro t' pc' live'
  by_cases same : t' = t
  · subst same
    exact own pc' live'
  · rw [tasks t' same] at live'
    by_contra run'
    exact same (h.one t' t pc' pc live' live run' run)

/-- A run with an unknown outcome ends and arms the cooldown. -/
theorem Cooldown.arms (h : Cooldown policy s) (live : s.tasks t = .live pc)
    (run : pc.runs ≠ none) (tasks : ∀ t', t' ≠ t → s'.tasks t' = s.tasks t')
    (own : ∀ pc', s'.tasks t = .live pc' → pc'.runs = none) (now : s'.now = s.now)
    (logged : s'.log = s.log ∨ ∃ r, s'.log = .ended r s.now :: s.log)
    (armed : s'.cooldownUntil = some (s.now + millis policy.indeterminateCooldownMs)) :
    Cooldown policy s' := by
  have quiet := h.quiet live run tasks own
  have past : ∀ p ∈ s'.endings, p.2 ≤ s.now := by
    intro p inside
    rcases logged with same | ⟨r, same⟩
    · exact h.past p (endings_of_log same ▸ inside)
    · rw [DeviceQueue.endings, same] at inside
      rcases List.mem_cons.mp inside with rfl | before
      · exact Nat.le_refl _
      · exact h.past p before
  refine ⟨fun p inside => now ▸ past p inside, fun p inside => .inl ?_,
    fun t₁ _ pc₁ _ live₁ _ run₁ _ => absurd (quiet t₁ pc₁ live₁) run₁,
    fun t' pc' live' run' => absurd (quiet t' pc' live') run', ?_⟩
  · rw [Armed, armed]
    exact Nat.add_le_add_right (past p inside) _
  · rcases logged with same | ⟨r, same⟩
    · exact same ▸ h.spaced
    · rw [same]
      exact List.pairwise_cons.mpr ⟨fun _ _ _ _ _ _ eq => (by cases eq), h.spaced⟩

/-- An entry that ends is covered by the cooldown. -/
theorem Cooldown.ends {unknown : Bool} {ns : TimestampNs} (h : Cooldown policy s)
    (positive : 0 < policy.indeterminateCooldownMs) (ok : s.Rearms policy (.worker t event))
    (live : s.tasks t = .live pc) (ends : Ends policy s e pc unknown run) :
    Cooldown policy ((s.ended policy e unknown run).startSettle t e run .clear ns) := by
  have move : WorkerMove policy s t pc event
      ((s.ended policy e unknown run).startSettle t e run .clear ns) := .ends ends
  have runs : pc.runs ≠ none := by
    rw [ends.runs]
    exact Option.some_ne_none e
  cases open' : run.unknown with
  | true =>
    have eq : s.ended policy e unknown run =
        { (if unknown then s.logEnded e.reply else s) with
          cooldownUntil := some ((if unknown then s.logEnded e.reply else s).now +
            millis policy.indeterminateCooldownMs) } := by
      rw [ended, open']
      exact if_pos (by simpa using positive)
    rw [eq] at move ⊢
    refine h.arms live runs move.steps.tasks (fun pc' live' => ?_) ?_ ?_ ?_
    · cases (Function.update_self ..).symm.trans live'
      rfl
    all_goals cases unknown
    · rfl
    · rfl
    · exact .inl rfl
    · exact .inr ⟨_, rfl⟩
    · rfl
    · rfl
  | false =>
    have known : unknown = false := by
      cases unknown with
      | false => rfl
      | true => cases (ends.unknown rfl).symm.trans open'
    have eq : s.ended policy e unknown run = s := by
      rw [known, ended, open']
      rfl
    rw [eq] at move ⊢
    refine h.steps ok live move rfl rfl fun pc' live' run' => ?_
    cases (Function.update_self ..).symm.trans live'
    exact absurd rfl run'

theorem adopt_runs (s : QueueState) (t : TaskId) (rest : List QueuedEntry) (ns : TimestampNs) :
    ∀ pc, (s.adopt t rest ns).tasks t = .live pc → pc.runs = none := by
  rcases adopt_eq s t rest ns with ⟨_, eq⟩ | ⟨_, _, _, _, _, _, eq⟩ <;> rw [eq] <;>
    exact own_of_update (Function.update_self ..) rfl

theorem adopt_log (s : QueueState) (t : TaskId) (rest : List QueuedEntry) (ns : TimestampNs) :
    (s.adopt t rest ns).log = s.log ∧ (s.adopt t rest ns).cooldownUntil = s.cooldownUntil := by
  rcases adopt_eq s t rest ns with ⟨_, eq⟩ | ⟨_, _, _, _, _, _, eq⟩ <;> rw [eq] <;>
    exact ⟨rfl, rfl⟩

theorem prepared_log (s : QueueState) :
    s.prepared.log = s.log ∧ s.prepared.cooldownUntil = s.cooldownUntil := by
  obtain ⟨_, _, _, _, eq⟩ := s.prepared_form
  rw [eq]
  exact ⟨rfl, rfl⟩

/-- No step of a worker runs into the cooldown. -/
theorem Cooldown.workerMove (h : Cooldown policy s)
    (positive : 0 < policy.indeterminateCooldownMs) (lineage : Lineage s) (ids : Ids s)
    (ok : s.Rearms policy (.worker t event)) (live : s.tasks t = .live pc)
    (move : WorkerMove policy s t pc event s') : Cooldown policy s' := by
  have idle : ∀ {s₀ : QueueState} {pc₀ : WorkerPc}, s₀.tasks t = .live pc₀ → pc₀.runs = none →
      ∀ pc', s₀.tasks t = .live pc' → pc'.runs ≠ none → pc.runs ≠ none := by
    intro s₀ pc₀ here none pc' live' run
    rw [← TaskState.live.inj (here.symm.trans live')] at run
    exact absurd none run
  obtain ⟨log, cooldown⟩ := s.prepared_log
  have step := move
  cases move with
  | adoptRunning | wakes | settles =>
    exact h.steps ok live step rfl rfl (idle (Function.update_self ..) rfl)
  | @adoptDraining ns _ =>
    obtain ⟨log, cooldown⟩ := adopt_log s.cleared t s.draining ns
    exact h.steps ok live step log cooldown fun pc' live' run =>
      absurd (adopt_runs s.cleared t s.draining ns pc' live') run
  | drains | waits | declines =>
    exact h.steps ok live step log cooldown (idle (Function.update_self ..) rfl)
  | returns =>
    refine h.steps ok live step log cooldown fun pc' live' => ?_
    cases (Function.update_self ..).symm.trans live'
  | starts _ cool front =>
    have opened := ids.open_of_front front
    rw [prepared_of_open opened]
    exact h.starts lineage live opened cool
  | @checks e ns => exact h.steps ok live step rfl rfl fun _ _ _ => Option.some_ne_none e
  | @calls e ns => exact h.call live (Option.some_ne_none e)
  | @callsChecked e at' ns => exact h.call live (Option.some_ne_none e)
  | ends ends => exact h.ends positive ok live ends
  | @finishes st after ns _ =>
    cases after with
    | adopt rest =>
      obtain ⟨log, cooldown⟩ := adopt_log (s.setReply st.entry.reply st.result).sweep t rest ns
      exact h.steps ok live step log cooldown fun pc' live' run =>
        absurd (adopt_runs (s.setReply st.entry.reply st.result).sweep t rest ns pc' live') run
    | clear | loop => exact h.steps ok live step rfl rfl (idle (Function.update_self ..) rfl)

/-! ## The other steps -/

theorem Blocked.spawn {r : ReplyId} (h : s.Blocked r) : s.spawn.Blocked r := by
  have spawned : ∀ {P : WorkerPc → Prop}, P .spawned → (∀ t pc, s.tasks t = .live pc → P pc) →
      ∀ t pc, s.spawn.tasks t = .live pc → P pc := by
    intro P new old t pc live
    rcases live_of_spawn live with rfl | live
    · exact new
    · exact old t pc live
  obtain ⟨quiet, down⟩ := h
  refine ⟨spawned rfl quiet, ?_⟩
  rcases down with closed | ⟨e, running, same, all⟩
  · exact .inl closed
  · exact .inr ⟨e, running, same, spawned rfl all⟩

theorem Cooldown.ensureWorker (h : Cooldown policy s) : Cooldown policy s.ensureWorker := by
  refine ensureWorker_of h fun _ => ?_
  refine h.still rfl rfl (Nat.le_refl _) (fun t pc live run => ?_) fun _ => Blocked.spawn
  rcases live_of_spawn live with rfl | before
  · exact absurd rfl run
  · exact before

/-- A worker dies.  If it dies during a call, its entry stays in `running`
unless the queue is closed, and nobody else is running one. -/
theorem Cooldown.drop (h : Cooldown policy s) (lineage : Lineage s)
    (held : s.join.taken = false → Held s) (live : s.tasks t = .live pc) {state : TaskState}
    (dead : ∀ pc, state ≠ .live pc) : Cooldown policy (s.drop t pc state) := by
  have own : ∀ (s₀ : QueueState), s₀.tasks = Function.update s.tasks t state →
      ∀ t' pc', s₀.tasks t' = .live pc' → t' ≠ t ∧ s.tasks t' = .live pc' :=
    fun _ eq _ _ live' => live_of_update dead (eq ▸ live')
  have plain : ∀ {s₀ : QueueState}, s₀.tasks = Function.update s.tasks t state →
      s₀.log = s.log → s₀.cooldownUntil = s.cooldownUntil → s.now = s₀.now →
      s₀.running = s.running → s₀.closed = s.closed → Cooldown policy s₀ := by
    intro s₀ tasks log cooldown now running closed
    refine h.still log cooldown (Nat.le_of_eq now) (fun t' pc' live' _ =>
      (own _ tasks t' pc' live').2) ?_
    rintro r ⟨quiet, down⟩
    refine ⟨fun t' pc' live' => quiet t' pc' (own _ tasks t' pc' live').2, ?_⟩
    rcases down with shut | ⟨e, here, same, all⟩
    · exact .inl (closed.trans shut)
    · exact .inr ⟨e, running.trans here, same,
        fun t' pc' live' => all t' pc' (own _ tasks t' pc' live').2⟩
  cases pc with
  | executing e at' =>
    have runs : (WorkerPc.executing e at').runs ≠ none := Option.some_ne_none e
    have quiet : ∀ t' pc', Function.update s.tasks t state t' = .live pc' → pc'.runs = none := by
      intro t' pc' live'
      obtain ⟨differ, before⟩ := own (s.setTask t state) rfl t' pc' live'
      by_contra run
      exact differ (h.one t' t pc' _ before live run runs)
    have blocked : (s.drop t (.executing e at') state).Blocked e.reply := by
      refine ⟨quiet, ?_⟩
      cases closed : s.closed with
      | true => exact .inl closed
      | false =>
        have fresh : s.join.taken = false := by
          rw [lineage.join_idle (.inl closed)]
          rfl
        refine .inr ⟨e, held fresh t _ live nofun, rfl, fun t' pc' live' => ?_⟩
        obtain ⟨differ, before⟩ := own (s.setTask t state) rfl t' pc' live'
        exact absurd (lineage.only fresh (live_of_tasks before) (live_of_tasks live)) differ
    refine ⟨fun p inside => ?_, fun p inside => ?_,
      fun t₁ _ pc₁ _ live₁ _ run₁ _ => absurd (quiet t₁ pc₁ live₁) run₁,
      fun t' pc' live' run' => absurd (quiet t' pc' live') run',
      List.pairwise_cons.mpr ⟨fun _ _ _ _ _ _ eq => (by cases eq), h.spaced⟩⟩
    · rcases List.mem_cons.mp inside with rfl | before
      · exact Nat.le_refl _
      · exact h.past p before
    · rcases List.mem_cons.mp inside with rfl | before
      · exact .inr blocked
      · rcases h.covered p before with armed | other
        · exact .inl armed
        · exact absurd (other.1 t _ live) runs
  | _ => exact plain rfl rfl rfl rfl rfl rfl

theorem Cooldown.takeOver (h : Cooldown policy s) (budget : Nat) :
    Cooldown policy (s.takeOver budget) :=
  h.still rfl rfl (Nat.le_refl _) (fun _ _ live _ => live) fun _ blocked => ⟨blocked.1, .inl rfl⟩

/-- No step runs into the cooldown. -/
theorem Cooldown.step (h : Cooldown policy s) (positive : 0 < policy.indeterminateCooldownMs)
    (lineage : Lineage s) (ids : Ids s) (held : s.join.taken = false → Held s)
    (ok : s.Rearms policy label) (move : Move policy s label s') : Cooldown policy s' := by
  cases move with
  | tick => exact h.still rfl rfl (Nat.le_add_right _ _) (fun _ _ live _ => live) fun _ => id
  | enter | revive =>
    exact Cooldown.ensureWorker
      (h.still rfl rfl (Nat.le_refl _) (fun _ _ live _ => live) fun _ => id)
  | push =>
    refine ⟨h.past, h.covered, h.one, h.elapsed, List.pairwise_cons.mpr ⟨?_, h.spaced⟩⟩
    exact fun _ _ _ _ _ _ eq => by cases eq
  | shutdown =>
    exact h.still rfl rfl (Nat.le_refl _) (fun _ _ live _ => live)
      fun _ blocked => ⟨blocked.1, .inl rfl⟩
  | joinedDead => exact h.takeOver _
  | abort _ live => exact Cooldown.takeOver (h.drop lineage held live fun _ eq => by cases eq) _
  | worker live move => exact h.workerMove positive lineage ids ok live move
  | panic live => exact h.drop lineage held live fun _ eq => by cases eq
  | _ => exact h.still rfl rfl (Nat.le_refl _) (fun _ _ live _ => live) fun _ => id

/-! ## Runs -/

theorem Move.taken (move : Move policy s label s') (taken : s.join.taken = true) :
    s'.join.taken = true := by
  cases move with
  | enter | revive => exact ensureWorker_of (P := (·.join.taken = true)) taken fun _ => taken
  | shutdown _ idle =>
    rw [idle] at taken
    cases taken
  | worker _ move =>
    rw [move.steps.frame.join]
    exact taken
  | @panic t pc =>
    rw [(s.drop_steps t pc .panicked).frame.join]
    exact taken
  | tick | raise | elsewhere | push | cancel | supervise | findsDead => exact taken
  | _ => rfl

/-- Before `join` takes the handle. -/
theorem Held.step_fresh (h : s.join.taken = false → Held s) (lineage : Lineage s)
    (move : Move policy s label s') : s'.join.taken = false → Held s' := by
  intro fresh'
  have fresh : s.join.taken = false := by
    cases taken : s.join.taken with
    | false => rfl
    | true => cases (move.taken taken).symm.trans fresh'
  refine (h fresh).step (fun t pc t' pc' live live' =>
    lineage.only fresh (live_of_tasks live') (live_of_tasks live))
    (fun todo deadline current at' => ?_) move
  rw [at'] at fresh'
  cases fresh'

/-- In every run in which no worker takes over an entry whose call was left
without arming the cooldown, every call starts a cooldown after each call that
ended before it without a definite outcome. -/
theorem calls_cooled {shared : Shared} {labels : List Label}
    (positive : 0 < policy.indeterminateCooldownMs)
    (run : (queueMachine policy).Run (Rearms policy) (.new policy shared) labels s) :
    s.log.Pairwise (Apart policy) := by
  have sound : Lineage s ∧ Ids s ∧ (s.join.taken = false → Held s) ∧ Cooldown policy s := by
    refine run.invariant
      (P := fun s => Lineage s ∧ Ids s ∧ (s.join.taken = false → Held s) ∧ Cooldown policy s)
      ⟨.new policy shared, .new policy shared, fun _ => .new policy shared, .new policy shared⟩ ?_
    rintro s label s' ⟨lineage, ids, held, cooldown⟩ ok taken
    have move := step_move taken
    exact ⟨lineage.step move, ids.step move, Held.step_fresh held lineage move,
      cooldown.step positive lineage ids held ok move⟩
  exact sound.2.2.2.spaced

/-- The driver does not know whether it wrote, and the second entry has to wait. -/
def unsure : List Label :=
  [.push (sample 0), .enter, .push (sample 1), .enter, .worker 0 (.begin 0), .worker 0 (.round 0),
    .worker 0 (.poll 0), .worker 0 (.answer (.write (.indeterminate ⟨"timeout", none⟩)) 0)] ++
    settles 0 ++ [.worker 0 (.round 0), .tick 5000000000, .worker 0 .wake, .worker 0 (.round 0),
    .worker 0 (.poll 0)]

/-- The second call is made when the cooldown is over. -/
theorem calls_cooled_unsure :
    0 < ControlPolicy.default.indeterminateCooldownMs ∧
    ∃ s, (queueMachine .default).Run (Rearms .default) quiet unsure s ∧
      (.called (sample 1) 5000000000 ∈ s.log ∧ .ended 0 0 ∈ s.log) ∧
        s.log.Pairwise (Apart .default) := by
  exact ⟨by decide, Lib.Machine.Run.find (by decide) fun s run _ => calls_cooled (by decide) run⟩

/-- A worker dies during a call; its successor settles the entry as
indeterminate and calls the executor for the next one at once. -/
theorem respawned_calls_at_once :
    ∃ s, (queueMachine .default).Run Lib.Machine.Always quiet
        ([.push (sample 0), .enter, .push (sample 1), .enter, .worker 0 (.begin 0),
          .worker 0 (.round 0), .worker 0 (.poll 0), .panic 0, .supervise, .revive,
          .worker 1 (.begin 0)] ++ settles 1 ++ [.worker 1 (.round 0), .worker 1 (.poll 0)]) s ∧
      (s.replies 0).map (fun result => result.status) = [.indeterminate] ∧
      s.log.take 2 = [.called (sample 1) 0, .ended 0 0] ∧ ¬s.log.Pairwise (Apart .default) := by
  obtain ⟨s, run, status, log⟩ := Lib.Machine.Run.of_any
    (fun s : QueueState => (s.replies 0).map (fun result => result.status) = [.indeterminate] ∧
      s.log.take 2 = [.called (sample 1) 0, .ended 0 0])
    (show ((queueMachine .default).exec Lib.Machine.Always quiet
        ([.push (sample 0), .enter, .push (sample 1), .enter, .worker 0 (.begin 0),
          .worker 0 (.round 0), .worker 0 (.poll 0), .panic 0, .supervise, .revive,
          .worker 1 (.begin 0)] ++ settles 1 ++ [.worker 1 (.round 0),
            .worker 1 (.poll 0)])).any _ =
        true by decide)
  refine ⟨s, run, status, log, fun spaced => ?_⟩
  have first := (spaced.sublist (List.take_sublist 2 s.log))
  rw [log] at first
  have apart := (List.pairwise_cons.mp first).1 _ List.mem_cons_self (sample 1) 0 0 0 rfl rfl
  exact absurd apart (by decide)

end QueueState

end ForgeLink.Control
