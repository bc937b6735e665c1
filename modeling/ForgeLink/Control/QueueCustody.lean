import Mathlib.Data.List.TakeWhile
import ForgeLink.Control.QueueSettlement

/-!
# Custody

An accepted entry without a result is in one of the shared structures, so that
whoever takes over from a dead worker finds it.  A respawned worker breaks this
when it takes over two such entries: it moves `draining` into a variable of its
own and settles the entries one by one.  `Orphans` excludes that step; without
it nothing is lost, and when `join` returns every accepted entry has a result.
-/

namespace ForgeLink.Control

namespace QueueState

variable {policy : ControlPolicy} {s s' : QueueState} {t : TaskId} {pc : WorkerPc}
variable {event : Event} {e : QueuedEntry} {label : Label} {state : TaskState} {ns : TimestampNs}

/-! ## What a step does to the results -/

theorem WorkerMove.replies (move : WorkerMove policy s t pc event s') :
    s'.replies = s.replies ∨
      ∃ st after ns, pc = .settling st after ∧ event = .audited ns ∧ st.stage = .audit ∧
        s'.replies = (s.setReply st.entry.reply st.result).replies := by
  cases move with
  | adoptDraining => exact .inl (adopt_fields s.cleared t s.draining _).1
  | drains | returns | waits | declines | starts => exact .inl s.prepared_replies
  | @ends pc event e unknown run ns _ =>
    obtain ⟨_, _, eq⟩ := ended_form policy s e unknown run
    rw [eq]
    exact .inl rfl
  | @finishes st after ns ready =>
    refine .inr ⟨st, after, ns, rfl, rfl, ready, ?_⟩
    cases after with
    | adopt rest => exact (adopt_fields (s.setReply st.entry.reply st.result).sweep t rest ns).1
    | _ => rfl
  | _ => exact .inl rfl

theorem WorkerMove.isSet (move : WorkerMove policy s t pc event s') {r : ReplyId}
    (set : s.isSet r = true) : s'.isSet r = true := by
  rcases move.replies with same | ⟨st, after, _, _, _, _, same⟩
  · rwa [isSet_of_replies same]
  · rw [Shared.isSet, same]
    exact isSet_setReply st.result set

/-! ## What `running` holds -/

/-- A worker that has begun has in `running` what it runs. -/
def Held (s : QueueState) : Prop :=
  ∀ t pc, s.tasks t = .live pc → pc ≠ .spawned → s.running = pc.holds

theorem Held.new (policy : ControlPolicy) (shared : Shared) :
    Held (QueueState.new policy shared) := by
  intro t pc live
  cases live

theorem Held.ensureWorker (h : Held s) : Held s.ensureWorker := by
  refine ensureWorker_of h fun _ => ?_
  intro t pc live begun
  rcases live_of_spawn live with fresh | live
  · exact absurd fresh begun
  · exact h t pc live begun

theorem Held.drop (h : Held s) (pc : WorkerPc) (dead : ∀ pc, state ≠ .live pc) :
    Held (s.drop t pc state) := by
  have rest : ∀ t' pc', Function.update s.tasks t state t' = .live pc' → pc' ≠ .spawned →
      s.running = pc'.holds :=
    fun t' pc' live => h t' pc' (live_of_update dead live).2
  cases pc <;> exact rest

/-- A step of the only live worker. -/
theorem Held.steps (only : ∀ t' pc', s.tasks t' = .live pc' → t' = t) (steps : Steps t s s')
    (own : ∀ pc, s'.tasks t = .live pc → s'.running = pc.holds) : Held s' := by
  intro t' pc' live _
  by_cases same : t' = t
  · exact own pc' (same ▸ live)
  · rw [steps.tasks t' same] at live
    exact absurd (only t' pc' live) same

theorem adopt_held (running : s.running = none) (rest : List QueuedEntry) (ns : TimestampNs) :
    ∀ pc, (s.adopt t rest ns).tasks t = .live pc → (s.adopt t rest ns).running = pc.holds := by
  rcases adopt_eq s t rest ns with ⟨_, eq⟩ | ⟨_, e, rest', _, _, _, eq⟩ <;> rw [eq] <;>
    exact own_of_update (Function.update_self ..) running

/-- The only worker notes what it runs. -/
theorem Held.workerMove (h : Held s) (only : ∀ t' pc', s.tasks t' = .live pc' → t' = t)
    (live : s.tasks t = .live pc) (move : WorkerMove policy s t pc event s') : Held s' := by
  refine .steps only move.steps ?_
  have own := h t pc live
  have update : ∀ {s₀ : QueueState} {state : TaskState},
      s₀.tasks = Function.update s.tasks t state → s₀.tasks t = state := fun eq => by
    rw [eq, Function.update_self]
  cases move with
  | adoptRunning | starts => exact own_of_update (Function.update_self ..) rfl
  | adoptDraining => exact adopt_held rfl _ _
  | drains | waits | declines =>
    exact own_of_update (Function.update_self ..) (s.prepared_running.trans (own nofun))
  | returns =>
    intro pc live
    cases (Function.update_self ..).symm.trans live
  | wakes | checks | calls | callsChecked => exact own_of_update (update rfl) (own nofun)
  | @ends pc event e unknown run ns ends =>
    obtain ⟨_, _, eq⟩ := ended_form policy s e unknown run
    rw [eq]
    refine own_of_update (Function.update_self ..) ((own ?_).trans ends.current.2.2)
    cases ends <;> nofun
  | @settles st st' after event next =>
    refine own_of_update (update rfl) ((own nofun).trans ?_)
    cases after with
    | clear => exact congrArg some (Settling.next_entry next).symm
    | _ => rfl
  | @finishes st after ns _ =>
    cases after with
    | clear => exact own_of_update (Function.update_self ..) rfl
    | loop => exact own_of_update (Function.update_self ..) (own nofun)
    | adopt rest =>
      exact adopt_held (s := (s.setReply st.entry.reply st.result).sweep) (own nofun) rest ns

/-- A step while there is one worker, and none once `settle_abandoned` runs. -/
theorem Held.step (h : Held s)
    (only : ∀ t pc t' pc', s.tasks t = .live pc → s.tasks t' = .live pc' → t' = t)
    (quits : ∀ todo deadline current, s'.join = .abandoning todo deadline current →
      ∀ t pc, s'.tasks t ≠ .live pc)
    (move : Move policy s label s') : Held s' := by
  cases move with
  | enter | revive => exact Held.ensureWorker h
  | joinedDead | abort => exact fun t pc live => absurd live (quits _ _ _ rfl t pc)
  | worker live move => exact h.workerMove (fun t' pc' => only _ _ t' pc' live) live move
  | @panic t pc => exact h.drop pc fun _ eq => by cases eq
  | _ => exact h

/-! ## Emptied queues -/

/-- The shared structures hold no entry. -/
def Empty (s : QueueState) : Prop := s.queued = [] ∧ s.running = none ∧ s.draining = []

/-- `settle_abandoned` has emptied the queue, and so has a worker that returned. -/
structure Drained (s : QueueState) : Prop where
  abandoning : ∀ todo deadline current, s.join = .abandoning todo deadline current → s.Empty
  returned : ∀ t, s.worker = some t ∨ s.join = .waiting t → s.tasks t = .returned →
    s.closed = true ∧ s.Empty

theorem Drained.new (policy : ControlPolicy) (shared : Shared) :
    Drained (QueueState.new policy shared) where
  abandoning _ _ _ at' := by cases at'
  returned t _ gone := by cases gone

/-- The worker that is live is the one the handle or `join` names. -/
theorem Regular.named (h : Regular s) {t' : TaskId} (live : s.tasks t = .live pc)
    (named : s.worker = some t' ∨ s.join = .waiting t') : t' = t := by
  cases taken : s.join.taken with
  | false =>
    have handle := h.lineage.lone taken t (live_of_tasks live)
    rcases named with named | named
    · exact Option.some.inj (named.symm.trans handle)
    · rw [named] at taken
      cases taken
  | true =>
    have waited := h.alone.waited taken t (live_of_tasks live)
    rcases named with named | named
    · rw [(h.alone.quiet taken).1] at named
      cases named
    · rw [named] at waited
      cases waited
      rfl

/-- A step that moves neither an entry nor a task. -/
theorem Drained.still (h : Drained s) (entries : s'.entries = s.entries)
    (running : s'.running = s.running) (draining : s'.draining = s.draining)
    (tasks : s'.tasks = s.tasks) (closed : s.closed = true → s'.closed = true)
    (abandoning : ∀ todo deadline current, s'.join = .abandoning todo deadline current → s.Empty)
    (named : ∀ t, s'.worker = some t ∨ s'.join = .waiting t →
      s.worker = some t ∨ s.join = .waiting t) : Drained s' := by
  have same : s.Empty → s'.Empty := by
    rintro ⟨queued, none, drained⟩
    refine ⟨?_, running.trans none, draining.trans drained⟩
    rw [DeviceQueue.queued, entries]
    exact queued
  refine ⟨fun todo deadline current at' => same (abandoning todo deadline current at'),
    fun t here gone => ?_⟩
  rw [tasks] at gone
  obtain ⟨down, empty⟩ := h.returned t (named t here) gone
  exact ⟨closed down, same empty⟩

/-- `settle_abandoned` goes on. -/
theorem Drained.abandon (h : Drained s) {todo : List (QueuedEntry × RunResult)}
    {deadline : Instant} {current : Option Settling}
    (at' : s.join = .abandoning todo deadline current) {todo' : List (QueuedEntry × RunResult)}
    {current' : Option Settling} (join : s'.join = .abandoning todo' deadline current')
    (entries : s'.entries = s.entries) (running : s'.running = s.running)
    (draining : s'.draining = s.draining) (tasks : s'.tasks = s.tasks)
    (closed : s'.closed = s.closed) (worker : s'.worker = s.worker) : Drained s' := by
  refine h.still entries running draining tasks closed.trans
    (fun _ _ _ _ => h.abandoning _ _ _ at') fun t here => ?_
  rw [join, worker] at here
  exact here.elim .inl fun eq => by cases eq

theorem Drained.ensureWorker (h : Drained s) : Drained s.ensureWorker := by
  refine ensureWorker_of h fun _ => ?_
  refine ⟨h.abandoning, fun t named gone => ?_⟩
  rw [spawn_tasks] at gone
  by_cases same : t = s.nextTask
  · rw [same, Function.update_self] at gone
    cases gone
  · rw [Function.update_of_ne same] at gone
    rcases named with named | named
    · exact absurd (Option.some.inj named).symm same
    · exact h.returned t (.inr named) gone

theorem Drained.drop (h : Drained s) (pc : WorkerPc) (dead : state ≠ .returned) :
    Drained (s.drop t pc state) := by
  have rest : ∀ t', s.worker = some t' ∨ s.join = .waiting t' →
      Function.update s.tasks t state t' = .returned → s.closed = true ∧ s.Empty := by
    intro t' named gone
    by_cases same : t' = t
    · rw [same, Function.update_self] at gone
      exact absurd gone dead
    · rw [Function.update_of_ne same] at gone
      exact h.returned t' named gone
  cases pc <;> exact ⟨h.abandoning, rest⟩

theorem prepared_closed (down : (s.closed || s.flag) = true) : s.prepared.closed = true := by
  rw [prepared_of_closed down, drain]
  split <;> rfl

/-- A worker returns only when nothing is left. -/
theorem WorkerMove.returned (ids : Ids s) (move : WorkerMove policy s t pc event s')
    (gone : s'.tasks t = .returned) :
    s'.closed = true ∧ s'.Empty := by
  have not_live : ∀ {pc : WorkerPc}, s'.tasks t ≠ .live pc := fun live => by
    cases gone.symm.trans live
  cases move with
  | returns down drained none =>
    obtain ⟨_, queued, _⟩ := ids.prepared_of_closed down
    exact ⟨prepared_closed down, queued, s.prepared_running.trans none, drained⟩
  | @adoptDraining ns _ =>
    rcases adopt_eq s.cleared t s.draining ns with ⟨_, eq⟩ | ⟨_, _, _, _, _, _, eq⟩ <;>
      rw [eq] at not_live <;> exact absurd (Function.update_self ..) not_live
  | @finishes st after ns _ =>
    cases after with
    | adopt rest =>
      rcases adopt_eq (s.setReply st.entry.reply st.result).sweep t rest ns with
        ⟨_, eq⟩ | ⟨_, _, _, _, _, _, eq⟩ <;>
        rw [finish, eq] at not_live <;> exact absurd (Function.update_self ..) not_live
    | _ => exact absurd (Function.update_self ..) not_live
  | _ => exact absurd (Function.update_self ..) not_live

theorem Drained.workerMove (regular : Regular s) (live : s.tasks t = .live pc)
    (move : WorkerMove policy s t pc event s') : Drained s' := by
  have steps := move.steps
  refine ⟨fun todo deadline current at' => ?_, fun t' named gone => ?_⟩
  · rw [steps.frame.join] at at'
    exact absurd live (regular.abandoned at')
  · rw [steps.frame.worker, steps.frame.join] at named
    obtain rfl := regular.named live named
    exact move.returned regular.ids gone

theorem takeOver_empty (s : QueueState) (budget : Nat) : (s.takeOver budget).Empty :=
  ⟨queued_eq_nil fun _ => rfl, rfl, rfl⟩

theorem Drained.takeOver (s : QueueState) (budget : Nat) : Drained (s.takeOver budget) :=
  ⟨fun _ _ _ _ => s.takeOver_empty budget, fun _ _ _ => ⟨rfl, s.takeOver_empty budget⟩⟩

/-- No step fills a queue that was emptied. -/
theorem Drained.step (h : Drained s) (regular : Regular s) (move : Move policy s label s') :
    Drained s' := by
  have named : ∀ {join : JoinPc}, (∀ t, join ≠ .waiting t) → ∀ t,
      s.worker = some t ∨ join = .waiting t → s.worker = some t ∨ s.join = .waiting t := by
    intro join differ t here
    exact here.elim .inl fun eq => absurd eq (differ t)
  cases move with
  | tick | raise | elsewhere | cancel | supervise | findsDead =>
    exact h.still rfl rfl rfl rfl id h.abandoning fun _ => id
  | push _ opened =>
    have idle := regular.lineage.join_idle (.inl opened)
    refine ⟨fun _ _ _ at' => ?_, fun t here gone => ?_⟩
    · cases idle.symm.trans at'
    · rw [(h.returned t here gone).1] at opened
      cases opened
  | enter | revive =>
    exact Drained.ensureWorker (h.still rfl rfl rfl rfl id h.abandoning fun _ => id)
  | shutdown =>
    exact h.still rfl rfl rfl rfl (fun _ => rfl) (fun _ _ _ at' => by cases at')
      (named fun _ => nofun)
  | joinNone | joined | abandonDone =>
    exact h.still rfl rfl rfl rfl id (fun _ _ _ at' => by cases at') (named fun _ => nofun)
  | joinTake _ handle =>
    refine h.still rfl rfl rfl rfl id (fun _ _ _ at' => by cases at') fun t' here => .inl ?_
    rcases here with here | here
    · cases here
    · cases here
      exact handle
  | joinedDead => exact .takeOver s _
  | abort => exact .takeOver _ _
  | skip at' | next at' | abandonSettles at' | givesUp at' | abandonFinishes at' =>
    exact h.abandon at' rfl rfl rfl rfl rfl rfl rfl
  | worker live move => exact .workerMove regular live move
  | @panic t pc => exact h.drop pc nofun

/-! ## Queues without a worker -/

/-- As long as no worker was spawned, every accepted entry is on its way to
`ensure_worker`. -/
def Unworked (s : QueueState) : Prop :=
  s.worker = none → s.join.taken = false → s.accepted.length ≤ s.entering

theorem ensureWorker_worker (s : QueueState) : s.ensureWorker.worker ≠ none := by
  intro none
  rcases s.ensureWorker_eq with ⟨eq, here⟩ | ⟨eq, _⟩
  · rw [eq] at none
    exact here fun t handle => by cases none.symm.trans handle
  · rw [eq] at none
    cases none

theorem Unworked.step (h : Unworked s) (move : Move policy s label s') : Unworked s' := by
  cases move with
  | push => exact fun none fresh => Nat.succ_le_succ (h none fresh)
  | enter | revive => exact fun none => absurd none (ensureWorker_worker _)
  | shutdown _ idle => exact fun none _ => h none (by rw [idle]; rfl)
  | worker live move =>
    intro none fresh
    have frame := move.steps.frame
    rw [frame.worker] at none
    rw [frame.join] at fresh
    rw [move.accepted, frame.entering]
    exact h none fresh
  | @panic t pc =>
    intro none fresh
    cases pc <;> exact h none fresh
  | tick | raise | elsewhere | cancel | supervise | findsDead => exact h
  | _ => exact fun _ fresh => by cases fresh

/-! ## The invariant -/

/-- The entry can be found by whoever takes over from a worker, or
`settle_abandoned` has it. -/
def Kept (s : QueueState) (e : QueuedEntry) : Prop :=
  e ∈ s.queued ∨ s.running = some e ∨ e ∈ s.draining ∨ e ∈ s.join.entries

/-- A worker that begins takes over at most one entry without a result. -/
def Orphans (s : QueueState) : Label → Prop
  | .worker _ (.begin _) =>
    ∀ e ∈ s.running.toList ++ s.draining, ∀ e' ∈ s.running.toList ++ s.draining,
      s.isSet e.reply = false → s.isSet e'.reply = false → e.reply = e'.reply
  | _ => True

instance (s : QueueState) (label : Label) : Decidable (s.Orphans label) := by
  unfold Orphans
  split <;> infer_instance

/-- No accepted entry is lost. -/
structure Custody (s : QueueState) : Prop where
  kept : ∀ e ∈ s.accepted, s.isSet e.reply = false → s.Kept e
  rest : ∀ t st rest, s.tasks t = .live (.settling st (.adopt rest)) → ∀ e ∈ rest,
    s.isSet e.reply = true ∨ e.reply = st.entry.reply
  done : s.join = .finished → ∀ e ∈ s.accepted, s.isSet e.reply = true

theorem Custody.new (policy : ControlPolicy) (shared : Shared) :
    Custody (QueueState.new policy shared) where
  kept e inside := by cases inside
  rest t st rest live := by cases live
  done at' := by cases at'

theorem unset_of_set {r : ReplyId} (mono : s.isSet r = true → s'.isSet r = true)
    (unset : s'.isSet r = false) : s.isSet r = false := by
  cases set : s.isSet r with
  | false => rfl
  | true => rw [mono set] at unset; cases unset

/-- A step of a worker that moves the entries to where they are still found. -/
theorem Custody.steps (h : Custody s) (regular : Regular s)
    (live : s.tasks t = .live pc) (move : WorkerMove policy s t pc event s')
    (kept : ∀ e ∈ s.accepted, s'.isSet e.reply = false → s.Kept e → s'.Kept e)
    (rest : ∀ st rest, s'.tasks t = .live (.settling st (.adopt rest)) → ∀ e ∈ rest,
      s'.isSet e.reply = true ∨ e.reply = st.entry.reply) : Custody s' := by
  have steps := move.steps
  refine ⟨fun e inside unset => ?_, fun t' st rest' live' => ?_, fun at' e inside => ?_⟩
  · rw [move.accepted] at inside
    exact kept e inside unset (h.kept e inside (unset_of_set move.isSet unset))
  · obtain rfl := regular.stepped live steps live'
    exact rest st rest' live'
  · rw [steps.frame.join] at at'
    rw [move.accepted] at inside
    exact move.isSet (h.done at' e inside)

theorem Kept.prepared (ids : Ids s) (h : s.Kept e) : s.prepared.Kept e := by
  rcases h with queued | running | draining | join
  · cases down : s.closed || s.flag with
    | false =>
      rw [prepared_of_open down]
      exact .inl queued
    | true =>
      refine .inr (.inr (.inl ?_))
      rw [(ids.prepared_of_closed down).1]
      exact List.mem_append_right _ queued
  · exact .inr (.inl (s.prepared_running.trans running))
  · refine .inr (.inr (.inl ?_))
    cases down : s.closed || s.flag with
    | false => rwa [prepared_of_open down]
    | true =>
      rw [(ids.prepared_of_closed down).1]
      exact List.mem_append_left _ draining
  · refine .inr (.inr (.inr ?_))
    rwa [s.prepared_frame.join]

/-- Adding to `draining` loses nothing. -/
theorem Kept.tracked {e' : QueuedEntry} {run : RunResult} {after : After} (h : s.Kept e) :
    (s.startTracked t e' run after ns).Kept e := by
  rcases h with queued | running | draining | join
  · exact .inl queued
  · exact .inr (.inl running)
  · exact .inr (.inr (.inl (List.mem_append_left _ draining)))
  · exact .inr (.inr (.inr join))

theorem tracked_kept {run : RunResult} {after : After} : (s.startTracked t e run after ns).Kept e :=
  .inr (.inr (.inl (List.mem_append_right _ List.mem_cons_self)))

/-- Only the entry that is taken leaves the queue. -/
theorem Kept.removeFront {prio : Priority} {e₀ : QueuedEntry} {rest : List QueuedEntry}
    (front : s.entries prio = e₀ :: rest) (h : s.Kept e) :
    e = e₀ ∨ (s.removeFront prio rest).Kept e := by
  rcases h with queued | other
  · exact (List.mem_cons.mp ((queued_removeFront front).mem_iff.mp queued)).imp_right .inl
  · exact .inr (.inr other)

theorem mem_dropWhile_of_not {α : Type} {p : α → Bool} {a : α} {l : List α} (inside : a ∈ l)
    (not : p a = false) : a ∈ l.dropWhile p := by
  rw [← List.takeWhile_append_dropWhile (p := p) (l := l)] at inside
  rcases List.mem_append.mp inside with dropped | left
  · rw [List.mem_takeWhile_imp dropped] at not
    cases not
  · exact left

theorem Kept.sweep (h : s.Kept e) (unset : s.isSet e.reply = false) : s.sweep.Kept e := by
  rcases h with queued | running | draining | join
  · exact .inl queued
  · exact .inr (.inl running)
  · exact .inr (.inr (.inl (mem_dropWhile_of_not draining unset)))
  · exact .inr (.inr (.inr join))

/-- The step in which a worker takes over from a dead one. -/
theorem Custody.begins (h : Custody s) (regular : Regular s)
    (ok : s.Orphans (.worker t (.begin ns))) (live : s.tasks t = .live .spawned)
    (move : WorkerMove policy s t .spawned (.begin ns) s') : Custody s' := by
  have orphan : ∀ e ∈ s.running.toList ++ s.draining, e ∈ s.accepted := by
    intro e inside
    rcases List.mem_append.mp inside with here | here
    · exact (regular.ids.running e (Option.mem_toList.mp here)).1
    · exact (regular.ids.draining e here).1
  have same := ok
  -- Whatever was in `running` or `draining` without a result is the one entry adopted.
  have adopted : ∀ {e₀ : QueuedEntry}, e₀ ∈ s.running.toList ++ s.draining →
      s.isSet e₀.reply = false → ∀ {run after},
      ∀ e ∈ s.accepted, s.isSet e.reply = false → s.Kept e →
        (s.cleared.startTracked t e₀ run after ns).Kept e := by
    intro e₀ inside₀ unset₀ run after e inside unset kept
    have known : e ∈ s.running.toList ++ s.draining →
        (s.cleared.startTracked t e₀ run after ns).Kept e := by
      intro here
      have eq := regular.ids.eq_of_reply inside (orphan e₀ inside₀)
        (same e here e₀ inside₀ unset unset₀)
      exact eq ▸ tracked_kept
    rcases kept with queued | running | draining | join
    · exact .inl queued
    · exact known (List.mem_append_left _ (Option.mem_toList.mpr running))
    · exact known (List.mem_append_right _ draining)
    · exact .inr (.inr (.inr join))
  cases move with
  | @adoptRunning _ e₀ running unset₀ =>
    have inside₀ : e₀ ∈ s.running.toList ++ s.draining :=
      List.mem_append_left _ (Option.mem_toList.mpr running)
    have step : WorkerMove policy s t .spawned (.begin ns) _ := .adoptRunning running unset₀
    refine h.steps regular live step (adopted inside₀ unset₀) fun st rest live' e here => ?_
    cases (Function.update_self ..).symm.trans live'
    cases set : s.isSet e.reply with
    | true => exact .inl set
    | false => exact .inr (same e (List.mem_append_right _ here) e₀ inside₀ set unset₀)
  | adoptDraining all =>
    have step : WorkerMove policy s t .spawned (.begin ns) (s.cleared.adopt t s.draining ns) :=
      .adoptDraining all
    rcases adopt_eq s.cleared t s.draining ns with ⟨settled, eq⟩ |
      ⟨before, e₀, rest, split, _, unset₀, eq⟩
    · rw [eq] at step ⊢
      refine h.steps regular live step (fun e inside unset kept => ?_) fun st rest live' => ?_
      · rcases kept with queued | running | draining | join
        · exact .inl queued
        · cases (all e running).symm.trans unset
        · cases (settled e draining).symm.trans unset
        · exact .inr (.inr (.inr join))
      · cases (Function.update_self ..).symm.trans live'
    · rw [eq] at step ⊢
      have inside₀ : e₀ ∈ s.running.toList ++ s.draining := by
        refine List.mem_append_right _ ?_
        rw [split]
        exact List.mem_append_right _ List.mem_cons_self
      refine h.steps regular live step (adopted inside₀ unset₀) fun st rest' live' e here => ?_
      cases (Function.update_self ..).symm.trans live'
      have inside : e ∈ s.running.toList ++ s.draining := by
        refine List.mem_append_right _ ?_
        rw [split]
        exact List.mem_append_right _ (List.mem_cons_of_mem _ here)
      cases set : s.isSet e.reply with
      | true => exact .inl set
      | false => exact .inr (same e inside e₀ inside₀ set unset₀)
  | ends ends => cases ends

/-- No step of a worker loses an entry. -/
theorem Custody.workerMove (h : Custody s) (regular : Regular s) (held : Held s)
    (ok : s.Orphans (.worker t event)) (live : s.tasks t = .live pc)
    (move : WorkerMove policy s t pc event s') : Custody s' := by
  have plain : ∀ {s₀ : QueueState} {pc' : WorkerPc}, s₀.tasks t = .live pc' →
      (∀ st rest, pc' ≠ .settling st (.adopt rest)) →
      ∀ st rest, s₀.tasks t = .live (.settling st (.adopt rest)) → ∀ e ∈ rest,
        s₀.isSet e.reply = true ∨ e.reply = st.entry.reply := by
    intro s₀ pc' here differ st rest live'
    exact absurd (TaskState.live.inj (here.symm.trans live')) (differ st rest)
  have free : pc = .head → s.running = none := by
    rintro rfl
    exact held t _ live nofun
  have step := move
  cases move with
  | adoptRunning | adoptDraining => exact h.begins regular ok live step
  | drains =>
    exact h.steps regular live step (fun e _ _ kept => (kept.prepared regular.ids).tracked)
      (plain (Function.update_self ..) fun _ _ => nofun)
  | returns =>
    refine h.steps regular live step (fun e _ _ kept => kept.prepared regular.ids)
      fun st rest live' => ?_
    cases (Function.update_self ..).symm.trans live'
  | waits =>
    exact h.steps regular live step (fun e _ _ kept => kept.prepared regular.ids)
      (plain (Function.update_self ..) fun _ _ => nofun)
  | @declines ns prio e₀ rest run _ _ front _ =>
    have opened := regular.ids.open_of_front front
    rw [prepared_of_open opened] at front step ⊢
    refine h.steps regular live step (fun e _ _ kept => ?_)
      (plain (Function.update_self ..) fun _ _ => nofun)
    rcases kept.removeFront front with rfl | left
    · exact tracked_kept
    · exact left.tracked
  | @starts ns prio e₀ rest _ _ front =>
    have opened := regular.ids.open_of_front front
    rw [prepared_of_open opened] at front step ⊢
    refine h.steps regular live step (fun e _ _ kept => ?_)
      (plain (Function.update_self ..) fun _ _ => nofun)
    rcases kept.removeFront front with rfl | queued | running | other
    · exact .inr (.inl rfl)
    · exact .inl queued
    · cases (free rfl).symm.trans running
    · exact .inr (.inr other)
  | wakes | checks | calls | callsChecked =>
    exact h.steps regular live step (fun _ _ _ kept => kept)
      (plain (Function.update_self ..) fun _ _ => nofun)
  | @ends pc event e unknown run ns ends =>
    obtain ⟨_, _, eq⟩ := ended_form policy s e unknown run
    rw [eq] at step ⊢
    exact h.steps regular live step (fun _ _ _ kept => kept)
      (plain (Function.update_self ..) fun _ _ => nofun)
  | @settles st st' after event next =>
    refine h.steps regular live step (fun _ _ _ kept => kept) fun st'' rest live' e here => ?_
    cases (Function.update_self ..).symm.trans live'
    rw [Settling.next_entry next]
    exact h.rest t st rest live e here
  | @finishes st after ns _ =>
    have own := held t _ live nofun
    have now : (s.setReply st.entry.reply st.result).isSet st.entry.reply = true :=
      s.isSet_setReply_self _ _
    cases after with
    | clear =>
      refine h.steps regular live step (fun e _ unset kept => ?_)
        (plain (Function.update_self ..) fun _ _ => nofun)
      rcases kept with queued | running | other
      · exact .inl queued
      · obtain rfl := Option.some.inj (own.symm.trans running)
        cases now.symm.trans unset
      · exact .inr (.inr other)
    | loop =>
      exact h.steps regular live step
        (fun e _ unset kept => Kept.sweep (s := s.setReply st.entry.reply st.result) kept unset)
        (plain (Function.update_self ..) fun _ _ => nofun)
    | adopt rest =>
      -- Everything else it took over has a result, so it goes on with its loop.
      have settled : ∀ e ∈ rest,
        (s.setReply st.entry.reply st.result).isSet e.reply = true := by
        intro e here
        rcases h.rest t st rest live e here with set | same
        · exact isSet_setReply st.result set
        · rw [same]
          exact now
      rcases adopt_eq (s.setReply st.entry.reply st.result).sweep t rest ns with
        ⟨_, eq⟩ | ⟨before, e, rest', split, _, unset, _⟩
      · rw [finish, eq] at step ⊢
        exact h.steps regular live step
          (fun e _ unset kept =>
            Kept.sweep (s := s.setReply st.entry.reply st.result) kept unset)
          (plain (Function.update_self ..) fun _ _ => nofun)
      · have inside : e ∈ rest := split ▸ List.mem_append_right _ List.mem_cons_self
        cases (settled e inside).symm.trans unset

/-- A step that sets no reply, knows every entry it knew and perhaps ends a worker. -/
theorem Custody.still (h : Custody s) (accepted : ∀ e ∈ s'.accepted, e ∈ s.accepted ∨ s'.Kept e)
    (replies : s'.replies = s.replies)
    (kept : ∀ e, s.isSet e.reply = false → s.Kept e → s'.Kept e)
    (tasks : ∀ t st after, s'.tasks t = .live (.settling st after) →
      s.tasks t = .live (.settling st after))
    (done : s'.join = .finished → ∀ e ∈ s'.accepted, s.isSet e.reply = true) : Custody s' := by
  refine ⟨fun e inside unset => ?_, fun t st rest live e here => ?_, fun at' e inside => ?_⟩
  · rw [isSet_of_replies replies] at unset
    rcases accepted e inside with before | new
    · exact kept e unset (h.kept e before unset)
    · exact new
  · rw [isSet_of_replies replies]
    exact h.rest t st rest (tasks t st _ live) e here
  · rw [isSet_of_replies replies]
    exact done at' e inside

theorem Custody.ensureWorker (h : Custody s) : Custody s.ensureWorker := by
  refine ensureWorker_of h fun _ => ?_
  refine h.still (fun _ => .inl) rfl (fun _ _ => id) (fun t st after live => ?_) h.done
  rcases live_of_spawn live with fresh | before
  · cases fresh
  · exact before

theorem Custody.drop (h : Custody s) (pc : WorkerPc) (dead : ∀ pc, state ≠ .live pc) :
    Custody (s.drop t pc state) := by
  have tasks : ∀ t' st after, Function.update s.tasks t state t' = .live (.settling st after) →
      s.tasks t' = .live (.settling st after) :=
    fun _ _ _ live => (live_of_update dead live).2
  cases pc <;> exact h.still (fun _ => .inl) rfl (fun _ _ => id) tasks h.done

theorem mem_abandoned_of {q : DeviceQueue}
    (h : q.running = some e ∨ e ∈ q.queued ∨ e ∈ q.draining) : e ∈ (abandoned q).map Prod.fst := by
  rw [abandoned, List.map_append, List.mem_append]
  rcases h with running | inside
  · refine .inl ?_
    rw [running]
    exact List.mem_cons_self
  · refine .inr ?_
    rw [List.map_map]
    exact List.mem_map.mpr ⟨e, List.mem_append.mpr inside, rfl⟩

theorem Custody.takeOver (h : Custody s) (entries : s.join.entries = []) (budget : Nat) :
    Custody (s.takeOver budget) := by
  refine h.still (fun _ => .inl) rfl (fun e _ kept => .inr (.inr (.inr ?_))) (fun _ _ _ => id)
    fun at' => ?_
  · change e ∈ [] ++ (abandoned s.toDeviceQueue).map Prod.fst
    refine mem_abandoned_of ?_
    rcases kept with queued | running | draining | join
    · exact .inr (.inl queued)
    · exact .inl running
    · exact .inr (.inr draining)
    · rw [entries] at join
      cases join
  · cases at'

/-- An entry without a result is not in an empty queue. -/
theorem Custody.settled (h : Custody s) (empty : s.Empty) (entries : s.join.entries = []) :
    ∀ e ∈ s.accepted, s.isSet e.reply = true := by
  obtain ⟨queued, running, draining⟩ := empty
  intro e inside
  cases set : s.isSet e.reply with
  | true => rfl
  | false =>
    rcases h.kept e inside set with here | here | here | here
    · rw [queued] at here
      cases here
    · rw [running] at here
      cases here
    · rw [draining] at here
      cases here
    · rw [entries] at here
      cases here

/-- A step of `shutdown` or `join`. -/
theorem Custody.joins (h : Custody s) {before join : JoinPc} (from' : s.join = before)
    (entries : ∀ e ∈ before.entries, e ∈ join.entries ∨ s.isSet e.reply = true)
    (accepted : s'.accepted = s.accepted) (replies : s'.replies = s.replies)
    (queued : s'.entries = s.entries) (running : s'.running = s.running)
    (draining : s'.draining = s.draining) (tasks : s'.tasks = s.tasks) (at' : s'.join = join)
    (done : join = .finished → ∀ e ∈ s.accepted, s.isSet e.reply = true) : Custody s' := by
  refine h.still (fun e inside => .inl (accepted ▸ inside)) replies (fun e unset kept => ?_)
    (fun _ _ _ live => tasks ▸ live) fun finished => ?_
  · rcases kept with here | here | here | here
    · refine .inl ?_
      rwa [DeviceQueue.queued, queued]
    · exact .inr (.inl (running.trans here))
    · exact .inr (.inr (.inl (draining ▸ here)))
    · rcases entries e (from' ▸ here) with still | set
      · exact .inr (.inr (.inr (at' ▸ still)))
      · cases set.symm.trans unset
  · rw [accepted]
    exact done (at'.symm.trans finished)

theorem Custody.elsewhere (h : Custody s) {r : ReplyId} {result : ControlResult}
    (foreign : ∀ e ∈ s.accepted, e.reply ≠ r) : Custody (s.setReply r result) := by
  refine ⟨fun e inside unset => ?_, fun t st rest live e here => ?_, fun at' e inside => ?_⟩
  · rw [isSet_setReply_of_ne result (foreign e inside)] at unset
    exact h.kept e inside unset
  · exact (h.rest t st rest live e here).imp_left (isSet_setReply result)
  · exact isSet_setReply result (h.done at' e inside)

/-- The end of a settlement by `settle_abandoned`. -/
theorem Custody.abandonFinishes (h : Custody s) {todo : List (QueuedEntry × RunResult)}
    {deadline : Instant} {st : Settling} (at' : s.join = .abandoning todo deadline (some st)) :
    Custody ((s.setReply st.entry.reply st.result).setJoin (.abandoning todo deadline none)) := by
  refine ⟨fun e inside unset => ?_, fun t st' rest live e here => ?_, fun finished => ?_⟩
  · have before := unset_of_set (isSet_setReply st.result) unset
    rcases h.kept e inside before with here | here | here | here
    · exact .inl here
    · exact .inr (.inl here)
    · exact .inr (.inr (.inl here))
    · rw [at'] at here
      rcases List.mem_cons.mp here with rfl | later
      · cases (s.isSet_setReply_self st.entry.reply st.result).symm.trans unset
      · exact .inr (.inr (.inr later))
  · exact (h.rest t st' rest live e here).imp_left (isSet_setReply st.result)
  · cases finished

/-- No step loses an entry. -/
theorem Custody.step (h : Custody s) (regular : Regular s) (held : Held s) (drained : Drained s)
    (unworked : Unworked s) (ok : s.Exclusive label) (orphans : s.Orphans label)
    (move : Move policy s label s') : Custody s' := by
  have same : ∀ t st after, s.tasks t = .live (.settling st after) →
      s.tasks t = .live (.settling st after) := fun _ _ _ => id
  cases move with
  | tick | raise | cancel | supervise | findsDead =>
    exact h.still (fun _ => .inl) rfl (fun _ _ => id) same h.done
  | elsewhere foreign => exact h.elsewhere foreign
  | push _ opened =>
    have idle := regular.lineage.join_idle (.inl opened)
    refine h.still (fun e inside => ?_) rfl (fun e _ kept => ?_) same fun at' => ?_
    · rcases List.mem_cons.mp inside with rfl | before
      · exact .inr (.inl ((queued_push rfl).mem_iff.mpr List.mem_cons_self))
      · exact .inl before
    · rcases kept with queued | other
      · exact .inl ((queued_push rfl).mem_iff.mpr (List.mem_cons_of_mem _ queued))
      · exact .inr other
    · cases idle.symm.trans at'
  | enter | revive =>
    exact Custody.ensureWorker (h.still (fun _ => .inl) rfl (fun _ _ => id) same h.done)
  | shutdown _ at' | joinTake at' =>
    exact h.joins at' nofun rfl rfl rfl rfl rfl rfl rfl nofun
  | joinNone at' none =>
    refine h.joins at' nofun rfl rfl rfl rfl rfl rfl rfl fun _ e inside => ?_
    -- No worker was ever spawned and nobody is on the way to spawn one.
    have few := unworked none (by rw [at']; rfl)
    rw [(ok rfl).1] at few
    rw [List.eq_nil_of_length_eq_zero (Nat.le_zero.mp few)] at inside
    cases inside
  | joined at' returned =>
    exact h.joins at' nofun rfl rfl rfl rfl rfl rfl rfl fun _ =>
      h.settled (drained.returned _ (.inr at') returned).2 (by rw [at']; rfl)
  | joinedDead at' => exact h.takeOver (by rw [at']; rfl) _
  | @abort t pc budget at' =>
    have dropped : Custody (s.drop t pc .aborted) := h.drop pc fun _ eq => by cases eq
    refine dropped.takeOver ?_ budget
    rw [(s.drop_steps t pc .aborted).frame.join, at']
    rfl
  | skip at' set =>
    refine h.joins at' (fun e here => ?_) rfl rfl rfl rfl rfl rfl rfl nofun
    rcases List.mem_cons.mp here with rfl | later
    · exact .inr set
    · exact .inl later
  | next at' | givesUp at' =>
    refine h.joins at' (fun e here => ?_) rfl rfl rfl rfl rfl rfl rfl nofun
    exact .inl here
  | abandonSettles at' next =>
    refine h.joins at' (fun e here => .inl ?_) rfl rfl rfl rfl rfl rfl rfl nofun
    change e ∈ _ :: _
    rwa [Settling.next_entry next]
  | abandonFinishes at' => exact h.abandonFinishes at'
  | abandonDone at' =>
    exact h.joins at' nofun rfl rfl rfl rfl rfl rfl rfl fun _ =>
      h.settled (drained.abandoning _ _ _ at') (by rw [at']; rfl)
  | worker live move => exact h.workerMove regular held orphans live move
  | @panic t pc => exact h.drop pc fun _ eq => by cases eq

/-! ## Runs -/

/-- The condition under which no entry is lost. -/
def Keeps (s : QueueState) (label : Label) : Prop := s.Exclusive label ∧ s.Orphans label

instance (s : QueueState) (label : Label) : Decidable (s.Keeps label) :=
  inferInstanceAs (Decidable (_ ∧ _))

/-- In every run in which `join` is exclusive and no worker takes over two
entries without a result, an accepted entry without a result is queued, in
`running` or in `draining`, unless `settle_abandoned` is at work and has it;
and when `join` has returned every accepted entry has a result. -/
theorem accepted_kept {shared : Shared} {labels : List Label}
    (run : (queueMachine policy).Run Keeps (.new policy shared) labels s) :
    (∀ e ∈ s.accepted, s.isSet e.reply = false →
      e ∈ s.queued ∨ s.running = some e ∨ e ∈ s.draining ∨ e ∈ s.join.entries) ∧
    (s.join = .finished → ∀ e ∈ s.accepted, s.isSet e.reply = true) := by
  have sound : Regular s ∧ Held s ∧ Drained s ∧ Unworked s ∧ Custody s := by
    refine run.invariant (P := fun s => Regular s ∧ Held s ∧ Drained s ∧ Unworked s ∧ Custody s)
      ⟨.new policy shared, .new policy shared, .new policy shared,
        fun _ _ => Nat.le_refl 0, .new policy shared⟩ ?_
    rintro s label s' ⟨regular, held, drained, unworked, custody⟩ ⟨exclusive, orphans⟩ taken
    have move := step_move taken
    have regular' := regular.step exclusive move
    exact ⟨regular',
      held.step (fun _ _ _ _ live live' => regular.only live live')
        (fun _ _ _ at' _ _ => regular'.abandoned at') move,
      drained.step regular move, unworked.step move,
      custody.step regular held drained unworked exclusive orphans move⟩
  exact ⟨sound.2.2.2.2.kept, sound.2.2.2.2.done⟩

/-- A worker dies during a call, its successor settles the entry, and then the
engine is closed. -/
def respawned : List Label :=
  [.push (sample 0), .enter, .worker 0 (.begin 0), .worker 0 (.round 0), .worker 0 (.poll 0),
    .panic 0, .supervise, .revive, .worker 1 (.begin 0)] ++ settles 1 ++
    [.raise, .shutdown, .join, .worker 1 (.round 0), .joined 0]

/-- The entry is settled when `join` has finished. -/
theorem accepted_kept_respawned :
    ∃ s, (queueMachine .default).Run Keeps quiet respawned s ∧
      (sample 0 ∈ s.accepted ∧ s.join = .finished) ∧
      (∀ e ∈ s.accepted, s.isSet e.reply = false →
        e ∈ s.queued ∨ s.running = some e ∨ e ∈ s.draining ∨ e ∈ s.join.entries) ∧
      (s.join = .finished → ∀ e ∈ s.accepted, s.isSet e.reply = true) :=
  Lib.Machine.Run.find (by decide) fun s run _ => accepted_kept run

/-- The engine is closed while three entries are queued; the worker that drains
them dies, and the `enqueue` of the third entry spawns another. -/
def drainedTwice : List Label :=
  [.push (sample 0), .enter, .push (sample 1), .enter, .push (sample 2), .worker 0 (.begin 0),
    .raise, .worker 0 (.round 0), .panic 0, .enter, .worker 1 (.begin 0)]

/-- The second worker has the last two entries in a variable of its own, and
they are lost when it is aborted: `join` returns and they have no result. -/
theorem drainedTwice_loses :
    (∃ s, (queueMachine .default).Run Lib.Machine.Always quiet drainedTwice s ∧
      sample 1 ∈ s.accepted ∧ s.isSet 1 = false ∧
      ¬(sample 1 ∈ s.queued ∨ s.running = some (sample 1) ∨ sample 1 ∈ s.draining)) ∧
    ∃ s, (queueMachine .default).Run Lib.Machine.Always quiet
        (drainedTwice ++ [.shutdown, .join, .abort 100, .abandon (.next 0),
          .abandon (.settle .permit), .abandon (.settle (.written true)),
          .abandon (.settle .resume), .abandon .audited, .abandon .done]) s ∧
      s.join = .finished ∧ sample 1 ∈ s.accepted ∧ s.isSet 1 = false := by
  constructor
  · exact Lib.Machine.Run.of_any _ (by decide)
  · exact Lib.Machine.Run.of_any _ (by decide)

end QueueState

end ForgeLink.Control
