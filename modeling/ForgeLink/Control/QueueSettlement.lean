import ForgeLink.Control.QueueEntries

/-!
# One settlement

In a run in which `join` is exclusive there is one worker at a time, and every
accepted entry gets at most one result.  A worker and `settle_abandoned` check
a reply before they start to settle it, and nobody else settles meanwhile; the
one entry a worker settles unchecked is the front of `draining`, which it has
swept.
-/

namespace ForgeLink.Control

variable {e : QueuedEntry} {r : ReplyId}

/-- The entry a worker will give a result to. -/
def WorkerPc.current : WorkerPc → Option QueuedEntry
  | .starting e => some e
  | .checking e _ => some e
  | .executing e _ => some e
  | .settling st _ => some st.entry
  | _ => none

/-- The entry a worker runs, until it has cleared `running`. -/
def WorkerPc.holds : WorkerPc → Option QueuedEntry
  | .starting e => some e
  | .checking e _ => some e
  | .executing e _ => some e
  | .settling st .clear => some st.entry
  | _ => none

/-- The worker resets or sweeps `draining` before it looks at its front. -/
def WorkerPc.sweeps : WorkerPc → Bool
  | .spawned => true
  | .settling _ (.adopt _) => true
  | .settling _ .loop => true
  | _ => false

/-- The entry `settle_abandoned` is settling. -/
def JoinPc.current : JoinPc → Option QueuedEntry
  | .abandoning _ _ (some st) => some st.entry
  | _ => none

theorem WorkerPc.current_mem {pc : WorkerPc} (h : pc.current = some e) : e ∈ pc.entries := by
  cases pc with
  | starting e' | checking e' _ | executing e' _ | settling st after =>
    obtain rfl := Option.some.inj h
    exact List.mem_cons_self
  | _ => cases h

theorem JoinPc.current_mem {join : JoinPc} (h : join.current = some e) : e ∈ join.entries := by
  cases join with
  | abandoning todo deadline current =>
    cases current with
    | none => cases h
    | some st =>
      obtain rfl := Option.some.inj h
      exact List.mem_cons_self
  | _ => cases h

namespace QueueState

variable {policy : ControlPolicy} {s s' : QueueState} {t : TaskId} {pc : WorkerPc}

/-! ## Setting a reply -/

theorem isSet_setReply_self (s : QueueState) (r : ReplyId) (result : ControlResult) :
    (s.setReply r result).isSet r = true := by
  simp [Shared.isSet]

theorem isSet_setReply_of_ne {r' : ReplyId} (result : ControlResult) (differ : r' ≠ r) :
    (s.setReply r result).isSet r' = s.isSet r' := by
  simp [Shared.isSet, differ]

/-- A reply that is set stays set. -/
theorem isSet_setReply {r' : ReplyId} (result : ControlResult) (set : s.isSet r' = true) :
    (s.setReply r result).isSet r' = true := by
  by_cases same : r' = r
  · exact same ▸ s.isSet_setReply_self r result
  · rwa [isSet_setReply_of_ne result same]

theorem isSet_of_replies (h : s'.replies = s.replies) (r : ReplyId) : s'.isSet r = s.isSet r := by
  rw [Shared.isSet, Shared.isSet, h]

theorem head_sweep_unset (h : s.sweep.draining.head? = some e) : s.sweep.isSet e.reply = false := by
  have := List.head?_dropWhile_not (fun e : QueuedEntry => s.isSet e.reply) s.draining
  change (s.draining.dropWhile fun e => s.isSet e.reply).head? = some e at h
  rw [h] at this
  change s.isSet e.reply = false
  simpa using this

/-! ## The invariant -/

/-- What a worker relies on. -/
structure Fits (s : QueueState) (pc : WorkerPc) : Prop where
  current : ∀ e, pc.current = some e → s.isSet e.reply = false
  front : pc.sweeps = false → ∀ e, s.draining.head? = some e → s.isSet e.reply = false
  apart : ∀ e, pc.holds = some e → ∀ d ∈ s.draining, d.reply ≠ e.reply

/-- Nobody has a result to give to an entry that has one. -/
structure Settlement (s : QueueState) : Prop where
  once : ∀ e ∈ s.accepted, (s.replies e.reply).length ≤ 1
  queued : ∀ e ∈ s.queued, s.isSet e.reply = false
  workers : ∀ t pc, s.tasks t = .live pc → Fits s pc
  join : ∀ e, s.join.current = some e → s.isSet e.reply = false

theorem Settlement.new (policy : ControlPolicy) (shared : Shared) :
    Settlement (QueueState.new policy shared) where
  once e inside := by cases inside
  queued e inside := by cases inside
  workers t pc live := by cases live
  join e here := by cases here

theorem Fits.spawned (s : QueueState) : Fits s .spawned where
  current e here := by cases here
  front swept := by cases swept
  apart e here := by cases here

theorem Fits.mono (h : Fits s pc) (replies : s'.replies = s.replies)
    (draining : s'.draining = s.draining) : Fits s' pc := by
  have same := isSet_of_replies replies
  refine ⟨fun e here => ?_, fun swept e here => ?_, fun e here => ?_⟩
  · rw [same]
    exact h.current e here
  · rw [same]
    exact h.front swept e (draining ▸ here)
  · rw [draining]
    exact h.apart e here

/-- A worker that has nothing in hand. -/
theorem Fits.of_none (current : pc.current = none) (holds : pc.holds = none)
    (front : pc.sweeps = false → ∀ e, s.draining.head? = some e → s.isSet e.reply = false) :
    Fits s pc :=
  ⟨fun e here => (by rw [current] at here; cases here), front,
    fun e here => (by rw [holds] at here; cases here)⟩

/-- A worker that settles a tracked entry. -/
theorem Fits.tracked {st : Settling} {after : After} (tracked : after ≠ .clear)
    (unset : s.isSet st.entry.reply = false) : Fits s (.settling st after) := by
  refine ⟨fun e here => Option.some.inj here ▸ unset, fun swept => ?_, fun e here => ?_⟩
  · cases after with
    | clear => exact absurd rfl tracked
    | _ => cases swept
  · cases after with
    | clear => exact absurd rfl tracked
    | _ => cases here

/-- The run of an entry moves on. -/
theorem Fits.runs (h : Fits s pc) {pc' : WorkerPc} (current : pc.current = some e)
    (sweeps : pc.sweeps = false) (holds : pc.holds = some e) (current' : pc'.current = some e)
    (holds' : pc'.holds = some e) : Fits s pc' where
  current e' here := h.current e' (current.trans (current'.symm.trans here))
  front _ := h.front sweeps
  apart e' here := h.apart e' (holds.trans (holds'.symm.trans here))

/-- A step that sets no reply. -/
theorem Settlement.mono (h : Settlement s) (replies : s'.replies = s.replies)
    (accepted : s'.accepted = s.accepted) (queued : ∀ e ∈ s'.queued, e ∈ s.queued)
    (workers : ∀ t pc, s'.tasks t = .live pc → Fits s' pc)
    (join : ∀ e, s'.join.current = some e → s.isSet e.reply = false) : Settlement s' where
  once e inside := by
    rw [replies]
    exact h.once e (accepted ▸ inside)
  queued e inside := by
    rw [Shared.isSet, replies]
    exact h.queued e (queued e inside)
  workers := workers
  join e here := by
    rw [Shared.isSet, replies]
    exact join e here

/-- A step that sets the reply of an entry that has left the queue. -/
theorem Settlement.set (h : Settlement s) {result : ControlResult} (departed : s.Departed e)
    (unset : s.isSet e.reply = false) (replies : s'.replies = (s.setReply e.reply result).replies)
    (accepted : s'.accepted = s.accepted) (entries : s'.entries = s.entries)
    (workers : ∀ t pc, s'.tasks t = .live pc → Fits s' pc) (join : s'.join.current = none) :
    Settlement s' where
  once e' inside := by
    rw [accepted] at inside
    rw [replies]
    by_cases same : e'.reply = e.reply
    · have none : s.replies e.reply = [] := by simpa [Shared.isSet] using unset
      rw [same, setReply_replies, Function.update_self, none]
      exact Nat.le_refl 1
    · rw [setReply_replies, Function.update_of_ne same]
      exact h.once e' inside
  queued e' inside := by
    have before : e' ∈ s.queued := by
      rwa [DeviceQueue.queued, entries] at inside
    have differ : e'.reply ≠ e.reply := fun same =>
      departed.2 (List.mem_map.mpr ⟨e', before, same⟩)
    rw [Shared.isSet, replies]
    exact (isSet_setReply_of_ne result differ).trans (h.queued e' before)
  workers := workers
  join e' here := by
    rw [join] at here
    cases here

/-! ## One step -/

theorem Settlement.ensureWorker (h : Settlement s) : Settlement s.ensureWorker := by
  refine ensureWorker_of h fun _ => ?_
  refine h.mono rfl rfl (fun _ => id) (fun t pc live => ?_) h.join
  rcases live_of_spawn live with rfl | live
  · exact .spawned _
  · exact (h.workers t pc live).mono rfl rfl

theorem Settlement.drop (h : Settlement s) (pc : WorkerPc) {state : TaskState}
    (dead : ∀ pc, state ≠ .live pc) : Settlement (s.drop t pc state) := by
  have workers : ∀ t' pc', Function.update s.tasks t state t' = .live pc' → Fits s pc' :=
    fun t' pc' live => h.workers t' pc' (live_of_update dead live).2
  cases pc <;>
    exact h.mono rfl rfl (fun _ => id) (fun t' pc' live =>
      (workers t' pc' live).mono rfl rfl) h.join

theorem Settlement.takeOver (h : Settlement s) (budget : Nat) : Settlement (s.takeOver budget) := by
  have queued : (s.takeOver budget).queued = [] := queued_eq_nil fun _ => rfl
  refine h.mono rfl rfl (by simp [queued]) (fun t pc live => ⟨?_, ?_, ?_⟩)
    fun e here => by cases here
  · exact (h.workers t pc live).current
  · exact fun _ e here => by cases here
  · exact fun e _ d here => by cases here

/-- A worker that sets no reply leaves the rest as it is, since it is alone. -/
theorem Settlement.steps (h : Settlement s) (regular : Regular s) (live : s.tasks t = .live pc)
    (steps : Steps t s s') (replies : s'.replies = s.replies) (accepted : s'.accepted = s.accepted)
    (queued : ∀ e ∈ s'.queued, e ∈ s.queued) (own : ∀ pc, s'.tasks t = .live pc → Fits s' pc) :
    Settlement s' := by
  refine h.mono replies accepted queued (fun t' pc' live' => ?_)
    (by rw [steps.frame.join]; exact h.join)
  obtain rfl := regular.stepped live steps live'
  exact own pc' live'

theorem own_of_update {P : WorkerPc → Prop} {pc : WorkerPc}
    (tasks : s'.tasks t = .live pc) (h : P pc) : ∀ pc', s'.tasks t = .live pc' → P pc' := by
  intro pc' live
  rw [tasks] at live
  obtain rfl := TaskState.live.inj live
  exact h

/-- The adoption of the entries a dead worker left. -/
theorem adopt_fits (swept : ∀ e, s.draining.head? = some e → s.isSet e.reply = false)
    (rest : List QueuedEntry) (ns : TimestampNs) :
    ∀ pc, (s.adopt t rest ns).tasks t = .live pc → Fits (s.adopt t rest ns) pc := by
  rcases adopt_eq s t rest ns with ⟨_, eq⟩ | ⟨_, e, rest', _, _, unset, eq⟩
  · rw [eq]
    exact own_of_update (Function.update_self ..) (.of_none rfl rfl fun _ => swept)
  · rw [eq]
    exact own_of_update (Function.update_self ..) (.tracked nofun unset)

theorem adopt_fields (s : QueueState) (t : TaskId) (rest : List QueuedEntry) (ns : TimestampNs) :
    (s.adopt t rest ns).replies = s.replies ∧ (s.adopt t rest ns).accepted = s.accepted ∧
      (s.adopt t rest ns).entries = s.entries := by
  rcases adopt_eq s t rest ns with ⟨_, eq⟩ | ⟨_, _, _, _, _, _, eq⟩ <;> rw [eq] <;>
    exact ⟨rfl, rfl, rfl⟩

theorem prepared_replies (s : QueueState) : s.prepared.replies = s.replies := by
  obtain ⟨_, _, _, _, eq⟩ := s.prepared_form
  rw [eq]

theorem isSet_prepared (s : QueueState) (r : ReplyId) : s.prepared.isSet r = s.isSet r := by
  rw [Shared.isSet, Shared.isSet, prepared_replies]

theorem Ids.prepared_queued (h : Ids s) : ∀ e ∈ s.prepared.queued, e ∈ s.queued := by
  intro e inside
  cases down : s.closed || s.flag with
  | false => rwa [prepared_of_open down] at inside
  | true =>
    rw [(h.prepared_of_closed down).2.1] at inside
    cases inside

/-- The first entry to be drained has no result. -/
theorem Settlement.prepared_front (h : Settlement s) (ids : Ids s)
    (swept : ∀ e, s.draining.head? = some e → s.isSet e.reply = false) :
    ∀ e, s.prepared.draining.head? = some e → s.prepared.isSet e.reply = false := by
  intro e here
  rw [isSet_prepared]
  cases down : s.closed || s.flag with
  | false =>
    rw [prepared_of_open down] at here
    exact swept e here
  | true =>
    rw [(ids.prepared_of_closed down).1] at here
    cases draining : s.draining with
    | nil =>
      rw [draining, List.nil_append] at here
      exact h.queued e (List.mem_of_mem_head? here)
    | cons d rest =>
      rw [draining] at here swept
      exact swept e here

theorem Ends.current {unknown : Bool} {run : RunResult} (h : Ends policy s e pc unknown run) :
    pc.current = some e ∧ pc.sweeps = false ∧ pc.holds = some e := by
  cases h <;> exact ⟨rfl, rfl, rfl⟩

theorem WorkerMove.accepted {event : Event} (move : WorkerMove policy s t pc event s') :
    s'.accepted = s.accepted := by
  cases move with
  | adoptDraining => exact (adopt_fields s.cleared t s.draining _).2.1
  | drains | returns | waits | declines | starts => exact s.prepared_accepted
  | ends => exact ended_accepted policy s _ _ _
  | @finishes st after ns _ =>
    cases after with
    | adopt rest => exact (adopt_fields (s.setReply st.entry.reply st.result).sweep t rest ns).2.1
    | _ => rfl
  | _ => rfl

/-- The settlement of a worker's entry. -/
theorem Settlement.finish {st : Settling} {after : After} {ns : TimestampNs} (h : Settlement s)
    (regular : Regular s) (live : s.tasks t = .live (.settling st after)) :
    Settlement (s.finish t st after ns) := by
  have own := h.workers t _ live
  have steps := finish_steps (s := s) (t := t) st after ns
  have departed := regular.ids.task live st.entry List.mem_cons_self
  have join : (s.finish t st after ns).join.current = none := by
    rw [steps.frame.join]
    cases at' : s.join with
    | abandoning => exact absurd live (regular.abandoned at')
    | _ => rfl
  have others : ∀ {P : WorkerPc → Prop},
      (∀ pc, (s.finish t st after ns).tasks t = .live pc → P pc) →
      ∀ t' pc, (s.finish t st after ns).tasks t' = .live pc → P pc := by
    intro P own t' pc live'
    obtain rfl := regular.stepped live steps live'
    exact own pc live'
  cases after with
  | clear =>
    refine h.set departed (own.current _ rfl) rfl rfl rfl (others ?_) join
    refine own_of_update (Function.update_self ..) (.of_none rfl rfl fun _ e here => ?_)
    have differ := own.apart _ rfl e (List.mem_of_mem_head? here)
    exact (isSet_setReply_of_ne st.result differ).trans (own.front rfl e here)
  | loop =>
    refine h.set departed (own.current _ rfl) rfl rfl rfl (others ?_) join
    exact own_of_update (Function.update_self ..)
      (.of_none rfl rfl fun _ e here =>
        head_sweep_unset (s := s.setReply st.entry.reply st.result) here)
  | adopt rest =>
    obtain ⟨replies, accepted, entries⟩ :=
      adopt_fields (s.setReply st.entry.reply st.result).sweep t rest ns
    refine h.set departed (own.current _ rfl) replies accepted entries (others ?_) join
    exact adopt_fits (s := (s.setReply st.entry.reply st.result).sweep)
      (fun e here => head_sweep_unset here) rest ns

/-- No worker settles an entry again. -/
theorem Settlement.workerMove {event : Event} (h : Settlement s) (regular : Regular s)
    (live : s.tasks t = .live pc) (move : WorkerMove policy s t pc event s') : Settlement s' := by
  have steps := move.steps
  have own := h.workers t pc live
  have update : ∀ {s₀ : QueueState} {state : TaskState},
      s₀.tasks = Function.update s.tasks t state → s₀.tasks t = state := fun eq => by
    rw [eq, Function.update_self]
  cases move with
  | adoptRunning here unset =>
    exact h.steps regular live steps rfl rfl (fun _ => id)
      (own_of_update (update rfl) (.tracked (by rintro ⟨⟩) unset))
  | @adoptDraining ns all =>
    obtain ⟨replies, accepted, entries⟩ := adopt_fields s.cleared t s.draining ns
    refine h.steps regular live steps replies accepted (fun e inside => ?_)
      (adopt_fits (fun e here => by cases here) s.draining ns)
    rwa [DeviceQueue.queued, entries] at inside
  | @drains ns e rest _ front =>
    refine h.steps regular live steps s.prepared_replies s.prepared_accepted
      regular.ids.prepared_queued
      (own_of_update (Function.update_self ..) (.tracked (by rintro ⟨⟩) ?_))
    exact h.prepared_front regular.ids (own.front rfl) e (by rw [front]; rfl)
  | returns =>
    refine h.steps regular live steps s.prepared_replies s.prepared_accepted
      regular.ids.prepared_queued fun pc live => ?_
    cases (Function.update_self ..).symm.trans live
  | waits =>
    exact h.steps regular live steps s.prepared_replies s.prepared_accepted
      regular.ids.prepared_queued (own_of_update (Function.update_self ..)
        (.of_none rfl rfl fun _ => h.prepared_front regular.ids (own.front rfl)))
  | @declines ns prio e rest run _ _ front _ =>
    have opened := regular.ids.open_of_front front
    rw [prepared_of_open opened] at front steps ⊢
    have perm := queued_removeFront front
    refine h.steps regular live steps rfl rfl
      (fun e inside => perm.mem_iff.mpr (List.mem_cons_of_mem _ inside))
      (own_of_update (Function.update_self ..) (.tracked (by rintro ⟨⟩) ?_))
    exact h.queued e (perm.mem_iff.mpr List.mem_cons_self)
  | @starts ns prio e rest _ _ front =>
    have opened := regular.ids.open_of_front front
    rw [prepared_of_open opened] at front steps ⊢
    have perm := queued_removeFront front
    have inside : e ∈ s.queued := perm.mem_iff.mpr List.mem_cons_self
    refine h.steps regular live steps rfl rfl
      (fun e inside => perm.mem_iff.mpr (List.mem_cons_of_mem _ inside))
      (own_of_update (Function.update_self ..) ⟨fun e' here => ?_, fun _ => own.front rfl,
        fun e' here d tracked same => ?_⟩)
    · exact Option.some.inj here ▸ h.queued e inside
    · obtain rfl := Option.some.inj here
      exact (regular.ids.draining d tracked).2
        (List.mem_map.mpr ⟨e, inside, same.symm⟩)
  | wakes =>
    exact h.steps regular live steps rfl rfl (fun _ => id)
      (own_of_update (update rfl) (.of_none rfl rfl fun _ => own.front rfl))
  | checks | calls | callsChecked =>
    exact h.steps regular live steps rfl rfl (fun _ => id)
      (own_of_update (update rfl) ((own.runs rfl rfl rfl rfl rfl).mono rfl rfl))
  | @ends pc event e unknown run ns ends =>
    obtain ⟨current, sweeps, holds⟩ := ends.current
    obtain ⟨_, _, eq⟩ := ended_form policy s e unknown run
    have accepted := ended_accepted policy s e unknown run
    rw [eq] at steps accepted ⊢
    exact h.steps regular live steps rfl accepted (fun _ => id)
      (own_of_update (Function.update_self ..)
        ((own.runs current sweeps holds rfl rfl).mono rfl rfl))
  | @settles st st' after event next =>
    have entry := Settling.next_entry next
    refine h.steps regular live steps rfl rfl (fun _ => id)
      (own_of_update (update rfl) ⟨fun e here => ?_, fun swept => ?_, fun e here => ?_⟩)
    · exact own.current e (Eq.trans (congrArg some entry.symm) here)
    · exact own.front (by cases after <;> exact swept)
    · refine own.apart e (Eq.trans ?_ here)
      cases after with
      | clear => exact congrArg some entry.symm
      | _ => rfl
  | finishes => exact h.finish regular live

theorem Settlement.still (h : Settlement s) (replies : s'.replies = s.replies)
    (accepted : s'.accepted = s.accepted) (entries : s'.entries = s.entries)
    (tasks : s'.tasks = s.tasks) (draining : s'.draining = s.draining)
    (join : ∀ e, s'.join.current = some e → s.isSet e.reply = false) : Settlement s' := by
  refine h.mono replies accepted (fun e inside => ?_) (fun t pc live => ?_) join
  · rwa [DeviceQueue.queued, entries] at inside
  · rw [tasks] at live
    exact (h.workers t pc live).mono replies draining

/-- A result for a reply that is not one of the queue's. -/
theorem Settlement.elsewhere (h : Settlement s) (ids : Ids s) {result : ControlResult}
    (foreign : ∀ e ∈ s.accepted, e.reply ≠ r) : Settlement (s.setReply r result) := by
  have same : ∀ e ∈ s.accepted, (s.setReply r result).isSet e.reply = s.isSet e.reply :=
    fun e inside => isSet_setReply_of_ne result (foreign e inside)
  refine ⟨fun e inside => ?_, fun e inside => ?_, fun t pc live => ⟨fun e here => ?_,
    fun swept e here => ?_, (h.workers t pc live).apart⟩, fun e here => ?_⟩
  · rw [setReply_replies, Function.update_of_ne (foreign e inside)]
    exact h.once e inside
  · rw [same e (ids.queued_accepted e inside)]
    exact h.queued e inside
  · rw [same e (ids.task live e (WorkerPc.current_mem here)).1]
    exact (h.workers t pc live).current e here
  · rw [same e (ids.draining e (List.mem_of_mem_head? here)).1]
    exact (h.workers t pc live).front swept e here
  · rw [same e (ids.join e (JoinPc.current_mem here)).1]
    exact h.join e here

/-- A new entry has no answer. -/
theorem Settlement.push (h : Settlement s) {prio : Priority} (fresh : s.replies e.reply = [])
    (entries : s'.entries = Function.update s.entries prio (s.entries prio ++ [e]))
    (accepted : s'.accepted = e :: s.accepted) (replies : s'.replies = s.replies)
    (tasks : s'.tasks = s.tasks) (draining : s'.draining = s.draining) (join : s'.join = s.join) :
    Settlement s' := by
  have same := isSet_of_replies replies
  refine ⟨fun e' inside => ?_, fun e' inside => ?_, fun t pc live => ?_, fun e' here => ?_⟩
  · rw [accepted] at inside
    rw [replies]
    rcases List.mem_cons.mp inside with rfl | before
    · rw [fresh]
      exact Nat.zero_le 1
    · exact h.once e' before
  · rw [same]
    rcases List.mem_cons.mp ((queued_push entries).mem_iff.mp inside) with rfl | before
    · rw [Shared.isSet, fresh]
      rfl
    · exact h.queued e' before
  · rw [tasks] at live
    exact (h.workers t pc live).mono replies draining
  · rw [join] at here
    rw [same]
    exact h.join e' here

/-- No step settles an entry again. -/
theorem Settlement.step {label : Label} (h : Settlement s) (regular : Regular s)
    (move : Move policy s label s') : Settlement s' := by
  have done : ∀ e, (none : Option QueuedEntry) = some e → s.isSet e.reply = false :=
    fun e here => by cases here
  have join := h.join
  cases move with
  | tick | raise | cancel | supervise | findsDead => exact h.still rfl rfl rfl rfl rfl join
  | elsewhere foreign => exact h.elsewhere regular.ids foreign
  | push fresh => exact h.push (fresh_notMem fresh).1 rfl rfl rfl rfl rfl rfl
  | enter | revive => exact Settlement.ensureWorker (h.still rfl rfl rfl rfl rfl join)
  | shutdown | joinNone | joinTake | joined | skip | abandonDone =>
    exact h.still rfl rfl rfl rfl rfl done
  | joinedDead => exact h.takeOver _
  | @abort t pc budget =>
    exact Settlement.takeOver (h.drop pc fun _ eq => by cases eq) budget
  | next _ unset =>
    refine h.still rfl rfl rfl rfl rfl fun e here => ?_
    exact Option.some.inj here ▸ unset
  | abandonSettles at' next =>
    rw [at'] at join
    refine h.still rfl rfl rfl rfl rfl fun e here => ?_
    exact join e (Eq.trans (congrArg some (Settling.next_entry next).symm) here)
  | givesUp at' =>
    rw [at'] at join
    exact h.still rfl rfl rfl rfl rfl fun e here => join e here
  | @abandonFinishes todo deadline st at' _ =>
    have departed := regular.ids.join st.entry (by
      rw [at']
      exact List.mem_cons_self)
    refine h.set departed (join _ (by rw [at']; rfl)) rfl rfl rfl (fun t pc live => ?_) rfl
    exact absurd live (regular.abandoned at')
  | worker live move => exact h.workerMove regular live move
  | @panic t pc => exact h.drop pc fun _ eq => by cases eq

/-! ## Runs -/

/-- In every run in which `join` takes the handle only while no call of
`ensure_worker` is pending, at most one worker is live at any moment and every
accepted entry has been given at most one result. -/
theorem settled_at_most_once {shared : Shared} {labels : List Label}
    (run : (queueMachine policy).Run Exclusive (.new policy shared) labels s) :
    (∀ t t', s.Live t → s.Live t' → t = t') ∧
      ∀ e ∈ s.accepted, (s.replies e.reply).length ≤ 1 := by
  have sound : Regular s ∧ Settlement s := by
    refine run.invariant (P := fun s => Regular s ∧ Settlement s)
      ⟨.new policy shared, .new policy shared⟩ ?_
    rintro s label s' ⟨regular, settlement⟩ ok taken
    have move := step_move taken
    exact ⟨regular.step ok move, settlement.step regular move⟩
  exact ⟨fun t t' => sound.1.unique, sound.2.once⟩

/-- A queue with nothing set and the clock at zero. -/
def quiet : QueueState := .new .default ⟨0, false, fun _ => []⟩

/-- A write with a late deadline. -/
def sample (r : ReplyId) : QueuedEntry where
  reply := r
  key := ⟨"default", "pump", "r"⟩
  operation := .write [(0, "speed")]
  deadline := 1000000000000
  queuedAtNs := 0

/-- The labels of one settlement by a worker, from its journal permit on. -/
def settles (t : TaskId) : List Label :=
  [.worker t (.settle .permit), .worker t (.settle (.written true)), .worker t (.settle .resume),
    .worker t (.audited 0)]

/-- The answer of an executor that has written the one point of a `sample`. -/
def succeeds : Event := .answer (.write (.succeeded [⟨0, true, none, none⟩])) 0

/-- An entry is accepted, run and settled, and then the engine is closed. -/
def orderly : List Label :=
  [.push (sample 0), .enter, .worker 0 (.begin 0), .worker 0 (.round 0), .worker 0 (.poll 0),
    .worker 0 succeeds] ++ settles 0 ++ [.raise, .shutdown, .join]

/-- One result, by one worker. -/
theorem settled_at_most_once_orderly :
    ∃ s, (queueMachine .default).Run Exclusive quiet orderly s ∧
      (sample 0 ∈ s.accepted ∧ (s.replies 0).length = 1 ∧ s.Live 0) ∧
      (∀ t t', s.Live t → s.Live t' → t = t') ∧
      ∀ e ∈ s.accepted, (s.replies e.reply).length ≤ 1 :=
  Lib.Machine.Run.find (by decide) fun s run _ => settled_at_most_once run

/-- The second entry is accepted before `shutdown` and gets to `ensure_worker`
after `join` has taken the handle of the worker that runs the first. -/
def lateEnqueue : List Label :=
  [.push (sample 0), .enter, .worker 0 (.begin 0), .worker 0 (.round 0), .worker 0 (.poll 0),
    .push (sample 1), .raise, .shutdown, .join, .enter]

/-- The second worker adopts the entry that the first is running, and both
settle it. -/
theorem lateEnqueue_settles_twice :
    (∃ s, (queueMachine .default).Run Lib.Machine.Always quiet lateEnqueue s ∧
      s.Live 0 ∧ s.Live 1) ∧
    ∃ s, (queueMachine .default).Run Lib.Machine.Always quiet
        (lateEnqueue ++ [.worker 1 (.begin 0)] ++ settles 1 ++ [.worker 0 succeeds] ++ settles 0)
          s ∧
      sample 0 ∈ s.accepted ∧
      (s.replies 0).map (fun result => result.status) = [.indeterminate, .succeeded] := by
  constructor
  · exact Lib.Machine.Run.of_any _ (by decide)
  · exact Lib.Machine.Run.of_any _ (by decide)

/-- In every run, those with two workers included: the count of the queue is right, no entry
is queued twice, what is running, draining or in the hands of a task was accepted and is not
queued, and until `join` takes it the worker is the only live task. -/
theorem queued_once {shared : Shared} {labels : List Label}
    (run : (queueMachine policy).Run Lib.Machine.Always (.new policy shared) labels s) :
    s.len = s.queued.length ∧ s.queuedReplies.Nodup ∧ (∀ e, s.Loose e → s.Departed e) ∧
      (s.join.taken = false → ∀ t, s.Live t → s.worker = some t) := by
  have ids : Ids s := run.invariant (Ids.new policy shared) fun _ _ _ ids _ taken =>
    ids.step (step_move taken)
  have lineage : Lineage s := run.invariant (Lineage.new policy shared) fun _ _ _ lineage _ taken =>
    lineage.step (step_move taken)
  exact ⟨ids.counted, ids.queued_distinct, ids.loose, lineage.lone⟩

/-- Two workers, and a queue that is right. -/
theorem queued_once_lateEnqueue :
    ∃ s, (queueMachine .default).Run Lib.Machine.Always quiet lateEnqueue s ∧
      (s.Live 0 ∧ s.Live 1) ∧ s.len = s.queued.length :=
  Lib.Machine.Run.find (by decide) fun s run _ => (queued_once run).1

end QueueState

end ForgeLink.Control
