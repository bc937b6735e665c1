import ForgeLink.Control.QueueCalls

/-!
# What is reported after a call

An entry for which the executor was called must not be reported as if it had
not been run.  The status of a takeover depends on the container the entry is
found in: `running` is settled as indeterminate, `draining` as cancelled.  An
entry that a respawned worker adopts from `running` is in `draining` while it is
being settled, and if that worker dies too, the next takeover finds it there.
`Spares` excludes the death of a worker at that point.
-/

namespace ForgeLink.Control

variable {st : Settling} {e : QueuedEntry}

/-- A status that does not say that nothing was sent. -/
def ControlStatus.afterCall : ControlStatus → Bool
  | .succeeded => true
  | .failed => true
  | .indeterminate => true
  | _ => false

/-- The status a run is settled with. -/
def RunResult.status : RunResult → ControlStatus
  | .done result => result.status
  | .timeout => .timeout
  | .cancelled => .cancelled
  | .indeterminate _ _ => .indeterminate

theorem settledResult_status (key : IdempotencyKey) (run : RunResult) (ns : TimestampNs) :
    (settledResult key run ns).status = run.status := by
  cases run <;> rfl

theorem Settling.start_status (e : QueuedEntry) (run : RunResult) (stage : Stage)
    (ns : TimestampNs) : (Settling.start e run stage ns).result.status = run.status :=
  settledResult_status e.key run ns

/-- A settlement keeps its status unless the journal fails. -/
theorem Settling.next_status {st' : Settling} {event : SettleEvent} (h : st.next event = some st') :
    st'.result.status = st.result.status ∨ st'.result.status = .indeterminate := by
  cases event with
  | permit | written ok =>
    rw [next, Option.ite_none_right_eq_some, Option.some.injEq] at h
    obtain ⟨_, rfl⟩ := h
    exact .inl rfl
  | resume =>
    rw [next] at h
    split at h
    · obtain rfl := Option.some.inj h
      exact .inl rfl
    · obtain rfl := Option.some.inj h
      exact .inr rfl
    · cases h

theorem Settling.next_afterCall {st' : Settling} {event : SettleEvent}
    (h : st.next event = some st') (before : st.result.status.afterCall = true) :
    st'.result.status.afterCall = true := by
  rcases Settling.next_status h with same | same <;> rw [same]
  · exact before
  · rfl

theorem writeResult_afterCall (base : ControlResult) (items : List (Nat × PropertyPath))
    (outcome : WriteOutcome) : (writeResult base items outcome).status.afterCall = true := by
  cases outcome with
  | succeeded rawResults =>
    dsimp only [writeResult]
    split <;> rfl
  | failed info | indeterminate info => rfl

theorem executeResult_afterCall (base : ControlResult) (outcome : ExecuteOutcome) :
    (executeResult base outcome).status.afterCall = true := by
  cases outcome with
  | succeeded raw =>
    rw [executeResult]
    split <;> rfl
  | failed info | indeterminate info => rfl

/-- Whatever the executor answers. -/
theorem ValidatedOperation.result_afterCall {op : ValidatedOperation} {base result : ControlResult}
    {outcome : Outcome} (h : op.result base outcome = some result) :
    result.status.afterCall = true := by
  cases op with
  | write items =>
    cases outcome with
    | write outcome =>
      obtain rfl := Option.some.inj h
      exact writeResult_afterCall base items outcome
    | execute outcome => cases h
  | execute risk preconditions =>
    cases outcome with
    | write outcome => cases h
    | execute outcome =>
      obtain rfl := Option.some.inj h
      exact executeResult_afterCall base outcome

/-- The entry a worker adopted and is settling. -/
def WorkerPc.adopting : WorkerPc → Option QueuedEntry
  | .settling st (.adopt _) => some st.entry
  | _ => none

/-- The entry a task adopted and is settling. -/
def TaskState.adopting : TaskState → Option QueuedEntry
  | .live pc => pc.adopting
  | _ => none

/-- The task `join` waits for. -/
def JoinPc.waitsFor : JoinPc → Option TaskId
  | .waiting t => some t
  | _ => none

namespace QueueState

variable {policy : ControlPolicy} {s s' : QueueState} {t : TaskId} {pc : WorkerPc}

/-- No worker dies while it settles an entry it adopted and for which the
executor was called. -/
def Spares (s : QueueState) : Label → Prop
  | .panic t => ∀ e ∈ (s.tasks t).adopting, e.reply ∉ s.called
  | .abort _ => ∀ t ∈ s.join.waitsFor, ∀ e ∈ (s.tasks t).adopting, e.reply ∉ s.called
  | _ => True

instance (s : QueueState) (label : Label) : Decidable (s.Spares label) := by
  unfold Spares
  split <;> infer_instance

/-! ## The invariant -/

/-- A settlement reports what it may. -/
def Reports (s : QueueState) (st : Settling) : Prop :=
  st.entry.reply ∈ s.called → st.result.status.afterCall = true

/-- Called entries among these have their result. -/
def Reported (s : QueueState) (entries : List QueuedEntry) : Prop :=
  ∀ e ∈ entries, e.reply ∈ s.called → s.isSet e.reply = true

/-- No result says of a called entry that nothing was sent, and none is about
to. -/
structure Truthful (s : QueueState) : Prop where
  replies : ∀ e ∈ s.accepted, e.reply ∈ s.called → ∀ result ∈ s.replies e.reply,
    result.status.afterCall = true
  draining : ∀ e ∈ s.draining, e.reply ∈ s.called →
    s.isSet e.reply = true ∨ ∃ t e', (s.tasks t).adopting = some e' ∧ e'.reply = e.reply
  worker : ∀ t st after, s.tasks t = .live (.settling st after) →
    s.Reports st ∧ s.Reported after.rest
  todo : ∀ todo deadline current, s.join = .abandoning todo deadline current →
    ∀ p ∈ todo, p.1.reply ∈ s.called → s.isSet p.1.reply = true ∨ p.2.status.afterCall = true
  join : ∀ todo deadline st, s.join = .abandoning todo deadline (some st) → s.Reports st

theorem Truthful.new (policy : ControlPolicy) (shared : Shared) :
    Truthful (QueueState.new policy shared) where
  replies e inside := by cases inside
  draining e inside := by cases inside
  worker t st after live := by cases live
  todo _ _ _ at' := by cases at'
  join _ _ _ at' := by cases at'

theorem live_of_adopting (h : (s.tasks t).adopting = some e) :
    ∃ pc, s.tasks t = .live pc ∧ pc.adopting = some e := by
  cases state : s.tasks t with
  | live pc =>
    rw [state] at h
    exact ⟨pc, rfl, h⟩
  | _ =>
    rw [state] at h
    cases h

/-- What the only worker can find in `draining`. -/
theorem Truthful.found (h : Truthful s) (regular : Regular s) (live : s.tasks t = .live pc)
    (inside : e ∈ s.draining) (called : e.reply ∈ s.called) :
    s.isSet e.reply = true ∨ ∃ e', pc.adopting = some e' ∧ e'.reply = e.reply := by
  rcases h.draining e inside called with set | ⟨t', e', adopting, same⟩
  · exact .inl set
  · obtain ⟨pc', live', adopting⟩ := live_of_adopting adopting
    obtain rfl := regular.only live live'
    obtain rfl := TaskState.live.inj (live.symm.trans live')
    exact .inr ⟨e', adopting, same⟩

theorem Truthful.found_set (h : Truthful s) (regular : Regular s) (live : s.tasks t = .live pc)
    (none : pc.adopting = none) : s.Reported s.draining := by
  intro e inside called
  rcases h.found regular live inside called with set | ⟨e', adopting, _⟩
  · exact set
  · rw [none] at adopting
    cases adopting

/-! ## Worker steps -/

/-- A worker step, by what the only worker leaves. -/
theorem Truthful.steps {event : Event} (regular : Regular s)
    (live : s.tasks t = .live pc) (move : WorkerMove policy s t pc event s')
    (replies : ∀ e ∈ s.accepted, e.reply ∈ s'.called → ∀ result ∈ s'.replies e.reply,
      result.status.afterCall = true)
    (draining : ∀ e ∈ s'.draining, e.reply ∈ s'.called →
      s'.isSet e.reply = true ∨ ∃ e', (s'.tasks t).adopting = some e' ∧ e'.reply = e.reply)
    (own : ∀ st after, s'.tasks t = .live (.settling st after) →
      s'.Reports st ∧ s'.Reported after.rest) : Truthful s' := by
  have steps := move.steps
  refine ⟨fun e inside here => ?_, fun e inside here => ?_, fun t' st after live' => ?_,
    fun todo deadline current at' => ?_, fun todo deadline st at' => ?_⟩
  · rw [move.accepted] at inside
    exact replies e inside here
  · rcases draining e inside here with set | ⟨e', adopting, same⟩
    · exact .inl set
    · exact .inr ⟨t, e', adopting, same⟩
  · obtain rfl := regular.stepped live steps live'
    exact own st after live'
  · rw [steps.frame.join] at at'
    exact absurd live (regular.abandoned at')
  · rw [steps.frame.join] at at'
    exact absurd live (regular.abandoned at')

/-- The worker goes on without a settlement in hand. -/
theorem Truthful.goes {event : Event} (h : Truthful s) (regular : Regular s)
    (live : s.tasks t = .live pc) (move : WorkerMove policy s t pc event s')
    (called : s'.called = s.called) (replies : s'.replies = s.replies)
    (draining : s.Reported s'.draining)
      (own : ∀ st after, s'.tasks t ≠ .live (.settling st after)) :
    Truthful s' := by
  refine .steps regular live move (fun e inside here => ?_) (fun e inside here => ?_)
    fun st after live' => absurd live' (own st after)
  · rw [replies]
    exact h.replies e inside (called ▸ here)
  · rw [isSet_of_replies replies]
    exact .inl (draining e inside (called ▸ here))

/-- The worker starts to settle an entry it may report as it does. -/
theorem Truthful.settles {event : Event} {after : After} (h : Truthful s) (regular : Regular s)
    (live : s.tasks t = .live pc) (move : WorkerMove policy s t pc event s')
    (called : s'.called = s.called) (replies : s'.replies = s.replies)
    (draining : ∀ e ∈ s'.draining, e.reply ∈ s.called → s.isSet e.reply = true ∨ ∃ e',
      (WorkerPc.settling st after).adopting = some e' ∧ e'.reply = e.reply)
    (now : s'.tasks t = .live (.settling st after)) (reports : s.Reports st)
    (rest : s.Reported after.rest) : Truthful s' := by
  refine .steps regular live move (fun e inside here => ?_) (fun e inside here => ?_)
    fun st' after' live' => ?_
  · rw [replies]
    exact h.replies e inside (called ▸ here)
  · rw [isSet_of_replies replies, now]
    exact draining e inside (called ▸ here)
  · cases now.symm.trans live'
    refine ⟨fun here => reports (called ▸ here), fun e inside here => ?_⟩
    rw [isSet_of_replies replies]
    exact rest e inside (called ▸ here)

theorem Reported.prepared (ids : Ids s) (calls : Calls s) (draining : s.Reported s.draining) :
    s.Reported s.prepared.draining := by
  intro e inside called
  cases down : s.closed || s.flag with
  | false =>
    rw [prepared_of_open down] at inside
    exact draining e inside called
  | true =>
    rw [(ids.prepared_of_closed down).1] at inside
    rcases List.mem_append.mp inside with here | here
    · exact draining e here called
    · exact absurd called (calls.queued e here)

theorem Reported.append {entries : List QueuedEntry} (h : s.Reported entries)
    (uncalled : e.reply ∉ s.called) : s.Reported (entries ++ [e]) := by
  intro e' inside called
  rcases List.mem_append.mp inside with here | here
  · exact h e' here called
  · exact absurd called (List.mem_singleton.mp here ▸ uncalled)

theorem Ends.reports {unknown : Bool} {run : RunResult} (h : Ends policy s e pc unknown run) :
    pc.pending = some e ∨ run.status.afterCall = true := by
  cases h with
  | callCut => exact .inr rfl
  | answered answered => exact .inr (ValidatedOperation.result_afterCall answered)
  | _ => exact .inl rfl

/-- The executor is called for the entry the worker has started. -/
theorem Truthful.call {ns : TimestampNs} {event : Event} (h : Truthful s) (regular : Regular s)
    (settlement : Settlement s) (live : s.tasks t = .live pc) (pending : pc.pending = some e)
    (move : WorkerMove policy s t pc event (s.call t e ns)) : Truthful (s.call t e ns) := by
  have own := settlement.workers t pc live
  have current : pc.current = some e ∧ pc.holds = some e ∧ pc.adopting = none := by
    cases pc <;> cases pending <;> exact ⟨rfl, rfl, rfl⟩
  obtain ⟨current, holds, idle⟩ := current
  refine .steps regular live move (fun e' inside called result here => ?_)
    (fun e' inside called => ?_) fun st after live' => ?_
  · rcases List.mem_cons.mp called with same | before
    · have none : s.replies e.reply = [] := by
        simpa [Shared.isSet] using own.current e current
      rw [show (s.call t e ns).replies = s.replies from rfl, same, none] at here
      cases here
    · exact h.replies e' inside before result here
  · rcases List.mem_cons.mp called with same | before
    · exact absurd same (own.apart e holds e' inside)
    · exact .inl (h.found_set regular live idle e' inside before)
  · cases (Function.update_self ..).symm.trans live'

/-- What the adoption of the next entry leaves behind. -/
theorem adopt_reports {rest : List QueuedEntry} (ns : TimestampNs)
    (draining : s.Reported s.draining) (rest_set : s.Reported rest) :
    (∀ e ∈ (s.adopt t rest ns).draining, e.reply ∈ (s.adopt t rest ns).called →
      (s.adopt t rest ns).isSet e.reply = true ∨
        ∃ e', ((s.adopt t rest ns).tasks t).adopting = some e' ∧ e'.reply = e.reply) ∧
    ∀ st after, (s.adopt t rest ns).tasks t = .live (.settling st after) →
      (s.adopt t rest ns).Reports st ∧ (s.adopt t rest ns).Reported after.rest := by
  rcases adopt_eq s t rest ns with ⟨_, eq⟩ | ⟨before, e₀, rest', split, _, unset, eq⟩
  · rw [eq]
    refine ⟨fun e inside called => .inl (draining e inside called), fun st after live => ?_⟩
    cases (Function.update_self ..).symm.trans live
  · have later : ∀ e ∈ e₀ :: rest', e ∈ rest := fun e here =>
      split ▸ List.mem_append_right _ here
    have uncalled : e₀.reply ∉ s.called := fun called => by
      cases (rest_set e₀ (later e₀ List.mem_cons_self) called).symm.trans unset
    rw [eq]
    refine ⟨fun e inside called => .inl ((draining.append uncalled) e inside called),
      fun st after live => ?_⟩
    cases (Function.update_self ..).symm.trans live
    exact ⟨fun called => absurd called uncalled,
      fun e here => rest_set e (later e (List.mem_cons_of_mem _ here))⟩

/-- A result that may be reported is. -/
theorem Truthful.setReply (h : Truthful s) (reports : s.Reports st) :
    ∀ e ∈ s.accepted, e.reply ∈ s.called →
      ∀ result ∈ (s.setReply st.entry.reply st.result).replies e.reply,
        result.status.afterCall = true := by
  intro e inside called result here
  by_cases same : e.reply = st.entry.reply
  · rw [setReply_replies, same, Function.update_self] at here
    rcases List.mem_append.mp here with old | new
    · exact h.replies e inside called result (same ▸ old)
    · obtain rfl := List.mem_singleton.mp new
      exact reports (same ▸ called)
  · rw [setReply_replies, Function.update_of_ne same] at here
    exact h.replies e inside called result here

/-- The end of a settlement by a worker. -/
theorem Truthful.finish {after : After} {ns : TimestampNs} (h : Truthful s) (regular : Regular s)
    (live : s.tasks t = .live (.settling st after))
    (move : WorkerMove policy s t (.settling st after) (.audited ns) (s.finish t st after ns)) :
    Truthful (s.finish t st after ns) := by
  obtain ⟨reports, rest_set⟩ := h.worker t st after live
  have replies := h.setReply reports
  -- What the worker adopted has its result now.
  have drained : ∀ e ∈ s.draining, e.reply ∈ s.called →
      (s.setReply st.entry.reply st.result).isSet e.reply = true := by
    intro e inside called
    rcases h.found regular live inside called with set | ⟨e', adopting, same⟩
    · exact isSet_setReply st.result set
    · cases after with
      | adopt rest =>
        obtain rfl := Option.some.inj adopting
        exact same ▸ s.isSet_setReply_self st.entry.reply st.result
      | _ => cases adopting
  have swept : ∀ e ∈ (s.setReply st.entry.reply st.result).sweep.draining, e ∈ s.draining :=
    fun e here => (List.dropWhile_sublist _).subset here
  cases after with
  | clear =>
    refine .steps regular live move replies
      (fun e inside called => .inl (drained e inside called)) fun st' after' live' => ?_
    cases (Function.update_self ..).symm.trans live'
  | loop =>
    refine .steps regular live move replies
      (fun e inside called => .inl (drained e (swept e inside) called)) fun st' after' live' => ?_
    cases (Function.update_self ..).symm.trans live'
  | adopt rest =>
    obtain ⟨draining, own⟩ :=
      adopt_reports (t := t) (s := (s.setReply st.entry.reply st.result).sweep) ns
      (fun e inside called => drained e (swept e inside) called)
      (fun e here called => isSet_setReply st.result (rest_set e here called))
    have fields := adopt_fields (s.setReply st.entry.reply st.result).sweep t rest ns
    refine .steps regular live move (fun e inside called => ?_) draining own
    rw [QueueState.finish, adopt_called] at called
    rw [QueueState.finish, fields.1]
    exact replies e inside called

/-- No step of a worker sets a false result. -/
theorem Truthful.workerMove {event : Event} (h : Truthful s) (regular : Regular s)
    (settlement : Settlement s) (calls : Calls s) (live : s.tasks t = .live pc)
    (move : WorkerMove policy s t pc event s') : Truthful s' := by
  have own := settlement.workers t pc live
  have idle : ∀ {s₀ : QueueState} {pc' : WorkerPc}, s₀.tasks t = .live pc' →
      (∀ st after, pc' ≠ .settling st after) →
      ∀ st after, s₀.tasks t ≠ .live (.settling st after) := by
    intro s₀ pc' here differ st after live'
    exact differ st after (TaskState.live.inj (here.symm.trans live'))
  have step := move
  cases move with
  | @adoptRunning ns e₀ running unset =>
    have found := h.found_set regular live rfl
    refine h.settles regular live step rfl rfl (fun e inside _ => .inr ⟨e₀, rfl, ?_⟩)
      (Function.update_self ..) (fun _ => ?_) found
    · rw [List.mem_singleton.mp inside]
    · rw [Settling.start_status]
      rfl
  | @adoptDraining ns _ =>
    have found := h.found_set regular live rfl
    obtain ⟨draining, own⟩ := adopt_reports (s := s.cleared) (t := t) ns
      (fun e inside => by cases inside) found
    have fields := adopt_fields s.cleared t s.draining ns
    refine .steps regular live step (fun e inside called => ?_) draining own
    rw [fields.1]
    exact h.replies e inside (adopt_called s.cleared t s.draining ns ▸ called)
  | @drains ns e₀ rest _ front =>
    have found := Reported.prepared regular.ids calls (h.found_set regular live rfl)
    have unset := settlement.prepared_front regular.ids (own.front rfl) e₀ (by rw [front]; rfl)
    have uncalled : e₀.reply ∉ s.called := fun called => by
      rw [isSet_prepared] at unset
      cases (found e₀ (front ▸ List.mem_cons_self) called).symm.trans unset
    exact h.settles regular live step s.prepared_called s.prepared_replies
      (fun e inside called => .inl ((found.append uncalled) e inside called))
      (Function.update_self ..) (fun called => absurd called uncalled) fun e here => by cases here
  | returns =>
    refine h.goes regular live step s.prepared_called s.prepared_replies
      (Reported.prepared regular.ids calls (h.found_set regular live rfl))
        fun st after live' => ?_
    cases (Function.update_self ..).symm.trans live'
  | waits =>
    exact h.goes regular live step s.prepared_called s.prepared_replies
      (Reported.prepared regular.ids calls (h.found_set regular live rfl))
      (idle (Function.update_self ..) fun _ _ => nofun)
  | @declines ns prio e₀ rest run _ _ front _ =>
    have opened := regular.ids.open_of_front front
    rw [prepared_of_open opened] at front step ⊢
    have uncalled := calls.queued e₀ ((queued_removeFront front).mem_iff.mpr List.mem_cons_self)
    have found := h.found_set regular live rfl
    exact h.settles regular live step rfl rfl
      (fun e inside called => .inl ((found.append uncalled) e inside called))
      (Function.update_self ..) (fun called => absurd called uncalled) fun e here => by cases here
  | @starts ns prio e₀ rest _ _ front =>
    have opened := regular.ids.open_of_front front
    rw [prepared_of_open opened] at front step ⊢
    exact h.goes regular live step rfl rfl (h.found_set regular live rfl)
      (idle (Function.update_self ..) fun _ _ => nofun)
  | wakes | checks =>
    exact h.goes regular live step rfl rfl (h.found_set regular live rfl)
      (idle (Function.update_self ..) fun _ _ => nofun)
  | calls | callsChecked => exact h.call regular settlement live rfl step
  | @ends pc event e unknown run ns ends =>
    have quiet : pc.adopting = none := by cases ends <;> rfl
    have found := h.found_set regular live quiet
    have called := ended_called policy s e unknown run
    obtain ⟨_, _, eq⟩ := ended_form policy s e unknown run
    rw [eq] at step called ⊢
    refine h.settles regular live step called rfl
      (fun e inside called => .inl (found e inside called)) (Function.update_self ..)
      (fun called => ?_) fun e here => by cases here
    rw [Settling.start_status]
    exact ends.reports.resolve_left fun pending => calls.pending t e ⟨pc, live, pending⟩ called
  | @settles st st' after event next =>
    obtain ⟨reports, rest_set⟩ := h.worker t st after live
    have entry := Settling.next_entry next
    refine h.settles regular live step rfl rfl (fun e inside called => ?_)
      (Function.update_self ..) (fun called => ?_) rest_set
    · rcases h.found regular live inside called with set | ⟨e', adopting, same⟩
      · exact .inl set
      · refine .inr ⟨e', Eq.trans ?_ adopting, same⟩
        cases after with
        | adopt rest => exact congrArg some entry
        | _ => rfl
    · exact Settling.next_afterCall next (reports (entry ▸ called))
  | finishes => exact h.finish regular live step

/-! ## The other steps -/

/-- A step that sets no reply and calls nothing. -/
theorem Truthful.still (h : Truthful s)
    (accepted : ∀ e ∈ s'.accepted, e ∈ s.accepted ∨ e.reply ∉ s.called)
    (called : s'.called = s.called) (replies : s'.replies = s.replies)
    (draining : s'.draining = s.draining) (tasks : s'.tasks = s.tasks)
    (todo : ∀ todo deadline current, s'.join = .abandoning todo deadline current →
      ∀ p ∈ todo, p.1.reply ∈ s.called → s.isSet p.1.reply = true ∨ p.2.status.afterCall = true)
    (join : ∀ todo deadline st, s'.join = .abandoning todo deadline (some st) → s.Reports st) :
    Truthful s' := by
  refine ⟨fun e inside here => ?_, fun e inside here => ?_, fun t st after live => ?_,
    fun todo' deadline current at' p inside here => ?_, fun todo' deadline st at' here => ?_⟩
  · rw [called] at here
    rw [replies]
    exact h.replies e ((accepted e inside).resolve_right (absurd here)) here
  · rw [isSet_of_replies replies, tasks]
    exact h.draining e (draining ▸ inside) (called ▸ here)
  · rw [tasks] at live
    obtain ⟨reports, rest_set⟩ := h.worker t st after live
    refine ⟨fun here => reports (called ▸ here), fun e inside here => ?_⟩
    rw [isSet_of_replies replies]
    exact rest_set e inside (called ▸ here)
  · rw [isSet_of_replies replies]
    exact todo todo' deadline current at' p inside (called ▸ here)
  · exact join todo' deadline st at' (called ▸ here)

theorem Truthful.ensureWorker (h : Truthful s) (lineage : Lineage s) :
    Truthful s.ensureWorker := by
  refine ensureWorker_of h fun _ => ?_
  refine ⟨h.replies, fun e inside called => ?_, fun t st after live => ?_, h.todo, h.join⟩
  · rcases h.draining e inside called with set | ⟨t, e', adopting, same⟩
    · exact .inl set
    · have born : t ≠ s.nextTask := by
        rintro rfl
        rw [lineage.unborn _ (Nat.le_refl _)] at adopting
        cases adopting
      refine .inr ⟨t, e', ?_, same⟩
      rwa [spawn_tasks, Function.update_of_ne born]
  · rcases live_of_spawn live with fresh | live
    · cases fresh
    · exact h.worker t st after live

/-- A worker dies that does not settle a called entry it adopted. -/
theorem Truthful.drop (h : Truthful s) (pc : WorkerPc) {state : TaskState}
    (dead : ∀ pc, state ≠ .live pc) (spares : ∀ e ∈ (s.tasks t).adopting, e.reply ∉ s.called) :
    Truthful (s.drop t pc state) := by
  have draining : ∀ e ∈ s.draining, e.reply ∈ s.called → s.isSet e.reply = true ∨
      ∃ t' e', (Function.update s.tasks t state t').adopting = some e' ∧ e'.reply = e.reply := by
    intro e inside called
    rcases h.draining e inside called with set | ⟨t', e', adopting, same⟩
    · exact .inl set
    · by_cases eq : t' = t
      · subst eq
        exact absurd called (same ▸ spares e' adopting)
      · refine .inr ⟨t', e', ?_, same⟩
        rwa [Function.update_of_ne eq]
  have worker : ∀ t' st after, Function.update s.tasks t state t' = .live (.settling st after) →
      s.Reports st ∧ s.Reported after.rest :=
    fun t' st after live => h.worker t' st after (live_of_update dead live).2
  cases pc <;> exact ⟨h.replies, draining, worker, h.todo, h.join⟩

/-- `settle_abandoned` takes over when no worker is live. -/
theorem Truthful.takeOver (h : Truthful s) (calls : Calls s)
    (gone : ∀ t pc, s.tasks t ≠ .live pc) (budget : Nat) : Truthful (s.takeOver budget) := by
  refine ⟨h.replies, fun e inside => (by cases inside), h.worker,
    fun todo deadline current at' p inside called => ?_, fun _ _ _ at' => (by cases at')⟩
  cases at'
  rw [abandoned, List.mem_append] at inside
  rcases inside with here | here
  · cases running : s.running with
    | none =>
      rw [running] at here
      cases here
    | some e =>
      rw [running] at here
      obtain rfl := List.mem_singleton.mp here
      exact .inr rfl
  · obtain ⟨e, found, rfl⟩ := List.mem_map.mp here
    rcases List.mem_append.mp found with queued | draining
    · exact absurd called (calls.queued e queued)
    · rcases h.draining e draining called with set | ⟨t, e', adopting, _⟩
      · exact .inl set
      · obtain ⟨pc, live, _⟩ := live_of_adopting adopting
        exact absurd live (gone t pc)

theorem Truthful.elsewhere (h : Truthful s) {r : ReplyId} {result : ControlResult}
    (foreign : ∀ e ∈ s.accepted, e.reply ≠ r) : Truthful (s.setReply r result) := by
  refine ⟨fun e inside called result' here => ?_, fun e inside called => ?_,
    fun t st after live => ?_, fun todo deadline current at' p inside called => ?_, h.join⟩
  · rw [setReply_replies, Function.update_of_ne (foreign e inside)] at here
    exact h.replies e inside called result' here
  · exact (h.draining e inside called).imp_left (isSet_setReply result)
  · obtain ⟨reports, rest_set⟩ := h.worker t st after live
    exact ⟨reports, fun e inside called => isSet_setReply result (rest_set e inside called)⟩
  · exact (h.todo todo deadline current at' p inside called).imp_left (isSet_setReply result)

/-- `settle_abandoned` goes on. -/
theorem Truthful.abandons {todo todo' : List (QueuedEntry × RunResult)} {deadline : Instant}
    {current current' : Option Settling} (h : Truthful s)
    (at' : s.join = .abandoning todo deadline current) (left : ∀ p ∈ todo', p ∈ todo)
    (reports : ∀ st ∈ current', s.Reports st) (depth : Nat) :
    Truthful { s with depth, join := .abandoning todo' deadline current' } := by
  refine h.still (fun _ => .inl) rfl rfl rfl rfl (fun _ _ _ now p inside => ?_) fun _ _ _ now => ?_
  · cases now
    exact h.todo _ _ _ at' p (left p inside)
  · cases now
    exact reports _ rfl

/-- The end of a settlement by `settle_abandoned`. -/
theorem Truthful.abandonFinishes (h : Truthful s) (regular : Regular s)
    {todo : List (QueuedEntry × RunResult)} {deadline : Instant}
    (at' : s.join = .abandoning todo deadline (some st)) :
    Truthful ((s.setReply st.entry.reply st.result).setJoin (.abandoning todo deadline none)) := by
  refine ⟨fun e inside called result here => ?_, fun e inside called => ?_,
    fun t st' after live => absurd live (regular.abandoned at'),
    fun todo' deadline' current now p inside called => ?_, fun _ _ _ now => (by cases now)⟩
  · exact h.setReply (h.join todo deadline st at') e inside called result here
  · exact (h.draining e inside called).imp_left (isSet_setReply st.result)
  · cases now
    exact (h.todo todo deadline (some st) at' p inside called).imp_left (isSet_setReply st.result)

/-- No step sets a false result. -/
theorem Truthful.step {label : Label} (h : Truthful s) (regular : Regular s)
    (settlement : Settlement s) (calls : Calls s) (ok : s.Exclusive label) (spares : s.Spares label)
    (move : Move policy s label s') : Truthful s' := by
  have after := regular.step ok move
  cases move with
  | tick | raise | cancel | supervise | findsDead =>
    exact h.still (fun _ => .inl) rfl rfl rfl rfl h.todo h.join
  | elsewhere foreign => exact h.elsewhere foreign
  | push fresh =>
    obtain ⟨_, absent⟩ := fresh_notMem fresh
    refine h.still (fun e' inside => ?_) rfl rfl rfl rfl h.todo h.join
    rcases List.mem_cons.mp inside with rfl | before
    · refine .inr fun called => ?_
      obtain ⟨e, accepted, same⟩ := calls.accepted _ called
      exact absent e accepted same
    · exact .inl before
  | enter | revive =>
    exact Truthful.ensureWorker (h.still (fun _ => .inl) rfl rfl rfl rfl h.todo h.join)
      ⟨regular.lineage.unborn, regular.lineage.handle, regular.lineage.closing,
        regular.lineage.flagged, regular.lineage.lone⟩
  | shutdown | joinNone | joinTake | joined | abandonDone =>
    exact h.still (fun _ => .inl) rfl rfl rfl rfl (fun _ _ _ at' => by cases at')
      fun _ _ _ at' => by cases at'
  | joinedDead => exact h.takeOver calls (fun t pc => after.abandoned rfl) _
  | @abort t pc budget at' live =>
    have dropped : Truthful (s.drop t pc .aborted) := by
      refine h.drop pc (fun _ eq => by cases eq) (spares t ?_)
      rw [at']
      rfl
    have dropped_calls : Calls (s.drop t pc .aborted) := calls.drop pc fun _ eq => by cases eq
    exact dropped.takeOver dropped_calls (fun t pc => after.abandoned rfl) budget
  | skip at' =>
    exact h.abandons at' (fun _ => List.mem_cons_of_mem _) (fun _ here => by cases here) s.depth
  | @next e run todo deadline stage ns at' unset =>
    refine h.abandons at' (fun _ => List.mem_cons_of_mem _) (fun st here called => ?_) _
    cases here
    rw [Settling.start_status]
    rcases h.todo _ _ _ at' _ List.mem_cons_self called with set | reports
    · cases set.symm.trans unset
    · exact reports
  | abandonSettles at' next =>
    refine h.abandons at' (fun _ => id) (fun st here called => ?_) s.depth
    cases here
    exact Settling.next_afterCall next (h.join _ _ _ at' (Settling.next_entry next ▸ called))
  | @givesUp todo deadline st at' _ =>
    refine h.abandons at' (fun _ => id) (fun st' here called => ?_) s.depth
    cases here
    exact h.join todo deadline st at' called
  | abandonFinishes at' => exact h.abandonFinishes regular at'
  | worker live move => exact h.workerMove regular settlement calls live move
  | @panic t pc => exact h.drop pc (fun _ eq => by cases eq) spares

/-! ## Runs -/

/-- The condition under which called entries are reported as such. -/
def Faithful (s : QueueState) (label : Label) : Prop := s.Exclusive label ∧ s.Spares label

instance (s : QueueState) (label : Label) : Decidable (s.Faithful label) :=
  inferInstanceAs (Decidable (_ ∧ _))

/-- In every run in which `join` is exclusive and no worker dies while it
settles an entry it adopted and for which the executor was called, every result
of a called entry is a success, a failure or indeterminate. -/
theorem called_reported {shared : Shared} {labels : List Label}
    (run : (queueMachine policy).Run Faithful (.new policy shared) labels s) :
    ∀ e ∈ s.accepted, e.reply ∈ s.called → ∀ result ∈ s.replies e.reply,
      result.status = .succeeded ∨ result.status = .failed ∨ result.status = .indeterminate := by
  have sound : Regular s ∧ Settlement s ∧ Calls s ∧ Truthful s := by
    refine run.invariant (P := fun s => Regular s ∧ Settlement s ∧ Calls s ∧ Truthful s)
      ⟨.new policy shared, .new policy shared, .new policy shared, .new policy shared⟩ ?_
    rintro s label s' ⟨regular, settlement, calls, truthful⟩ ⟨exclusive, spares⟩ taken
    have move := step_move taken
    exact ⟨regular.step exclusive move, settlement.step regular move, calls.step regular.ids move,
      truthful.step regular settlement calls exclusive spares move⟩
  intro e inside called result here
  have reported := sound.2.2.2.replies e inside called result here
  cases status : result.status with
  | succeeded => exact .inl rfl
  | failed => exact .inr (.inl rfl)
  | indeterminate => exact .inr (.inr rfl)
  | _ =>
    rw [status] at reported
    cases reported

/-- A worker dies during a call and its successor settles the entry. -/
def succeeded : List Label :=
  [.push (sample 0), .enter, .worker 0 (.begin 0), .worker 0 (.round 0), .worker 0 (.poll 0),
    .panic 0, .supervise, .revive, .worker 1 (.begin 0)]

/-- The entry that was called has a result. -/
theorem called_reported_succeeded :
    ∃ s, (queueMachine .default).Run Faithful quiet (succeeded ++ settles 1) s ∧
      (sample 0 ∈ s.accepted ∧ 0 ∈ s.called ∧ s.isSet 0 = true) ∧
      ∀ e ∈ s.accepted, e.reply ∈ s.called → ∀ result ∈ s.replies e.reply,
        result.status = .succeeded ∨ result.status = .failed ∨ result.status = .indeterminate :=
  Lib.Machine.Run.find (by decide) fun s run _ => called_reported run

/-- The successor dies too, while it settles the entry: the third worker finds
it in `draining` and reports it as cancelled. -/
theorem succeeded_twice_cancelled :
    ∃ s, (queueMachine .default).Run Lib.Machine.Always quiet
        (succeeded ++ [.panic 1, .supervise, .revive, .worker 2 (.begin 0)] ++ settles 2) s ∧
      sample 0 ∈ s.accepted ∧ 0 ∈ s.called ∧
      (s.replies 0).map (fun result => result.status) = [.cancelled] := by
  exact Lib.Machine.Run.of_any _ (by decide)

end QueueState

end ForgeLink.Control
