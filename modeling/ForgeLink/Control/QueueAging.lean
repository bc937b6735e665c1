import ForgeLink.Control.QueueCustody

/-!
# Aging

A worker picks the front entry with the highest effective priority, and of two
with the same one the entry of the higher class (`pick_greatest`).  An entry that
has waited for long enough has the highest effective priority there is, and while
it is ready it keeps it.  So it can only be overtaken by entries of higher classes
whose effective priority is the highest as well (`overtaken_only_by_aged`), which
a critical entry has from the start: a stream of critical entries overtakes it for
as long as it lasts (`overtaken_by_critical`).
-/

namespace ForgeLink.Control

namespace QueueState

open Lib (Machine)

variable {policy : ControlPolicy} {s s' : QueueState} {t : TaskId} {ns : TimestampNs}
variable {prio : Priority}

/-! ## The pick -/

/-- A front entry that loses against another one, by effective priority and class. -/
def Yields (a b : Int × Priority) : Prop :=
  a.1 < b.1 ∨ a.1 = b.1 ∧ a.2.toInt ≤ b.2.toInt

theorem Yields.refl (a : Int × Priority) : Yields a a := .inr ⟨rfl, Int.le_refl _⟩

theorem Yields.trans {a b c : Int × Priority} (h : Yields a b) (h' : Yields b c) : Yields a c := by
  unfold Yields at *
  omega

/-- The scan ends with the greatest of what it began with and what it has seen. -/
theorem best_greatest {ps : List Priority} {best : Option (Int × Priority)} {win : Int × Priority}
    (descending : ps.Pairwise fun p q => q.toInt < p.toInt)
    (above : ∀ b ∈ best, ∀ p ∈ ps, p.toInt < b.2.toInt)
    (won : s.best policy ns ps best = some win) :
    (∀ b ∈ best, Yields b win) ∧
      ∀ p ∈ ps, ∀ front rest, s.entries p = front :: rest →
        Yields (s.effective policy ns p front, p) win := by
  induction ps generalizing best with
  | nil =>
    rw [QueueState.best] at won
    refine ⟨fun b here => ?_, fun p inside => by cases inside⟩
    obtain rfl := Option.some.inj (won.symm.trans here)
    exact .refl _
  | cons p ps ih =>
    obtain ⟨lower, descending⟩ := List.pairwise_cons.mp descending
    rw [QueueState.best] at won
    split at won
    next empty =>
      obtain ⟨old, seen⟩ := ih descending
        (fun b here q inside => above b here q (List.mem_cons_of_mem p inside)) won
      refine ⟨old, fun q inside front rest eq => ?_⟩
      rcases List.mem_cons.mp inside with rfl | inside
      · rw [empty] at eq
        cases eq
      · exact seen q inside front rest eq
    next front rest eq =>
      -- The scan goes on with the better of the two.
      have goesOn : ∀ b', s.best policy ns ps (some b') = some win →
          (∀ b ∈ best, Yields b b') → Yields (s.effective policy ns p front, p) b' →
          (∀ q ∈ ps, q.toInt < b'.2.toInt) →
          (∀ b ∈ best, Yields b win) ∧ ∀ q ∈ p :: ps, ∀ front rest, s.entries q = front :: rest →
            Yields (s.effective policy ns q front, q) win := by
        intro b' won old new above
        obtain ⟨kept, seen⟩ := ih descending
          (fun b here => by obtain rfl := Option.some.inj here; exact above) won
        have kept := kept b' rfl
        refine ⟨fun b here => (old b here).trans kept, fun q inside front' rest' eq' => ?_⟩
        rcases List.mem_cons.mp inside with rfl | inside
        · obtain ⟨rfl, _⟩ := List.cons.inj (eq.symm.trans eq')
          exact new.trans kept
        · exact seen q inside front' rest' eq'
      dsimp only at won
      split at won
      next bestEff q =>
        have higher := above (bestEff, q) rfl p List.mem_cons_self
        split at won
        next better =>
          refine goesOn _ won (fun b here => ?_) (.refl _) lower
          obtain rfl := Option.some.inj here
          exact .inl better
        next worse =>
          refine goesOn _ won (fun b here => ?_) ?_ fun r inside =>
            above _ rfl r (List.mem_cons_of_mem p inside)
          · obtain rfl := Option.some.inj here
            exact .refl _
          · unfold Yields
            dsimp only at higher ⊢
            omega
      next => exact goesOn _ won (fun b here => by cases here) (.refl _) lower

/-- What the scan ends with is the front entry of a class. -/
theorem best_front {ps : List Priority} {best : Option (Int × Priority)} {win : Int × Priority}
    (won : s.best policy ns ps best = some win) :
    best = some win ∨
      ∃ front rest, s.entries win.2 = front :: rest ∧
        win.1 = s.effective policy ns win.2 front := by
  induction ps generalizing best with
  | nil => exact .inl won
  | cons p ps ih =>
    rw [QueueState.best] at won
    split at won
    · exact ih won
    next front rest eq =>
      have found : some (s.effective policy ns p front, p) = some win →
          ∃ front rest, s.entries win.2 = front :: rest ∧
            win.1 = s.effective policy ns win.2 front := by
        rintro ⟨⟩
        exact ⟨front, rest, eq, rfl⟩
      dsimp only at won
      split at won
      · split at won
        · exact .inr ((ih won).elim found id)
        · exact ih won
      · exact .inr ((ih won).elim found id)

/-- The worker picks the greatest front entry. -/
theorem pick_greatest (picked : s.pick policy ns = some prio) :
    ∃ front rest, s.entries prio = front :: rest ∧
      ∀ prio' front' rest', s.entries prio' = front' :: rest' →
        Yields (s.effective policy ns prio' front', prio')
          (s.effective policy ns prio front, prio) := by
  obtain ⟨win, won, rfl⟩ := Option.map_eq_some_iff.mp picked
  have seen := (best_greatest (by decide) (fun b here => by cases here) won).2
  rcases best_front won with start | ⟨front, rest, eq, eff⟩
  · cases start
  · refine ⟨front, rest, eq, fun prio' front' rest' eq' => ?_⟩
    rw [← eff]
    exact seen prio' (List.mem_reverse.mpr prio'.mem_ascending) front' rest' eq'

/-! ## The effective priority -/

theorem effective_le (policy : ControlPolicy) (s : QueueState) (ns : TimestampNs)
    (prio : Priority) (e : QueuedEntry) : s.effective policy ns prio e ≤ 3 := by
  have base : prio.toInt ≤ 3 := by cases prio <;> decide
  unfold effective
  dsimp only
  split <;> omega

theorem saturate_mono {m n : Int} (h : m ≤ n) : saturate m ≤ saturate n := by
  unfold saturate
  omega

theorem saturate_nonneg {n : Int} (h : 0 ≤ n) : 0 ≤ saturate n := by
  unfold saturate i64Min i64Max
  omega

/-- An entry that is ready and has the highest effective priority keeps it. -/
theorem effective_later {e : QueuedEntry} {ns' : TimestampNs} (queued : e.queuedAtNs ≤ ns)
    (later : ns ≤ ns') (ready : s'.ready e = true) (aged : s.effective policy ns prio e = 3) :
    s'.effective policy ns' prio e = 3 := by
  have base : prio.toInt ≤ 3 := by cases prio <;> decide
  have some : 0 ≤ saturate (ns - e.queuedAtNs) := saturate_nonneg (Int.sub_nonneg_of_le queued)
  have more : saturate (ns - e.queuedAtNs) ≤ saturate (ns' - e.queuedAtNs) :=
    saturate_mono (Int.sub_le_sub_right later _)
  have waited : 0 ≤ (saturate (ns - e.queuedAtNs)).tdiv 1000000 :=
    Int.tdiv_nonneg some (by decide)
  have longer : (saturate (ns - e.queuedAtNs)).tdiv 1000000 ≤
      (saturate (ns' - e.queuedAtNs)).tdiv 1000000 := by
    rw [Int.tdiv_eq_ediv_of_nonneg some, Int.tdiv_eq_ediv_of_nonneg (Int.le_trans some more)]
    exact Int.ediv_le_ediv (by decide) more
  unfold effective at aged ⊢
  dsimp only at aged ⊢
  generalize (saturate (ns - e.queuedAtNs)).tdiv 1000000 = before at *
  generalize (saturate (ns' - e.queuedAtNs)).tdiv 1000000 = after at *
  split at aged
  next old =>
    rw [if_pos ⟨old.1, ready⟩]
    have more : before.tdiv (asI64 policy.priorityAgingMs) ≤ 0 ∨
        before.tdiv (asI64 policy.priorityAgingMs) ≤ after.tdiv (asI64 policy.priorityAgingMs) := by
      by_cases positive : 0 < asI64 policy.priorityAgingMs
      · rw [Int.tdiv_eq_ediv_of_nonneg waited, Int.tdiv_eq_ediv_of_nonneg (by omega)]
        exact .inr (Int.ediv_le_ediv positive longer)
      · -- A period of 2^63 ms and more is negative as an `i64`.
        exact .inl (Int.tdiv_nonpos_of_nonneg_of_nonpos waited (by omega))
    omega
  next => split <;> omega

/-! ## What a step does to the entries -/

/-- The entries before and after a step: one is added to the end of its class, the one
that is picked is taken, or all are. -/
inductive Requeues (policy : ControlPolicy) (s : QueueState) : Label → QueueState → Prop where
  | same {label} {s' : QueueState} : s'.entries = s.entries → Requeues policy s label s'
  | appends {e prio} {s' : QueueState} :
      s.fresh e = true →
      s'.entries = Function.update s.entries prio (s.entries prio ++ [e]) →
      Requeues policy s (.push e) s'
  | takes {t ns prio e rest} {s' : QueueState} :
      s.pick policy ns = some prio → s.entries prio = e :: rest →
      s'.entries = Function.update s.entries prio rest →
      Requeues policy s (.worker t (.round ns)) s'
  | empties {label} {s' : QueueState} : (∀ prio, s'.entries prio = []) → Requeues policy s label s'

theorem schedule_entries (policy : ControlPolicy) (s : QueueState) (t : TaskId)
    (ns : TimestampNs) :
    (s.schedule policy t ns).entries = s.entries ∨
      ∃ prio e rest, s.pick policy ns = some prio ∧ s.entries prio = e :: rest ∧
        (s.schedule policy t ns).entries = Function.update s.entries prio rest := by
  rw [schedule]
  split
  · exact .inl rfl
  · split
    · exact .inl rfl
    next prio picked =>
      split
      · exact .inl rfl
      next e rest eq =>
        refine .inr ⟨prio, e, rest, picked, eq, ?_⟩
        dsimp only
        split
        · rfl
        · split <;> rfl

theorem Ids.requeues_round (h : Ids s) (t : TaskId) (ns : TimestampNs) :
    Requeues policy s (.worker t (.round ns)) (s.round policy t ns) := by
  cases down : s.closed || s.flag with
  | false =>
    obtain ⟨isOpen, eq⟩ := closed_of_open down
    have round : s.round policy t ns = s.schedule policy t ns := by
      rw [QueueState.round, eq]
      exact if_neg (by rw [isOpen]; exact Bool.false_ne_true)
    rw [round]
    rcases s.schedule_entries policy t ns with same | ⟨prio, e, rest, picked, eq, entries⟩
    · exact .same same
    · exact .takes picked eq entries
  | true =>
    have empty := entries_of_queued_eq_nil (h.prepared_of_closed down).2.1
    have move : WorkerMove policy s t .head (.round ns) (s.round policy t ns) := round_move ns
    generalize s.round policy t ns = s' at move
    cases move with
    | drains | returns | waits => exact .empties empty
    | declines _ _ front | starts _ _ front =>
      rw [h.open_of_front front] at down
      cases down
    | ends ends => cases ends

theorem adopt_entries (s : QueueState) (t : TaskId) (rest : List QueuedEntry)
    (ns : TimestampNs) : (s.adopt t rest ns).entries = s.entries := by
  rw [adopt]
  split <;> rfl

theorem finish_entries (s : QueueState) (t : TaskId) (st : Settling) (after : After)
    (ns : TimestampNs) : (s.finish t st after ns).entries = s.entries := by
  cases after with
  | clear | loop => rfl
  | adopt rest => exact adopt_entries ..

theorem drop_entries (s : QueueState) (t : TaskId) (pc : WorkerPc) (state : TaskState) :
    (s.drop t pc state).entries = s.entries := by
  cases pc <;> rfl

theorem requeues_worker {pc : WorkerPc} {event : Event} (ids : Ids s)
    (taken : s.workerStep policy t pc event = some s') :
    Requeues policy s (.worker t event) s' := by
  by_cases scans : ∃ ns, event = .round ns
  · obtain ⟨ns, rfl⟩ := scans
    cases pc with
    | head =>
      obtain rfl := Option.some.inj taken
      exact ids.requeues_round t ns
    | _ => cases taken
  · cases worker_move taken with
    | drains | returns | waits | declines | starts => exact absurd ⟨_, rfl⟩ scans
    | adoptRunning | wakes | checks | calls | callsChecked | settles => exact .same rfl
    | adoptDraining => exact .same (adopt_entries ..)
    | @ends _ _ e unknown run ns ends =>
      obtain ⟨_, _, eq⟩ := s.ended_form policy e unknown run
      rw [eq]
      exact .same rfl
    | finishes => exact .same (finish_entries ..)

theorem requeues_of_step {label : Label} (ids : Ids s)
    (taken : (queueMachine policy).step s label = some s') : Requeues policy s label s' := by
  by_cases works : ∃ t event, label = .worker t event
  · obtain ⟨t, event, rfl⟩ := works
    simp only [queueMachine, QueueState.step] at taken
    split at taken
    · exact requeues_worker ids taken
    · cases taken
  · cases step_move taken with
    | push fresh => exact .appends fresh rfl
    | enter | revive =>
      exact .same (ensureWorker_of (P := (·.entries = s.entries)) rfl fun _ => rfl)
    | joinedDead | abort => exact .empties fun _ => rfl
    | panic => exact .same (drop_entries ..)
    | worker => exact absurd ⟨_, _, rfl⟩ works
    | _ => exact .same rfl

/-- What was accepted stays in the record. -/
theorem Move.mem_accepted {label : Label} {e : QueuedEntry} (move : Move policy s label s')
    (inside : e ∈ s.accepted) : e ∈ s'.accepted := by
  cases move with
  | push => exact List.mem_cons_of_mem _ inside
  | enter | revive => exact ensureWorker_of (P := (e ∈ ·.accepted)) inside fun _ => inside
  | @abort t pc | @panic t pc => cases pc <;> exact inside
  | worker _ move => exact move.accepted ▸ inside
  | _ => exact inside

/-! ## The front of a class -/

/-- An accepted entry is the front of the class, or has left it. -/
structure Leads (prio : Priority) (e : QueuedEntry) (s : QueueState) : Prop where
  accepted : e ∈ s.accepted
  front : e ∈ s.entries prio → ∃ rest, s.entries prio = e :: rest

theorem mem_queued {e : QueuedEntry} (inside : e ∈ s.entries prio) : e ∈ s.queued :=
  List.mem_flatMap.mpr ⟨prio, prio.mem_ascending, inside⟩

/-- The front entry of a class is not a second time behind itself. -/
theorem Ids.front_notMem {e : QueuedEntry} {rest : List QueuedEntry} (h : Ids s)
    (front : s.entries prio = e :: rest) : e ∉ rest := by
  intro again
  have stays : e ∈ (s.removeFront prio rest).entries prio := by
    rw [show (s.removeFront prio rest).entries = Function.update s.entries prio rest from rfl,
      Function.update_self]
    exact again
  exact (h.removeFront front).2.2 (List.mem_map_of_mem (mem_queued stays))

/-- The front of a class stays there until it leaves. -/
theorem Leads.step {e : QueuedEntry} {label : Label} (h : Leads prio e s) (ids : Ids s)
    (taken : (queueMachine policy).step s label = some s') : Leads prio e s' := by
  refine ⟨(step_move taken).mem_accepted h.accepted, fun inside => ?_⟩
  cases requeues_of_step ids taken with
  | same entries =>
    rw [entries] at inside ⊢
    exact h.front inside
  | @appends e' prio' _ fresh entries =>
    have other : e ≠ e' := fun eq => (fresh_notMem fresh).2 e h.accepted (by rw [eq])
    rw [entries] at inside ⊢
    by_cases same : prio = prio'
    · subst same
      rw [Function.update_self] at inside ⊢
      have before : e ∈ s.entries prio := by simpa [other] using inside
      obtain ⟨rest, eq⟩ := h.front before
      exact ⟨rest ++ [e'], by rw [eq, List.cons_append]⟩
    · rw [Function.update_of_ne same] at inside ⊢
      exact h.front inside
  | @takes t ns prio' e' rest _ picked eq entries =>
    rw [entries] at inside ⊢
    by_cases same : prio = prio'
    · subst same
      -- The entry was the front, so it is the one that was taken.
      rw [Function.update_self] at inside
      obtain ⟨rest', eq'⟩ := h.front (eq ▸ List.mem_cons_of_mem e' inside)
      obtain ⟨rfl, _⟩ := List.cons.inj (eq.symm.trans eq')
      exact absurd inside (ids.front_notMem eq)
    · rw [Function.update_of_ne same] at inside ⊢
      exact h.front inside
  | empties entries =>
    rw [entries] at inside
    cases inside

/-- The time that a worker reads when it picks. -/
def Label.clock : Label → Option TimestampNs
  | .worker _ (.round ns) => some ns
  | _ => none

/-- The clock does not go back behind a moment. -/
def ClockFrom (ns : TimestampNs) (_ : QueueState) (label : Label) : Prop :=
  ∀ ns' ∈ label.clock, ns ≤ ns'

instance (ns : TimestampNs) (s : QueueState) (label : Label) : Decidable (ClockFrom ns s label) :=
  inferInstanceAs (Decidable (∀ ns' ∈ label.clock, ns ≤ ns'))

theorem Priority.toInt_injective {p q : Priority} (h : p.toInt = q.toInt) : p = q := by
  cases p <;> cases q <;> first | rfl | cases h

/-- Once the front entry of a class has waited until its effective priority is the
highest, and as long as it is ready, an entry leaves the queue before it only if
it is of a higher class and its effective priority is the highest as well. -/
theorem overtaken_only_by_aged {shared : Shared} {before labels : List Label} {label : Label}
    {s₁ s₂ s₃ : QueueState} {prio' : Priority} {e f : QueuedEntry} {rest : List QueuedEntry}
    (reached : (queueMachine policy).Run Machine.Always (.new policy shared) before s₁)
    (front : s₁.entries prio = e :: rest) (queued : e.queuedAtNs ≤ ns)
    (aged : s₁.effective policy ns prio e = 3)
    (run : (queueMachine policy).Run (ClockFrom ns) s₁ labels s₂) (clock : ClockFrom ns s₂ label)
    (taken : (queueMachine policy).step s₂ label = some s₃) (ready : s₂.ready e = true)
    (stays : e ∈ s₃.entries prio) (inside : f ∈ s₂.entries prio') (left : f ∉ s₃.entries prio') :
    prio.toInt < prio'.toInt ∧
      ∃ t ns', label = .worker t (.round ns') ∧ s₂.effective policy ns' prio' f = 3 := by
  have ids₁ : Ids s₁ := reached.invariant (.new policy shared) fun _ _ _ ids _ taken =>
    ids.step (step_move taken)
  have accepted : e ∈ s₁.accepted :=
    ids₁.queued_accepted e (mem_queued (front ▸ List.mem_cons_self))
  obtain ⟨ids, leads⟩ := run.invariant (P := fun s => Ids s ∧ Leads prio e s)
    ⟨ids₁, accepted, fun _ => ⟨rest, front⟩⟩ fun _ _ _ ⟨ids, leads⟩ _ taken =>
      ⟨ids.step (step_move taken), leads.step ids taken⟩
  cases requeues_of_step ids taken with
  | same entries => exact absurd (entries ▸ inside) left
  | @appends e' prio'' _ _ entries =>
    refine absurd ?_ left
    rw [entries]
    by_cases same : prio' = prio''
    · subst same
      rw [Function.update_self]
      exact List.mem_append_left _ inside
    · rwa [Function.update_of_ne same]
  | @takes t ns' prio'' e' rest' _ picked eq entries =>
    rw [entries] at stays left
    -- It is the front entry of the class that was picked, and not of the class of `e`.
    obtain rfl : prio' = prio'' := by
      by_contra other
      rw [Function.update_of_ne other] at left
      exact left inside
    rw [Function.update_self] at left
    rw [eq, List.mem_cons, or_iff_left left] at inside
    subst inside
    have other : prio ≠ prio' := by
      rintro rfl
      rw [Function.update_self] at stays
      obtain ⟨rest'', eq'⟩ := leads.front (eq ▸ List.mem_cons_of_mem f stays)
      obtain ⟨rfl, _⟩ := List.cons.inj (eq.symm.trans eq')
      exact left stays
    rw [Function.update_of_ne other] at stays
    obtain ⟨rest'', eq'⟩ := leads.front stays
    obtain ⟨_, _, eq'', greatest⟩ := pick_greatest picked
    obtain ⟨rfl, rfl⟩ := List.cons.inj (eq.symm.trans eq'')
    have yields := greatest prio e rest'' eq'
    rw [effective_later queued (clock ns' rfl) ready aged, Yields] at yields
    dsimp only at yields
    have most := effective_le policy s₂ ns' prio' f
    have apart : prio.toInt ≠ prio'.toInt := fun same => other (Priority.toInt_injective same)
    exact ⟨by omega, t, ns', rfl, by omega⟩
  | empties entries =>
    rw [entries] at stays
    cases stays

/-- A critical command. -/
def urgent (r : ReplyId) : QueuedEntry := { sample r with operation := .execute .critical [] }

/-- A write waits for two aging periods, then a critical command comes, and the worker
picks. -/
theorem urgent_run :
    ∃ s₁ s₂ s₃, (queueMachine .default).Run Machine.Always quiet
        [.push (sample 0), .enter, .worker 0 (.begin 0), .tick 20000000000] s₁ ∧
      s₁.entries .medium = [sample 0] ∧
      s₁.effective .default 20000000000 .medium (sample 0) = 3 ∧ urgent 1 ∉ s₁.accepted ∧
      (queueMachine .default).Run (ClockFrom 20000000000) s₁ [.push (urgent 1), .enter] s₂ ∧
      s₂.ready (sample 0) = true ∧ urgent 1 ∈ s₂.entries .critical ∧
      (queueMachine .default).step s₂ (.worker 0 (.round 20000000000)) = some s₃ ∧
      s₃.running = some (urgent 1) ∧ sample 0 ∈ s₃.entries .medium ∧
      urgent 1 ∉ s₃.entries .critical := by
  obtain ⟨s₁, reached, front, aged, new, goesOn⟩ := Machine.Run.of_any
    (fun s₁ : QueueState => s₁.entries .medium = [sample 0] ∧
      s₁.effective .default 20000000000 .medium (sample 0) = 3 ∧ urgent 1 ∉ s₁.accepted ∧
      ((queueMachine .default).exec (ClockFrom 20000000000) s₁
        [.push (urgent 1), .enter]).any (fun s₂ => decide (s₂.ready (sample 0) = true ∧
          urgent 1 ∈ s₂.entries .critical ∧
          ((queueMachine .default).step s₂ (.worker 0 (.round 20000000000))).any (fun s₃ =>
            decide (s₃.running = some (urgent 1) ∧ sample 0 ∈ s₃.entries .medium ∧
              urgent 1 ∉ s₃.entries .critical)) = true)) = true)
    (show ((queueMachine .default).exec Machine.Always quiet
      [.push (sample 0), .enter, .worker 0 (.begin 0), .tick 20000000000]).any _ = true by decide)
  obtain ⟨s₂, run, ready, inside, picks⟩ := Machine.Run.of_any _ goesOn
  obtain ⟨s₃, taken, ends⟩ := (Option.any_eq_true _ _).mp picks
  exact ⟨s₁, s₂, s₃, reached, front, aged, new, run, ready, inside, taken, of_decide_eq_true ends⟩

/-- A critical entry overtakes. -/
theorem overtaken_only_by_aged_urgent :
    ∃ s₁ s₂ s₃, (queueMachine .default).Run Machine.Always quiet
        [.push (sample 0), .enter, .worker 0 (.begin 0), .tick 20000000000] s₁ ∧
      (queueMachine .default).Run (ClockFrom 20000000000) s₁ [.push (urgent 1), .enter] s₂ ∧
      (queueMachine .default).step s₂ (.worker 0 (.round 20000000000)) = some s₃ ∧
      Priority.medium.toInt < Priority.critical.toInt ∧
      ∃ t ns, Label.worker 0 (.round 20000000000) = .worker t (.round ns) ∧
        s₂.effective .default ns .critical (urgent 1) = 3 := by
  obtain ⟨s₁, s₂, s₃, reached, front, aged, _, run, ready, inside, taken, _, stays, left⟩ :=
    urgent_run
  have clock : ClockFrom 20000000000 s₂ (.worker 0 (.round 20000000000)) := by
    rintro ns ⟨⟩
    exact Int.le_refl _
  exact ⟨s₁, s₂, s₃, reached, run, taken, overtaken_only_by_aged reached front (by decide) aged run
    clock taken ready stays inside left⟩

/-- A write has waited until its effective priority is the highest, and it is ready; a
critical command that is accepted after that is started before it. -/
theorem overtaken_by_critical :
    ∃ s₁ s₂ s₃, (queueMachine .default).Run Machine.Always quiet
        [.push (sample 0), .enter, .worker 0 (.begin 0), .tick 20000000000] s₁ ∧
      s₁.entries .medium = [sample 0] ∧
      s₁.effective .default 20000000000 .medium (sample 0) = 3 ∧ urgent 1 ∉ s₁.accepted ∧
      (queueMachine .default).Run (ClockFrom 20000000000) s₁ [.push (urgent 1), .enter] s₂ ∧
      s₂.ready (sample 0) = true ∧
      (queueMachine .default).step s₂ (.worker 0 (.round 20000000000)) = some s₃ ∧
      s₃.running = some (urgent 1) ∧ sample 0 ∈ s₃.entries .medium := by
  obtain ⟨s₁, s₂, s₃, reached, front, aged, new, run, ready, _, taken, running, stays, _⟩ :=
    urgent_run
  exact ⟨s₁, s₂, s₃, reached, front, aged, new, run, ready, taken, running, stays⟩

end QueueState

end ForgeLink.Control
