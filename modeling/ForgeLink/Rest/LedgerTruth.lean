import ForgeLink.Rest.Ledger

/-!
# What the request ledger tells

`register_spec` says all that entering something does to the ledger: the key has
an entry, whose result is the new one or, if none is given, the old one; and of
the other entries only settled ones may go.

A status query is to tell of an accepted request that it runs until its receipt
resolves, and then its result (`Truthful`).  It does not always do so.  The
adapter enters every ready answer over the entry of the key, and it enters a
running request without removing an old result.  A retry that the engine rejects
without registering it therefore settles the entry of the request that is still
running (`status_of_disabled_retry`).

`Consistent` rules this out: a result is entered only if every accepted request
of the key has resolved to it, and a running request is entered only where no
result stands.  Under it the ledger tells the truth (`status_truthful`).
-/

namespace ForgeLink.Rest

open Lib Control

variable {key : IdempotencyKey} {s : Adapter}

namespace RequestLedger

/-! ## Entering -/

/-- The keys of one namespace stand in the ledger, and a query finds each of them. -/
def Indexed (ns : String) (ledger : RequestLedger) : Prop :=
  ∀ key, ledger.entries.get? key ≠ none →
    key.ns = ns ∧ ledger.byQuery.get? (queryKey key) = some key

/-- Of the entries only settled ones are gone. -/
def Shrinks (before after : RequestLedger) : Prop :=
  ∀ key, after.entries.get? key = before.entries.get? key ∨
    after.entries.get? key = none ∧ ∃ result, before.entries.get? key = some ⟨some result⟩

variable {ns : String} {ledger smaller : RequestLedger}

theorem queryKey_injective {key' : IdempotencyKey} (same : key.ns = key'.ns)
    (query : queryKey key = queryKey key') : key = key' := by
  cases key
  cases key'
  simp only [queryKey, Prod.mk.injEq] at query same
  simp [same, query]

theorem Shrinks.refl (ledger : RequestLedger) : Shrinks ledger ledger := fun _ => .inl rfl

theorem Shrinks.trans {first second third : RequestLedger} (one : Shrinks first second)
    (two : Shrinks second third) : Shrinks first third := by
  intro key
  rcases two key with same | ⟨gone, result, found⟩
  · rw [same]
    exact one key
  · rcases one key with same' | ⟨gone', _⟩
    · exact .inr ⟨gone, result, same' ▸ found⟩
    · rw [gone'] at found
      cases found

/-- Only settled calls are evicted. -/
theorem evictOldestSettled_spec (indexed : Indexed ns ledger)
    (evicted : ledger.evictOldestSettled = some smaller) :
    Indexed ns smaller ∧ Shrinks ledger smaller := by
  unfold evictOldestSettled at evicted
  split at evicted
  next => cases evicted
  next old found =>
    cases evicted
    have settled : ledger.isSettled old = true := List.find?_some found
    obtain ⟨entry, had, has⟩ : ∃ entry, ledger.entries.get? old = some entry ∧
        entry.result.isSome = true := by
      unfold isSettled at settled
      cases had : ledger.entries.get? old with
      | none => simp [had] at settled
      | some entry => exact ⟨entry, rfl, by simpa [had] using settled⟩
    obtain ⟨result, eq⟩ := Option.isSome_iff_exists.mp has
    have old_ns := (indexed old (by rw [had]; simp)).1
    refine ⟨fun key present => ?_, fun key => ?_⟩
    · simp only [AssocMap.get?_erase] at present
      split at present
      next => exact absurd rfl present
      next differ =>
        obtain ⟨same_ns, query⟩ := indexed key present
        refine ⟨same_ns, ?_⟩
        dsimp only
        split
        next =>
          rw [AssocMap.get?_erase, if_neg, query]
          exact fun same => differ (queryKey_injective (same_ns.trans old_ns.symm) same)
        next => exact query
    · simp only [AssocMap.get?_erase]
      split
      next same =>
        subst same
        exact .inr ⟨rfl, result, by rw [had, ← eq]⟩
      next => exact .inl rfl

theorem makeRoom_spec (turns : Nat) (indexed : Indexed ns ledger) :
    Indexed ns (makeRoom turns ledger) ∧ Shrinks ledger (makeRoom turns ledger) := by
  induction turns generalizing ledger with
  | zero => exact ⟨indexed, .refl ledger⟩
  | succ turns ih =>
    unfold makeRoom
    split
    next =>
      split
      next smaller evicted =>
        obtain ⟨indexed', shrinks⟩ := evictOldestSettled_spec indexed evicted
        obtain ⟨indexed'', shrinks'⟩ := ih indexed'
        exact ⟨indexed'', shrinks.trans shrinks'⟩
      next => exact ⟨indexed, .refl ledger⟩
    next => exact ⟨indexed, .refl ledger⟩

/-- What `register` does. -/
theorem register_spec (indexed : Indexed ns ledger) (own : key.ns = ns)
    (result : Option ControlResult) :
    Indexed ns (ledger.register key result) ∧
      (ledger.register key result).entries.get? key =
        some ⟨result.or ((ledger.entries.get? key).bind LedgerEntry.result)⟩ ∧
      ∀ other, other ≠ key →
        (ledger.register key result).entries.get? other = ledger.entries.get? other ∨
        (ledger.register key result).entries.get? other = none ∧
          ∃ old, ledger.entries.get? other = some ⟨some old⟩ := by
  unfold register
  cases had : ledger.entries.get? key with
  | some entry =>
    cases result with
    | none => exact ⟨indexed, had, fun _ _ => .inl rfl⟩
    | some result =>
      refine ⟨fun k present => ?_, ?_, fun other differ => ?_⟩
      · refine indexed k fun gone => present ?_
        rw [AssocMap.get?_modify, gone]
        split <;> rfl
      · rw [AssocMap.get?_modify, if_pos rfl, had]
        rfl
      · rw [AssocMap.get?_modify, if_neg differ]
        exact .inl rfl
  | none =>
    obtain ⟨indexed', shrinks⟩ := makeRoom_spec ledger.order.length indexed
    refine ⟨fun k present => ?_, ?_, fun other differ => ?_⟩
    · simp only [insert, AssocMap.get?_insert] at present ⊢
      split at present
      next same =>
        subst same
        exact ⟨own, if_pos rfl⟩
      next differ =>
        obtain ⟨same_ns, query⟩ := indexed' k present
        refine ⟨same_ns, ?_⟩
        rw [if_neg, query]
        exact fun same => differ (queryKey_injective (same_ns.trans own.symm) same)
    · simp [insert]
    · simp only [insert, AssocMap.get?_insert, if_neg differ]
      exact shrinks other

/-- A query of a key in the ledger. -/
theorem query_eq (indexed : Indexed ns ledger) {entry : LedgerEntry}
    (found : ledger.entries.get? key = some entry) :
    ledger.query key.deviceId key.requestId =
      match entry.result with
      | some result => .settled result
      | none => .running := by
  have query := (indexed key (by rw [found]; simp)).2
  unfold RequestLedger.query
  rw [show (key.deviceId, key.requestId) = queryKey key from rfl, query]
  dsimp only
  rw [found]
  obtain ⟨result⟩ := entry
  cases result <;> rfl

end RequestLedger

/-! ## Runs of the adapter -/

namespace Adapter

/-- Every accepted request of the key has resolved to this result. -/
def AllResolved (s : Adapter) (key : IdempotencyKey) (result : ControlResult) : Prop :=
  ∀ a ∈ s.accepted, a.key = key → s.shared.get? a.shared = some result

instance (s : Adapter) (key : IdempotencyKey) (result : ControlResult) :
    Decidable (s.AllResolved key result) := List.decidableBAll _ _

/-- What a submit may enter: a result that every accepted request of the key has
resolved to, or a request that has not resolved where no result stands. -/
def MayEnter (s : Adapter) (call : Call) : Prop :=
  match call.receipt with
  | .ready result => isAuthorizationRejection result = true ∨ s.AllResolved call.key result
  | .pending shared =>
    s.shared.get? shared ≠ none ∨
      (s.ledger.entries.get? call.key).bind LedgerEntry.result = none
  | _ => True

instance : (s : Adapter) → (call : Call) → Decidable (s.MayEnter call)
  | s, ⟨key, .ready result⟩ =>
    inferInstanceAs (Decidable (isAuthorizationRejection result = true ∨
      s.AllResolved key result))
  | s, ⟨key, .pending shared⟩ =>
    inferInstanceAs (Decidable (s.shared.get? shared ≠ none ∨
      (s.ledger.entries.get? key).bind LedgerEntry.result = none))
  | _, ⟨_, .conflict _⟩ => .isTrue trivial
  | _, ⟨_, .engineClosed⟩ => .isTrue trivial

/-- Every submit enters what it may, and a waiter enters the result of all accepted
requests of its key. -/
def Consistent (s : Adapter) : Label → Prop
  | .register i => ∀ call ∈ s.calls[i]?, s.MayEnter call
  | .record i => ∀ a ∈ s.accepted[i]?, ∀ result ∈ s.shared.get? a.shared,
      s.AllResolved a.key result
  | .answer _ _ _ => True
  | .resolve _ _ => True

instance : (s : Adapter) → (label : Label) → Decidable (s.Consistent label)
  | s, .register i => inferInstanceAs (Decidable (∀ call ∈ s.calls[i]?, s.MayEnter call))
  | s, .record i => inferInstanceAs (Decidable (∀ a ∈ s.accepted[i]?,
      ∀ result ∈ s.shared.get? a.shared, s.AllResolved a.key result))
  | _, .answer _ _ _ => .isTrue trivial
  | _, .resolve _ _ => .isTrue trivial

/-- What the ledger holds for an accepted request. -/
structure Held (s : Adapter) (a : Accepted) : Prop where
  own : a.key.ns = s.ns
  running : s.shared.get? a.shared = none →
    a.recorded = false ∧ s.ledger.entries.get? a.key = some ⟨none⟩
  settled : a.recorded = true → ∃ result, s.shared.get? a.shared = some result ∧
    s.ledger.entries.get? a.key = some ⟨some result⟩

/-- The invariant of the adapter. -/
structure Inv (s : Adapter) : Prop where
  indexed : s.ledger.Indexed s.ns
  calls : ∀ call ∈ s.calls, call.key.ns = s.ns
  held : ∀ a ∈ s.accepted, s.Held a

theorem Inv.start (ns : String) (capacity : Nat) : Inv (start ns capacity) where
  indexed := by simp [RequestLedger.Indexed, Adapter.start, RequestLedger.withCapacity]
  calls := by simp [Adapter.start]
  held := by simp [Adapter.start]

/-- What is entered keeps the invariant if it suits the requests of its key. -/
theorem Inv.enter (inv : Inv s) (own : key.ns = s.ns) (result : Option ControlResult)
    {accepted : List Accepted} (others : ∀ a ∈ accepted, a.key ≠ key → s.Held a)
    (suits : ∀ a ∈ accepted, a.key = key → (s.shared.get? a.shared = none → a.recorded = false ∧
      result.or ((s.ledger.entries.get? key).bind LedgerEntry.result) = none) ∧ (a.recorded = true
      → ∃ r, s.shared.get? a.shared = some r ∧ result.or ((s.ledger.entries.get? key).bind
      LedgerEntry.result) = some r)) : Inv (s.enter key result accepted) := by
  obtain ⟨indexed, entered, rest⟩ := RequestLedger.register_spec inv.indexed own result
  refine ⟨indexed, inv.calls, fun a inside => ?_⟩
  obtain ⟨inside, stands⟩ := List.mem_filter.mp inside
  by_cases same : a.key = key
  · obtain ⟨running, settled⟩ := suits a inside same
    refine ⟨same ▸ own, fun unresolved => ?_, fun recorded => ?_⟩
    · obtain ⟨unrecorded, none⟩ := running unresolved
      exact ⟨unrecorded, by rw [same]; exact entered.trans (by rw [none])⟩
    · obtain ⟨r, resolved, eq⟩ := settled recorded
      exact ⟨r, resolved, by rw [same]; exact entered.trans (by rw [eq])⟩
  · have held := others a inside same
    refine ⟨held.own, fun unresolved => ?_, fun recorded => ?_⟩
    · obtain ⟨unrecorded, entry⟩ := held.running unresolved
      rcases rest a.key same with kept | ⟨_, old, found⟩
      · exact ⟨unrecorded, kept.trans entry⟩
      · rw [entry] at found
        cases found
    · obtain ⟨r, resolved, entry⟩ := held.settled recorded
      rcases rest a.key same with kept | ⟨gone, _⟩
      · exact ⟨r, resolved, kept.trans entry⟩
      · simp [recorded, gone] at stands

/-- Registering a call forgets no accepted one. -/
theorem Inv.register (inv : Inv s) {call : Call} (own : call.key.ns = s.ns)
    (may : s.MayEnter call) : Inv (s.register call) := by
  obtain ⟨key, receipt⟩ := call
  cases receipt with
  | conflict | engineClosed => exact inv
  | ready result =>
    unfold Adapter.register
    dsimp only
    split
    next => exact inv
    next authorized =>
      have resolved := may.resolve_left authorized
      refine inv.enter own (some result) (fun a inside _ => inv.held a inside) ?_
      intro a inside same
      have eq := resolved a inside same
      refine ⟨fun unresolved => ?_, fun _ => ⟨result, eq, rfl⟩⟩
      rw [eq] at unresolved
      cases unresolved
  | pending shared =>
    refine inv.enter own none (fun a inside differ => ?_) fun a inside same => ?_
    · rcases List.mem_append.mp inside with before | new
      · exact inv.held a before
      · exact absurd (congrArg Accepted.key (List.mem_singleton.mp new)) differ
    · rcases List.mem_append.mp inside with before | new
      · have held := inv.held a before
        rw [← same]
        refine ⟨fun unresolved => ?_, fun recorded => ?_⟩
        · obtain ⟨unrecorded, entry⟩ := held.running unresolved
          exact ⟨unrecorded, by simp [entry]⟩
        · obtain ⟨r, resolved, entry⟩ := held.settled recorded
          exact ⟨r, resolved, by simp [entry]⟩
      · obtain rfl := List.mem_singleton.mp new
        refine ⟨fun unresolved => ⟨rfl, ?_⟩, fun recorded => by cases recorded⟩
        rw [Option.none_or]
        exact may.resolve_left fun resolved => resolved unresolved

/-- Every step keeps the ledger true. -/
theorem Inv.step {t : Adapter} {label : Label} (inv : Inv s) (meets : s.Consistent label)
    (taken : s.step label = some t) : Inv t := by
  cases label with
  | answer deviceId requestId receipt =>
    cases taken
    refine ⟨inv.indexed, fun call inside => ?_, fun a inside => ?_⟩
    · rcases List.mem_append.mp inside with before | new
      · exact inv.calls call before
      · rw [List.mem_singleton.mp new]
    · obtain ⟨own, running, settled⟩ := inv.held a inside
      exact ⟨own, running, settled⟩
  | register i =>
    unfold Adapter.step at taken
    dsimp only at taken
    split at taken
    next call found =>
      cases taken
      have inside := List.mem_of_getElem? found
      obtain ⟨indexed, calls, held⟩ := inv.register (inv.calls call inside) (meets call found)
      refine ⟨indexed, fun c here => ?_, fun a here => ?_⟩
      · have own := inv.calls c (List.mem_of_mem_eraseIdx here)
        rw [own]
        unfold Adapter.register
        split
        · split <;> rfl
        · rfl
        · rfl
        · rfl
      · obtain ⟨own, running, settled⟩ := held a here
        exact ⟨own, running, settled⟩
    next => cases taken
  | resolve shared result =>
    unfold Adapter.step at taken
    dsimp only at taken
    split at taken
    next => cases taken
    next unset =>
      cases taken
      refine ⟨inv.indexed, inv.calls, fun a inside => ?_⟩
      obtain ⟨own, running, settled⟩ := inv.held a inside
      refine ⟨own, fun unresolved => ?_, fun recorded => ?_⟩
      · simp only [AssocMap.get?_insert] at unresolved
        split at unresolved
        next => cases unresolved
        next => exact running unresolved
      · obtain ⟨r, resolved, entry⟩ := settled recorded
        refine ⟨r, ?_, entry⟩
        simp only [AssocMap.get?_insert]
        split
        next same => rw [same, unset] at resolved; cases resolved
        next => exact resolved
  | record i =>
    unfold Adapter.step at taken
    dsimp only at taken
    split at taken
    next a found =>
      split at taken
      next result unrecorded resolved =>
        cases taken
        have inside := List.mem_of_getElem? found
        have all := meets a found result resolved
        refine inv.enter (inv.held a inside).own (some result) (fun b here differ => ?_)
          fun b here same => ?_
        · rcases List.mem_or_eq_of_mem_set here with before | rfl
          · exact inv.held b before
          · exact absurd rfl differ
        · have eq : s.shared.get? b.shared = some result := by
            rcases List.mem_or_eq_of_mem_set here with before | rfl
            · exact all b before same
            · exact resolved
          refine ⟨fun unresolved => ?_, fun _ => ⟨result, eq, rfl⟩⟩
          rw [eq] at unresolved
          cases unresolved
      next => cases taken
    next => cases taken

/-- A step leaves the entry of a running request. -/
theorem Inv.running_stays {t : Adapter} {label : Label} (inv : Inv s)
    (taken : s.step label = some t) (running : s.ledger.entries.get? key = some ⟨none⟩) :
    t.ledger.entries.get? key ≠ none := by
  have enter : ∀ (k : IdempotencyKey) (result : Option ControlResult), k.ns = s.ns →
      (s.ledger.register k result).entries.get? key ≠ none := by
    intro k result own
    obtain ⟨_, entered, rest⟩ := RequestLedger.register_spec inv.indexed own result
    by_cases same : key = k
    · rw [same, entered]
      simp
    · rcases rest key same with kept | ⟨_, old, found⟩
      · rw [kept, running]
        simp
      · rw [running] at found
        cases found
  have stays : s.ledger.entries.get? key ≠ none := by rw [running]; simp
  cases label with
  | answer deviceId requestId receipt =>
    cases taken
    exact stays
  | register i =>
    unfold Adapter.step at taken
    dsimp only at taken
    split at taken
    next call found =>
      cases taken
      have own := inv.calls call (List.mem_of_getElem? found)
      unfold Adapter.register
      split
      next =>
        split
        · exact stays
        · exact enter _ _ own
      next => exact enter _ _ own
      next => exact stays
      next => exact stays
    next => cases taken
  | resolve shared result =>
    unfold Adapter.step at taken
    dsimp only at taken
    split at taken
    next => cases taken
    next =>
      cases taken
      exact stays
  | record i =>
    unfold Adapter.step at taken
    dsimp only at taken
    split at taken
    next a found =>
      split at taken
      next result unrecorded resolved =>
        cases taken
        exact enter _ _ (inv.held a (List.mem_of_getElem? found)).own
      next => cases taken
    next => cases taken

/-- A query of an accepted request tells that it runs until its receipt resolves, and its
result once the waiter has entered it. -/
def Truthful (s : Adapter) (a : Accepted) : Prop :=
  (s.shared.get? a.shared = none →
    s.status a.key.deviceId a.key.requestId = .running) ∧
  (a.recorded = true → ∃ result, s.shared.get? a.shared = some result ∧
    s.status a.key.deviceId a.key.requestId = .settled result)

/-- In every run whose steps are consistent the ledger tells the truth about every
accepted request, and no step evicts the entry of one that has not resolved. -/
theorem status_truthful {ns : String} {capacity : Nat} {labels : List Label}
    (run : adapterMachine.Run Consistent (start ns capacity) labels s) :
    (∀ a ∈ s.accepted, s.Truthful a) ∧
    ∀ label t, s.step label = some t → ∀ a ∈ s.accepted, s.shared.get? a.shared = none →
      t.ledger.entries.get? a.key ≠ none := by
  have inv : Inv s := run.invariant (Inv.start ns capacity)
    fun _ _ _ inv meets taken => inv.step meets taken
  refine ⟨fun a inside => ⟨fun unresolved => ?_, fun recorded => ?_⟩,
    fun label t taken a inside unresolved => ?_⟩
  · obtain ⟨_, entry⟩ := (inv.held a inside).running unresolved
    exact RequestLedger.query_eq inv.indexed entry
  · obtain ⟨result, resolved, entry⟩ := (inv.held a inside).settled recorded
    exact ⟨result, resolved, RequestLedger.query_eq inv.indexed entry⟩
  · exact inv.running_stays taken ((inv.held a inside).running unresolved).2

/-- A result with this status. -/
def sampleResult (requestId : String) (status : ControlStatus) : ControlResult :=
  ⟨requestId, "plant", "press", status, none, some 1, none, none⟩

/-- Two submits of a request share a receipt; it succeeds, and a third submit gets the
result from the journal.  Then a ledger of one entry evicts it for another request. -/
def sampleLabels : List Label :=
  [.answer "press" "r1" (.pending 1), .answer "press" "r1" (.pending 1), .register 0, .register 0,
    .resolve 1 (sampleResult "r1" .succeeded), .record 0,
    .answer "press" "r1" (.ready (sampleResult "r1" .succeeded)), .register 0, .record 1,
    .answer "press" "r2" (.pending 2), .register 0]

/-- A request that is running. -/
theorem status_truthful_sample :
    ∃ s, adapterMachine.Run Consistent (start "plant" 1) sampleLabels s ∧
      s.accepted = [⟨⟨"plant", "press", "r2"⟩, 2, false⟩] ∧ s.shared.get? 2 = none ∧
      s.status "press" "r2" = .running := by
  obtain ⟨s, run, accepted, unresolved⟩ := Machine.Run.of_any
    (fun s => s.accepted = [⟨⟨"plant", "press", "r2"⟩, 2, false⟩] ∧ s.shared.get? 2 = none)
    (show (adapterMachine.exec Consistent (start "plant" 1) sampleLabels).any _ = true by
      decide)
  refine ⟨s, run, accepted, unresolved, ?_⟩
  exact ((status_truthful run).1 ⟨⟨"plant", "press", "r2"⟩, 2, false⟩
    (by simp [accepted])).1 unresolved

/-- The engine rejects a retry because the device has been disabled in the meantime; it
has not registered the retry, and the first request still runs. -/
def disabledRetry : List Label :=
  [.answer "press" "r1" (.pending 1), .register 0,
    .answer "press" "r1" (.ready (rejectedResult ⟨"plant", "press", "r1"⟩
      ⟨"DEVICE_DISABLED", "设备 press 已禁用"⟩ 5)), .register 0]

/-- The ledger then tells that the running request is settled as rejected. -/
theorem status_of_disabled_retry :
    ∃ s, adapterMachine.Run Machine.Always (start "plant" requestLedgerCapacity) disabledRetry s ∧
      s.accepted = [⟨⟨"plant", "press", "r1"⟩, 1, false⟩] ∧ s.shared.get? 1 = none ∧
      s.status "press" "r1" = .settled (rejectedResult ⟨"plant", "press", "r1"⟩
        ⟨"DEVICE_DISABLED", "设备 press 已禁用"⟩ 5) :=
  Machine.Run.of_any _ (by decide)

end Adapter

end ForgeLink.Rest
