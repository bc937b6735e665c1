import ForgeLink.Mqtt.Client

/-!
# The gauge of requests in flight

`MqttMetrics::inflight` goes up when a request is accepted or an online message is enqueued
again, and down on every way out of the two queues: the acknowledgement, a failed hand-over,
the removal of a device, a collision slot that is taken over, and the end of the worker.  A
request carries a mark that says whether it was counted, as the offline messages of the
shutdown are not.

After every step the gauge is the number of marked requests in the two queues
(`inflight_exact`).  Nothing is assumed about the events that `rumqttc` reports.
-/

namespace ForgeLink.Mqtt

open Lib

/-! ## Counting entries -/

section
variable {α : Type*} {p q : α → Bool} {xs : List α}

/-- To take out what was found is to count it no more. -/
theorem countP_eraseP_of_find? {x : α} (found : xs.find? p = some x) :
    xs.countP q = (xs.eraseP p).countP q + (q x).toNat := by
  obtain ⟨here, before, after, rfl, apart⟩ := List.find?_eq_some_iff_append.mp found
  have apart : ∀ y ∈ before, ¬p y := by simpa using apart
  rw [List.eraseP_append_right _ apart, List.eraseP_cons_of_pos here, List.countP_append,
    List.countP_append, List.countP_cons, Nat.add_assoc]
  cases q x <;> rfl

theorem countP_modifyFirst {f : α → α} (same : ∀ x, q (f x) = q x) :
    (modifyFirst p f xs).countP q = xs.countP q := by
  induction xs with
  | nil => rfl
  | cons x xs ih =>
    rw [modifyFirst]
    split
    · rw [List.countP_cons, List.countP_cons, same]
    · rw [List.countP_cons, List.countP_cons, ih]

end

/-! ## The gauge -/

namespace MqttMetrics

/-- `MqttMetrics::new` with a registry. -/
def new : MqttMetrics := { noop with registered := true }

/-- The gauge shows a number, and the count behind it is the same. -/
structure Shows (m : MqttMetrics) (n : Nat) : Prop where
  registered : m.registered = true
  inflightValue : m.inflightValue = n
  inflight : m.inflight = n

variable {m : MqttMetrics} {n : Nat}

theorem Shows.bumpInflight {delta : Int} {k : Nat} (h : m.Shows n) (sum : n + delta = k) :
    (m.bumpInflight delta).Shows k := by
  rw [MqttMetrics.bumpInflight, if_pos h.registered]
  refine ⟨h.registered, ?_, ?_⟩
  · rw [h.inflightValue, sum]
  · rw [h.inflightValue, sum]
    exact max_eq_left (Int.natCast_nonneg k)

theorem Shows.observeFailedUncounted (h : m.Shows n) : m.observeFailedUncounted.Shows n := by
  rw [MqttMetrics.observeFailedUncounted, if_pos h.registered]
  exact ⟨h.registered, h.inflightValue, h.inflight⟩

theorem Shows.observeDisconnectWithUnacked (h : m.Shows n) :
    m.observeDisconnectWithUnacked.Shows n := by
  rw [MqttMetrics.observeDisconnectWithUnacked, if_pos h.registered]
  exact ⟨h.registered, h.inflightValue, h.inflight⟩

theorem Shows.observeAccepted (h : m.Shows n) : m.observeAccepted.Shows (n + 1) :=
  h.bumpInflight rfl

theorem Shows.observePublished (h : m.Shows (n + 1)) : m.observePublished.Shows n := by
  rw [MqttMetrics.observePublished, if_pos h.registered]
  have same : { m with published := m.published + 1 }.Shows (n + 1) :=
    ⟨h.registered, h.inflightValue, h.inflight⟩
  exact same.bumpInflight (Int.add_neg_cancel_right n 1)

theorem Shows.observeSettled {counted : Bool} (h : m.Shows (n + counted.toNat)) :
    (m.observeSettled counted).Shows n := by
  cases counted with
  | false => exact h
  | true => exact h.observeFailedUncounted.bumpInflight (Int.add_neg_cancel_right n 1)

/-- Requests are settled one after the other. -/
theorem Shows.foldl_observeSettled {α : Type*} {counted : α → Bool} {xs : List α}
    (h : m.Shows (n + xs.countP counted)) :
    (xs.foldl (fun m x => m.observeSettled (counted x)) m).Shows n := by
  induction xs generalizing m with
  | nil => exact h
  | cons x xs ih =>
    refine ih (.observeSettled ?_)
    rw [List.countP_cons, ← Nat.add_assoc] at h
    cases own : counted x <;> simpa [own] using h

theorem Shows.foldl_observeFailedUncounted {α : Type*} {xs : List α} (h : m.Shows n) :
    (xs.foldl (fun m _ => m.observeFailedUncounted) m).Shows n := by
  induction xs generalizing m with
  | nil => exact h
  | cons x xs ih => exact ih h.observeFailedUncounted

end MqttMetrics

/-! ## The functions of the worker -/

namespace Worker

/-- The marked requests of the two queues. -/
def counted (w : Worker) : Nat :=
  w.pending.countP PublishRequest.metricsCounted + w.awaitingAck.countP AwaitingAck.metricsCounted

/-- The gauge shows the marked requests. -/
def Gauged (w : Worker) : Prop := w.metrics.Shows w.counted

variable {w : Worker}

theorem gauged_start : (start .new).Gauged := ⟨rfl, rfl, rfl⟩

theorem Gauged.forgetDevice (h : w.Gauged) (ids : Device) : (w.forgetDevice ids).Gauged := by
  refine MqttMetrics.Shows.foldl_observeSettled ?_
  have parts := List.countP_eq_countP_filter_add w.pending PublishRequest.metricsCounted
    fun r => r.onlineStatus && r.statusIds == some ids
  have total : w.counted = (w.forgetDevice ids).counted +
      (w.pending.filter fun r => r.onlineStatus && r.statusIds == some ids).countP
        PublishRequest.metricsCounted := by
    simp only [counted, Worker.forgetDevice]
    omega
  exact total ▸ h

/-- A request is enqueued and counted. -/
theorem Gauged.enqueue (h : w.Gauged) (request : PublishRequest) (made : Nat) :
    { w with
      metrics := w.metrics.observeAccepted
      pending := w.pending ++ [{ request with metricsCounted := true }]
      made }.Gauged := by
  have shows := h.observeAccepted
  unfold Gauged
  simp only [counted, List.countP_append, List.countP_singleton, if_true]
  rw [Nat.add_right_comm]
  exact shows

theorem Gauged.acceptRequest (h : w.Gauged) (config : WorkerConfig) (request : PublishRequest) :
    (w.acceptRequest config request).Gauged := by
  unfold Worker.acceptRequest
  split
  · dsimp only
    split
    · exact (h.forgetDevice _).enqueue request _
    · exact h.enqueue request _
  · exact h.observeFailedUncounted

/-- A message that is forwarded stays counted. -/
theorem Gauged.forwardOne (h : w.Gauged) (outcome : Except String Unit) :
    (w.forwardOne outcome).Gauged := by
  unfold Worker.forwardOne
  split
  · exact h
  next req rest pending =>
    have total : w.counted = rest.countP PublishRequest.metricsCounted +
        w.awaitingAck.countP AwaitingAck.metricsCounted + req.metricsCounted.toNat := by
      simp only [counted, pending, List.countP_cons]
      cases req.metricsCounted <;> simp +arith
    cases outcome with
    | ok =>
      change w.metrics.Shows (rest.countP PublishRequest.metricsCounted +
        (w.awaitingAck ++ [req.awaiting]).countP AwaitingAck.metricsCounted)
      have same : (w.awaitingAck ++ [req.awaiting]).countP AwaitingAck.metricsCounted =
          w.awaitingAck.countP AwaitingAck.metricsCounted + req.metricsCounted.toNat := by
        rw [List.countP_append, List.countP_singleton, PublishRequest.awaiting]
        cases req.metricsCounted <;> rfl
      rw [same, ← Nat.add_assoc, ← total]
      exact h
    | error reason => exact MqttMetrics.Shows.observeSettled (total ▸ h)

theorem Gauged.republishDevice (h : w.Gauged) (envelope : Device → Bytes) (d : Device) :
    (w.republishDevice envelope d).Gauged := by
  unfold Worker.republishDevice
  split
  · exact h.enqueue _ _
  · exact h

theorem Gauged.republishFrom (h : w.Gauged) (capacity : Nat) (envelope : Device → Bytes)
    (devices : List Device) : (republishFrom capacity envelope devices w).Gauged := by
  induction devices generalizing w with
  | nil =>
    unfold Worker.republishFrom
    split <;> exact h
  | cons d rest ih =>
    unfold Worker.republishFrom
    split
    · exact ih (h.republishDevice envelope d)
    · exact h

/-- The entries are marked as before. -/
theorem Gauged.entries (h : w.Gauged) {entries : List AwaitingAck}
    (same : entries.countP AwaitingAck.metricsCounted =
      w.awaitingAck.countP AwaitingAck.metricsCounted) :
    { w with awaitingAck := entries }.Gauged := by
  unfold Gauged
  simp only [counted, same]
  exact h

theorem Gauged.onPublishEvent (h : w.Gauged) (pkid : Pkid) : (w.onPublishEvent pkid).Gauged := by
  have unparked : (w.unparkOnPublish pkid).Gauged := by
    unfold unparkOnPublish
    split
    · split
      · exact h.entries (countP_modifyFirst fun _ => rfl)
      · exact h
    · exact h
  exact unparked.entries (countP_modifyFirst fun _ => rfl)

theorem Gauged.resolvePuback (h : w.Gauged) (pkid : Pkid) : (w.resolvePuback pkid).Gauged := by
  unfold Worker.resolvePuback
  split
  next entry found =>
    have total := countP_eraseP_of_find? (q := AwaitingAck.metricsCounted) found
    unfold Gauged counted at h
    rw [total, ← Nat.add_assoc] at h
    change MqttMetrics.Shows _ _
    cases own : entry.metricsCounted with
    | true =>
      rw [own] at h
      exact h.observePublished
    | false =>
      rw [own] at h
      exact h
  · exact h

theorem Gauged.settleOverwritten (h : w.Gauged) (previous : Pkid) :
    (w.settleOverwritten previous).Gauged := by
  unfold Worker.settleOverwritten
  split
  next entry found =>
    have total := countP_eraseP_of_find? (q := AwaitingAck.metricsCounted) found
    unfold Gauged counted at h
    rw [total, ← Nat.add_assoc] at h
    exact h.observeSettled
  · exact h

theorem Gauged.onAwaitAckEvent (h : w.Gauged) (pkid : Pkid) : (w.onAwaitAckEvent pkid).Gauged := by
  have cleared : w.clearCollision.Gauged := by
    unfold clearCollision
    dsimp only
    split
    next previous _ => exact settleOverwritten (w := { w with collisionRecovered := false }) h _
    · exact h
  unfold Worker.onAwaitAckEvent parkCollided
  split
  · exact cleared.entries (countP_modifyFirst fun _ => rfl)
  · exact cleared

theorem countP_resetPkids (entries : List AwaitingAck) (lastPuback : Pkid) :
    (resetPkids entries lastPuback).countP AwaitingAck.metricsCounted =
      entries.countP AwaitingAck.metricsCounted := by
  rw [resetPkids, List.countP_map]
  exact (List.perm_insertionSort _ entries).countP_eq _

theorem Gauged.disconnected (h : w.Gauged) : w.disconnected.Gauged := by
  have same := countP_resetPkids w.awaitingAck w.lastPuback
  unfold Gauged
  simp only [counted, Worker.disconnected, same]
  split
  · exact h
  · exact h.observeDisconnectWithUnacked

theorem Gauged.failAllQueued (h : w.Gauged) (err : MqttClientError) :
    (w.failAllQueued err).Gauged := by
  have total : w.counted = 0 + (w.pending.map PublishRequest.metricsCounted ++
      w.awaitingAck.map AwaitingAck.metricsCounted).countP id := by
    rw [List.countP_append, List.countP_map, List.countP_map, Nat.zero_add]
    rfl
  unfold Gauged at h
  rw [total] at h
  exact MqttMetrics.Shows.foldl_observeSettled (MqttMetrics.Shows.foldl_observeFailedUncounted h)

/-- The offline messages of the shutdown are not marked. -/
theorem countP_offlineRequests (envelope : Device → Bytes) (devices : List Device)
    (made : Receipt) :
    (offlineRequests envelope devices made).countP PublishRequest.metricsCounted = 0 := by
  induction devices generalizing made with
  | nil => rfl
  | cons d rest ih =>
    rw [offlineRequests]
    split
    next request eq =>
      have unmarked : request.metricsCounted = false := by
        unfold makeOfflineStatusRequest statusRequest at eq
        split at eq
        · cases eq
          rfl
        · cases eq
      rw [List.countP_cons_of_neg (by rw [unmarked]; exact Bool.false_ne_true), ih]
    · exact ih made

theorem Gauged.pushOffline (h : w.Gauged) (envelope : Device → Bytes) :
    (w.pushOffline envelope).Gauged := by
  unfold Gauged
  simp only [counted, Worker.pushOffline, List.countP_append, countP_offlineRequests, Nat.zero_add]
  exact h

end Worker

/-! ## Runs -/

namespace Client

variable {config : WorkerConfig} {c d : Client}

theorem gauged_forward (outcomes : List (Except String Unit)) (h : c.worker.Gauged) :
    (outcomes.foldl forwardOne c).worker.Gauged := by
  induction outcomes generalizing c with
  | nil => exact h
  | cons outcome outcomes ih => exact ih (h.forwardOne outcome)

theorem gauged_alive (stopping : Bool) {w : Worker} (h : w.Gauged) : (alive stopping w).Gauged := by
  unfold alive
  split <;> exact h

theorem gauged_handle (stopping : Bool) {w : Worker} (h : w.Gauged) (event : LoopEvent) :
    (handle stopping w event).Gauged := by
  cases event with
  | publish pkid => exact h.onPublishEvent pkid
  | awaitAck pkid => exact h.onAwaitAckEvent pkid
  | pubAck pkid =>
    refine Worker.Gauged.resolvePuback ?_ pkid
    exact h
  | other => exact h

theorem gauged_failed (h : c.worker.Gauged) (reason : String) :
    (c.failed config reason).worker.Gauged := by
  unfold failed
  dsimp only
  split
  · exact h.disconnected.failAllQueued _
  · exact h.disconnected

theorem gauged_step {label : Label} (h : c.worker.Gauged) (move : Move config c label d) :
    d.worker.Gauged := by
  cases move with
  | call | failOffline | close => exact h
  | receive =>
    refine Worker.Gauged.acceptRequest ?_ ..
    exact h
  | republish => exact h.republishFrom ..
  | forward => exact gauged_forward _ h
  | poll => exact gauged_handle _ (gauged_alive _ h) _
  | fail => exact gauged_failed h _
  | failClosing | abandon | exit => exact h.failAllQueued _
  | shutdown => exact h.pushOffline _

end Client

/-- In every run, whatever the event loop reports, the gauge is the number of marked requests
in the two queues; so it is zero when both are empty. -/
theorem inflight_exact {config : WorkerConfig} {labels : List Label} {c : Client}
    (run : (clientMachine config).Run Machine.Always (.start .new) labels c) :
    c.worker.metrics.inflight = (c.worker.pending.countP PublishRequest.metricsCounted +
        c.worker.awaitingAck.countP AwaitingAck.metricsCounted : Nat) ∧
      (c.worker.pending = [] → c.worker.awaitingAck = [] → c.worker.metrics.inflight = 0) := by
  have gauged : c.worker.Gauged :=
    run.invariant (P := fun c => c.worker.Gauged) Worker.gauged_start
      fun _ _ _ gauged _ taken => Client.gauged_step gauged (.of_step taken)
  refine ⟨gauged.inflight, fun pending awaiting => ?_⟩
  rw [gauged.inflight, Worker.counted, pending, awaiting]
  rfl

/-- A worker with room for four requests. -/
def roomyConfig : WorkerConfig :=
  { publishCapacity := 4, maxPacketSize := 1024, maxReconnectRetries := none }

/-- Three requests, of which one is acknowledged and one cannot be handed over; then the
connection is lost, and an acknowledgement comes that belongs to none. -/
def inflightLabels : List Label :=
  [.call (.publish "plant/press" []), .call (.online ("plant", "mill") []),
    .call (.publish "plant/lathe" []), .poll .other, .receive, .receive, .receive,
    .forward [.ok (), .error "closed", .ok ()], .poll (.publish 1), .poll (.pubAck 1),
    .fail "reset", .poll (.pubAck 9)]

/-- One message in flight, and none at the end. -/
theorem inflight_exact_sample :
    (∃ c, (clientMachine roomyConfig).Run Machine.Always (.start .new) inflightLabels c ∧
      c.worker.awaitingAck.length = 1 ∧
      c.worker.metrics.inflight = (c.worker.pending.countP PublishRequest.metricsCounted +
        c.worker.awaitingAck.countP AwaitingAck.metricsCounted : Nat)) ∧
    ∃ c, (clientMachine roomyConfig).Run Machine.Always (.start .new)
        (inflightLabels ++ [.fail "refused", .shutdown fun _ => []]) c ∧
      c.worker.pending = [] ∧ c.worker.awaitingAck = [] ∧ c.worker.metrics.inflight = 0 := by
  constructor
  · exact Machine.Run.find (by decide) fun c run _ => (inflight_exact run).1
  · obtain ⟨c, run, pending, awaiting⟩ := Machine.Run.of_any
      (fun c : Client => c.worker.pending = [] ∧ c.worker.awaitingAck = [])
      (show ((clientMachine roomyConfig).exec Machine.Always (.start .new)
        (inflightLabels ++ [.fail "refused", .shutdown fun _ => []])).any _ = true
        by decide)
    exact ⟨c, run, pending, awaiting, (inflight_exact run).2 pending awaiting⟩

end ForgeLink.Mqtt
