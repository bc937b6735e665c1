import ForgeLink.Mqtt.Client

/-!
# Online status after a reconnect

A broker tells the world that a device is offline when the connection of its client is
lost, so after a reconnect the worker publishes the online status of every device that it
tracks, as far as there is room in its queue, and goes on where it stopped.

`OnlineHistory` remembers what the state does not: the devices whose online message was
enqueued since the connection was lost last, and the devices that went offline by
`publish_offline` and did not come back.  Whenever the worker has finished
(`needs_online_republish` is cleared), every tracked device is among the first; of the
second none is tracked or published as online; and the queue keeps its bound
(`online_republished`).
-/

namespace ForgeLink.Mqtt

open Lib
open Client (handle)

/-! ## History -/

/-- The device that a request puts online. -/
def PublishRequest.onlineOf (r : PublishRequest) : Option Device :=
  if r.onlineStatus then r.statusIds else none

/-- What has happened to the devices. -/
structure OnlineHistory where
  /-- An online message was enqueued since the connection was lost last, and the device was
  not removed since. -/
  enqueued : List Device
  /-- The device was removed by `publish_offline`, and no online message was accepted
  since. -/
  offline : List Device

/-- The devices whose online messages are handed over. -/
def handedOver : List PublishRequest → List (Except String Unit) → List Device
  | r :: pending, .ok () :: outcomes => r.onlineOf.toList ++ handedOver pending outcomes
  | _ :: pending, .error _ :: outcomes => handedOver pending outcomes
  | _, _ => []

namespace OnlineHistory

/-- A request is accepted. -/
def accept (request : PublishRequest) (h : OnlineHistory) : OnlineHistory :=
  match request.deregister, request.statusIds with
  | true, some d => { enqueued := h.enqueued.filter (· ≠ d), offline := d :: h.offline }
  | _, _ => { h with offline := h.offline.filter fun d => request.onlineOf ≠ some d }

/-- What a step does to the history. -/
def next (config : WorkerConfig) (c : Client) (label : Label) (h : OnlineHistory) : OnlineHistory :=
  match label with
  | .receive =>
    match c.worker.requestRx with
    | request :: _ =>
      match Worker.checkRequest config request with
      | .ok () => h.accept request
      | .error _ => h
    | [] => h
  | .republish envelope =>
    let w := c.worker.stepOnlineRepublish config.publishCapacity envelope
    { h with enqueued := h.enqueued ++
        (w.pending.drop c.worker.pending.length).filterMap PublishRequest.onlineOf }
  | .forward outcomes =>
    { h with enqueued := h.enqueued ++ handedOver c.worker.pending outcomes }
  | .fail _ => { h with enqueued := [] }
  | _ => h

end OnlineHistory

/-- The client with its history. -/
def onlineMachine (config : WorkerConfig) : Machine (Client × OnlineHistory) Label :=
  (clientMachine config).observed (OnlineHistory.next config)

/-! ## The invariant -/

/-- The device has a status topic. -/
def HasTopic (d : Device) : Prop := ∃ topic, statusTopic d.1 d.2 = .ok topic

/-- Requests about devices have topics, and those that remove a device do not put it
online. -/
structure Formed (r : PublishRequest) : Prop where
  topic : ∀ d, r.statusIds = some d → HasTopic d
  removes : r.deregister = true → r.onlineStatus = false

theorem formed_statusRequest {online deregister : Bool} {d : Device} {payload : Bytes}
    {ackTx : Receipt} {r : PublishRequest} (either : deregister = true → online = false)
    (made : statusRequest online deregister d payload ackTx = some r) :
    Formed r ∧ r.onlineOf = if online then some d else none := by
  unfold statusRequest at made
  split at made
  next topic valid =>
    cases made
    refine ⟨⟨fun e own => ?_, either⟩, rfl⟩
    cases own
    exact ⟨topic, valid⟩
  next => cases made

theorem formed_call {call : Call} {ackTx : Receipt} {r : PublishRequest}
    (made : call.request ackTx = some r) : Formed r := by
  cases call with
  | publish topic payload =>
    cases made
    exact ⟨fun _ own => (by cases own), fun h => (by cases h)⟩
  | online d payload | offline d payload => exact (formed_statusRequest (by simp) made).1

/-- The variables of the worker that have to do with the devices. -/
structure Staging where
  requestRx : List PublishRequest
  pending : List PublishRequest
  lastOnline : List Device
  pendingOnlineRepublish : List Device
  needsOnlineRepublish : Bool

/-- These variables of a worker. -/
def Worker.staging (w : Worker) : Staging :=
  { requestRx := w.requestRx, pending := w.pending, lastOnline := w.lastOnline
    pendingOnlineRepublish := w.pendingOnlineRepublish
    needsOnlineRepublish := w.needsOnlineRepublish }

/-- What holds of the devices while the worker runs. -/
structure Republishing (config : WorkerConfig) (w : Worker) (h : OnlineHistory) : Prop where
  received : ∀ r ∈ w.requestRx, Formed r
  formed : ∀ r ∈ w.pending, Formed r
  valid : ∀ d ∈ w.lastOnline, HasTopic d
  queued : ∀ d ∈ w.pendingOnlineRepublish, d ∈ w.lastOnline
  covered : ∀ d ∈ w.lastOnline, d ∈ h.enqueued ∨
    w.needsOnlineRepublish = true ∧ d ∈ w.pendingOnlineRepublish
  gone : ∀ d ∈ h.offline, d ∉ h.enqueued ∧ d ∉ w.lastOnline ∧
    ∀ r ∈ w.pending, r.onlineOf ≠ some d
  room : w.pending.length ≤ config.publishCapacity

namespace Republishing

variable {config : WorkerConfig} {w : Worker} {h : OnlineHistory}
variable {r : PublishRequest} {d : Device} {rest : List PublishRequest}

theorem start (metrics : MqttMetrics) : Republishing config (.start metrics) ⟨[], []⟩ := by
  constructor <;> simp [Worker.start]

/-- The variables that the invariant is about. -/
theorem congr (inv : Republishing config w h) {w' : Worker} (same : w.staging = w'.staging) :
    Republishing config w' h := by
  simp only [Worker.staging, Staging.mk.injEq] at same
  obtain ⟨received, pending, online, queue, needs⟩ := same
  exact
    { received := received ▸ inv.received
      formed := pending ▸ inv.formed
      valid := online ▸ inv.valid
      queued := online ▸ queue ▸ inv.queued
      covered := online ▸ queue ▸ needs ▸ inv.covered
      gone := online ▸ pending ▸ inv.gone
      room := pending ▸ inv.room }

/-- A device is removed. -/
theorem forget (inv : Republishing config w h) (d : Device) :
    Republishing config (w.forgetDevice d)
      { enqueued := h.enqueued.filter (· ≠ d), offline := d :: h.offline } where
  received := inv.received
  formed r inside := inv.formed r (List.mem_of_mem_filter inside)
  valid e inside := inv.valid e (List.mem_of_mem_filter inside)
  queued e inside := by
    obtain ⟨inside, other⟩ := List.mem_filter.mp inside
    exact List.mem_filter.mpr ⟨inv.queued e inside, other⟩
  covered e inside := by
    obtain ⟨inside, other⟩ := List.mem_filter.mp inside
    rcases inv.covered e inside with done | ⟨needs, waits⟩
    · exact .inl (List.mem_filter.mpr ⟨done, other⟩)
    · exact .inr ⟨needs, List.mem_filter.mpr ⟨waits, other⟩⟩
  gone e removed := by
    rcases List.mem_cons.mp removed with rfl | before
    · refine ⟨by simp, by simp [Worker.forgetDevice], fun r inside own => ?_⟩
      have kept := (List.mem_filter.mp inside).2
      unfold PublishRequest.onlineOf at own
      split at own
      next online => simp [online, own] at kept
      next => cases own
    · obtain ⟨done, tracked, none⟩ := inv.gone e before
      exact ⟨fun inside => done (List.mem_of_mem_filter inside),
        fun inside => tracked (List.mem_of_mem_filter inside),
        fun r inside => none r (List.mem_of_mem_filter inside)⟩
  room := (List.length_filter_le _ _).trans inv.room

/-- A request is put into the queue, which has room for it. -/
theorem push (inv : Republishing config w h) (formed : Formed r)
    (room : w.pending.length < config.publishCapacity)
    (back : ∀ d ∈ h.offline, r.onlineOf ≠ some d) :
    Republishing config { w with pending := w.pending ++ [r] } h :=
  { inv with
    formed := by
      intro x inside
      rcases List.mem_append.mp inside with old | new
      · exact inv.formed x old
      · rwa [List.mem_singleton.mp new]
    gone := by
      intro d removed
      obtain ⟨done, tracked, none⟩ := inv.gone d removed
      refine ⟨done, tracked, fun x inside => ?_⟩
      rcases List.mem_append.mp inside with old | new
      · exact none x old
      · rw [List.mem_singleton.mp new]
        exact back d removed
    room := by
      rw [List.length_append]
      exact room }

/-- Fewer devices count as removed. -/
theorem weaken (inv : Republishing config w h) {p : Device → Bool} :
    Republishing config w { h with offline := h.offline.filter p } :=
  { inv with gone := fun d removed => inv.gone d (List.mem_of_mem_filter removed) }

/-- The worker takes a request from the channel. -/
theorem receive (inv : Republishing config w h) {request : PublishRequest}
    (queue : w.requestRx = request :: rest) (room : w.pending.length < config.publishCapacity) :
    Republishing config ({ w with requestRx := rest }.acceptRequest config request)
      (match Worker.checkRequest config request with
        | .ok () => h.accept request
        | .error _ => h) := by
  have received := inv.received
  rw [queue] at received
  obtain ⟨first, others⟩ := List.forall_mem_cons.mp received
  have taken : Republishing config { w with requestRx := rest } h := { inv with received := others }
  cases checked : Worker.checkRequest config request with
  | error e => exact taken.congr (by simp only [Worker.acceptRequest, checked]; rfl)
  | ok u =>
    cases u
    have counted : Formed { request with metricsCounted := true } := ⟨first.topic, first.removes⟩
    have other := taken.weaken (p := fun d => request.onlineOf ≠ some d) |>.push counted room
      fun d removed => of_decide_eq_true (List.mem_filter.mp removed).2
    cases remove : request.deregister with
    | false =>
      simp only [OnlineHistory.accept, remove]
      exact other.congr (by simp only [Worker.acceptRequest, checked, remove]; rfl)
    | true =>
      cases ids : request.statusIds with
      | none =>
        simp only [OnlineHistory.accept, remove, ids]
        exact other.congr (by simp only [Worker.acceptRequest, checked, remove, ids]; rfl)
      | some d =>
        have none : ({ request with metricsCounted := true } : PublishRequest).onlineOf =
            none := by
          simp [PublishRequest.onlineOf, first.removes remove]
        have space : (Worker.forgetDevice d { w with requestRx := rest }).pending.length <
            config.publishCapacity := (List.length_filter_le _ _).trans_lt room
        have pushed := (taken.forget d).push counted space (by simp [none])
        simp only [OnlineHistory.accept, remove, ids]
        exact pushed.congr (by simp only [Worker.acceptRequest, checked, remove, ids]; rfl)

/-! ## Republishing -/

/-- The online message of the first device of the queue is enqueued. -/
theorem published {rest : List Device}
    (inv : Republishing config { w with pendingOnlineRepublish := d :: rest } h) (formed : Formed r)
    (own : r.onlineOf = some d) (room : w.pending.length < config.publishCapacity) :
    Republishing config { w with
      pending := w.pending ++ [r], pendingOnlineRepublish := rest }
      { h with enqueued := h.enqueued ++ [d] } := by
  have tracked : d ∈ w.lastOnline := inv.queued d List.mem_cons_self
  have other : ∀ e ∈ h.offline, e ≠ d := fun e removed eq => (inv.gone e removed).2.1 (eq ▸ tracked)
  have pushed := inv.push formed room fun e removed same =>
    other e removed (Option.some.inj (same.symm.trans own))
  exact
    { pushed with
      queued := fun e inside => inv.queued e (List.mem_cons_of_mem _ inside)
      covered := by
        intro e inside
        rcases inv.covered e inside with done | ⟨needs, waits⟩
        · exact .inl (List.mem_append_left _ done)
        · rcases List.mem_cons.mp waits with rfl | later
          · exact .inl (List.mem_append_right _ List.mem_cons_self)
          · exact .inr ⟨needs, later⟩
      gone := by
        intro e removed
        obtain ⟨done, rest⟩ := pushed.gone e removed
        refine ⟨fun inside => ?_, rest⟩
        rcases List.mem_append.mp inside with old | new
        · exact done old
        · exact other e removed (List.mem_singleton.mp new) }

/-- The request of a device that has a topic. -/
theorem exists_republishDevice (envelope : Device → Bytes) (valid : HasTopic d) :
    ∃ r, (w.republishDevice envelope d).staging =
        ({ w with pending := w.pending ++ [r] } : Worker).staging ∧
      Formed r ∧ r.onlineOf = some d := by
  obtain ⟨topic, valid⟩ := valid
  cases made : onlineRequest d (envelope d) w.made with
  | none => simp [onlineRequest, statusRequest, valid] at made
  | some r =>
    obtain ⟨formed, own⟩ := formed_statusRequest (by simp) made
    refine ⟨{ r with metricsCounted := true }, ?_, ⟨formed.topic, formed.removes⟩, own⟩
    simp only [Worker.republishDevice, made]
    rfl

/-- Requests are only appended. -/
theorem pending_republishFrom (capacity : Nat) (envelope : Device → Bytes) (devices : List Device)
    (w : Worker) : ∃ requests, (Worker.republishFrom capacity envelope devices w).pending =
      w.pending ++ requests := by
  induction devices generalizing w with
  | nil =>
    unfold Worker.republishFrom
    split <;> exact ⟨[], (List.append_nil _).symm⟩
  | cons d rest ih =>
    unfold Worker.republishFrom
    split
    · obtain ⟨requests, eq⟩ := ih (w.republishDevice envelope d)
      have first : ∃ more, (w.republishDevice envelope d).pending = w.pending ++ more := by
        unfold Worker.republishDevice
        split
        · exact ⟨_, rfl⟩
        · exact ⟨[], (List.append_nil _).symm⟩
      obtain ⟨more, first⟩ := first
      exact ⟨more ++ requests, by rw [eq, first, List.append_assoc]⟩
    · exact ⟨[], (List.append_nil _).symm⟩

/-- The worker goes on with the devices that are left. -/
theorem republishFrom (envelope : Device → Bytes) {devices : List Device}
    (inv : Republishing config { w with pendingOnlineRepublish := devices } h) :
    Republishing config (Worker.republishFrom config.publishCapacity envelope devices w)
      { h with enqueued := h.enqueued ++ ((Worker.republishFrom config.publishCapacity envelope
          devices w).pending.drop w.pending.length).filterMap PublishRequest.onlineOf } := by
  induction devices generalizing w h with
  | nil =>
    unfold Worker.republishFrom
    split
    · simp only [List.drop_length, List.filterMap_nil, List.append_nil]
      exact
        { inv with
          queued := fun d inside => by cases inside
          covered := fun d inside => by
            rcases inv.covered d inside with done | ⟨_, waits⟩
            · exact .inl done
            · cases waits }
    · simpa using inv
  | cons d rest ih =>
    by_cases room : w.pending.length < config.publishCapacity
    · have valid : HasTopic d := inv.valid d (inv.queued d List.mem_cons_self)
      obtain ⟨r, same, formed, own⟩ := exists_republishDevice (w := w) envelope valid
      have pending : (w.republishDevice envelope d).pending = w.pending ++ [r] :=
        congrArg Staging.pending same
      simp only [Worker.staging, Staging.mk.injEq] at same
      have next := ih (w := w.republishDevice envelope d) <|
        (inv.published formed own room).congr (by simp only [Worker.staging, same])
      obtain ⟨requests, eq⟩ :=
        pending_republishFrom config.publishCapacity envelope rest (w.republishDevice envelope d)
      have drops : (Worker.republishFrom config.publishCapacity envelope rest
          (w.republishDevice envelope d)).pending.drop w.pending.length = r :: requests := by
        rw [eq, pending, List.append_assoc, List.drop_left]
        rfl
      rw [eq, List.drop_left] at next
      simp only [Worker.republishFrom, if_pos room, drops, List.filterMap_cons_some own]
      rwa [List.append_assoc] at next
    · simp only [Worker.republishFrom, if_neg room, List.drop_length, List.filterMap_nil,
        List.append_nil]
      exact inv

/-! ## Forwarding -/

theorem mem_insertDevice {e : Device} {devices : List Device} :
    e ∈ Worker.insertDevice d devices ↔ e = d ∨ e ∈ devices := by
  unfold Worker.insertDevice
  split
  next inside =>
    constructor
    · exact .inr
    · rintro (rfl | old)
      · exact inside
      · exact old
  next => rw [List.mem_orderedInsert]

theorem statusIds_of_onlineOf (own : r.onlineOf = some d) : r.statusIds = some d := by
  unfold PublishRequest.onlineOf at own
  split at own
  · exact own
  · cases own

theorem staging_forwardOne_of_some (queue : w.pending = r :: rest) (own : r.onlineOf = some d) :
    (w.forwardOne (.ok ())).staging = ({ w with
      pending := rest, lastOnline := Worker.insertDevice d w.lastOnline } : Worker).staging := by
  have ids := statusIds_of_onlineOf own
  have online : r.onlineStatus = true := by
    by_contra off
    simp [PublishRequest.onlineOf, off] at own
  simp only [Worker.forwardOne, queue, online, ids, Worker.staging]

theorem staging_forwardOne_of_none (queue : w.pending = r :: rest) (own : r.onlineOf = none) :
    (w.forwardOne (.ok ())).staging = ({ w with pending := rest } : Worker).staging := by
  unfold PublishRequest.onlineOf at own
  cases online : r.onlineStatus with
  | false => simp only [Worker.forwardOne, queue, online, Worker.staging]
  | true =>
    rw [online, if_pos rfl] at own
    simp only [Worker.forwardOne, queue, online, own, Worker.staging]

/-- A request is handed over, or cannot be. -/
theorem forwardOne (inv : Republishing config w h) (queue : w.pending = r :: rest)
    (outcome : Except String Unit) :
    Republishing config (w.forwardOne outcome)
      { h with enqueued := h.enqueued ++ handedOver w.pending [outcome] } := by
  have shorter : Republishing config { w with pending := rest } h := by
    have formed := inv.formed
    rw [queue] at formed
    exact
      { inv with
        formed := (List.forall_mem_cons.mp formed).2
        gone := by
          intro d removed
          obtain ⟨done, tracked, none⟩ := inv.gone d removed
          rw [queue] at none
          exact ⟨done, tracked, (List.forall_mem_cons.mp none).2⟩
        room := by
          have room := inv.room
          rw [queue, List.length_cons] at room
          exact Nat.le_of_succ_le room }
  cases outcome with
  | error reason =>
    simp only [queue, handedOver, List.append_nil]
    exact shorter.congr (by simp only [Worker.forwardOne, queue]; rfl)
  | ok u =>
    cases u
    cases own : r.onlineOf with
    | none =>
      simp only [queue, handedOver, own, Option.toList_none, List.append_nil]
      exact shorter.congr (staging_forwardOne_of_none queue own).symm
    | some d =>
      simp only [queue, handedOver, own, Option.toList_some, List.append_nil]
      refine Republishing.congr (w := { w with
        pending := rest, lastOnline := Worker.insertDevice d w.lastOnline }) ?_
        (staging_forwardOne_of_some queue own).symm
      have first : ∀ e ∈ h.offline, e ≠ d := fun e removed eq =>
        (inv.gone e removed).2.2 r (by simp [queue]) (eq ▸ own)
      exact
        { shorter with
          valid := by
            intro e inside
            rcases mem_insertDevice.mp inside with rfl | old
            · exact (inv.formed r (by simp [queue])).topic e (statusIds_of_onlineOf own)
            · exact inv.valid e old
          queued := fun e inside => mem_insertDevice.mpr (.inr (inv.queued e inside))
          covered := by
            intro e inside
            rcases mem_insertDevice.mp inside with rfl | old
            · exact .inl (List.mem_append_right _ List.mem_cons_self)
            · rcases inv.covered e old with done | waits
              · exact .inl (List.mem_append_left _ done)
              · exact .inr waits
          gone := by
            intro e removed
            obtain ⟨done, tracked, none⟩ := shorter.gone e removed
            refine ⟨fun inside => ?_, fun inside => ?_, none⟩
            · rcases List.mem_append.mp inside with old | new
              · exact done old
              · exact first e removed (List.mem_singleton.mp new)
            · rcases mem_insertDevice.mp inside with same | old
              · exact first e removed same
              · exact tracked old }

/-- Every state that is forwarded is in the history. -/
theorem forward (inv : Republishing config w h) {c : Client} (own : c.worker = w)
    (outcomes : List (Except String Unit)) :
    Republishing config (outcomes.foldl Client.forwardOne c).worker
      { h with enqueued := h.enqueued ++ handedOver w.pending outcomes } := by
  induction outcomes generalizing c w h with
  | nil =>
    have none : handedOver w.pending [] = [] := by cases w.pending <;> rfl
    rw [none, List.append_nil]
    exact own ▸ inv
  | cons outcome outcomes ih =>
    cases queue : w.pending with
    | nil =>
      have idle : (c.forwardOne outcome).worker = w := by
        simp only [Client.forwardOne, Worker.forwardOne, own, queue]
      have next := ih inv idle
      rw [queue] at next
      cases outcomes <;> exact next
    | cons r rest =>
      have next := ih (inv.forwardOne queue outcome)
        (show (c.forwardOne outcome).worker = w.forwardOne outcome by rw [← own]; rfl)
      have pending : (w.forwardOne outcome).pending = rest := by
        cases outcome with
        | ok u => simp only [Worker.forwardOne, queue]
        | error reason =>
          simp only [Worker.forwardOne, queue]
          rfl
      rw [pending, queue, List.append_assoc] at next
      have split : handedOver (r :: rest) [outcome] ++ handedOver rest outcomes =
          handedOver (r :: rest) (outcome :: outcomes) := by
        cases outcome <;> simp [handedOver]
      rwa [split] at next

/-! ## The connection -/

/-- The connection is lost, or could not be made. -/
theorem disconnected (inv : Republishing config w h) :
    Republishing config w.disconnected { h with enqueued := [] } :=
  { inv with
    queued := fun _ inside => inside
    covered := fun _ inside => .inr ⟨rfl, inside⟩
    gone := fun d removed => ⟨by simp, (inv.gone d removed).2⟩ }

end Republishing

/-- An event is about other variables. -/
theorem staging_handle (stopping : Bool) (w : Worker) (event : LoopEvent) :
    (handle stopping w event).staging = w.staging := by
  cases event with
  | publish pkid =>
    dsimp only [handle, Worker.onPublishEvent, Worker.assignPkid, Worker.unparkOnPublish]
    split
    · split <;> rfl
    · rfl
  | awaitAck pkid =>
    have cleared : w.clearCollision.staging = w.staging := by
      unfold Worker.clearCollision
      dsimp only
      split
      · unfold Worker.settleOverwritten
        split <;> rfl
      · rfl
    dsimp only [handle, Worker.onAwaitAckEvent, Worker.parkCollided]
    split <;> exact cleared
  | pubAck pkid =>
    dsimp only [handle, Worker.onPubackEvent, Worker.resolvePuback]
    split <;> rfl
  | other => rfl

theorem staging_alive (stopping : Bool) (w : Worker) :
    (Client.alive stopping w).staging = w.staging := by
  unfold Client.alive
  split <;> rfl

/-! ## Runs -/

/-- The invariant, as long as the worker runs. -/
def Steady (config : WorkerConfig) (s : Client × OnlineHistory) : Prop :=
  s.1.phase = .running → Republishing config s.1.worker s.2

variable {config : WorkerConfig}

theorem phase_forward (outcomes : List (Except String Unit)) (c : Client) :
    (outcomes.foldl Client.forwardOne c).phase = c.phase := by
  induction outcomes generalizing c with
  | nil => rfl
  | cons outcome rest ih => exact ih (c.forwardOne outcome)

/-- A failed `poll` keeps the devices. -/
theorem steady_failed {c : Client} {h : OnlineHistory} (inv : Republishing config c.worker h)
    (reason : String) : Steady config (c.failed config reason, { h with enqueued := [] }) := by
  unfold Client.failed
  dsimp only
  split
  · intro running
    cases running
  · exact fun _ => inv.disconnected

/-- No step loses a device that is to be republished. -/
theorem Steady.step {s t : Client × OnlineHistory} {label : Label} (steady : Steady config s)
    (taken : (onlineMachine config).step s label = some t) : Steady config t := by
  obtain ⟨c, h⟩ := s
  obtain ⟨d, h'⟩ := t
  obtain ⟨taken, rfl⟩ := Machine.observed_step.mp taken
  -- a step ends in the main loop only if it begins there
  cases Client.Move.of_step taken with
  | call alive made =>
    intro running
    have inv := steady running
    exact
      { inv with
        received := by
          intro r inside
          rcases List.mem_append.mp inside with old | new
          · exact inv.received r old
          · rw [List.mem_singleton.mp new]
            exact formed_call made }
  | receive queue running connected room =>
    intro _
    have received := (steady running).receive queue room
    dsimp only at queue
    simp only [OnlineHistory.next, queue]
    exact received
  | republish running needs connected =>
    exact fun _ => Republishing.republishFrom _ (steady running)
  | forward enabled =>
    intro running
    exact (steady ((phase_forward _ c).symm.trans running)).forward rfl _
  | poll =>
    intro running
    exact (steady running).congr ((staging_handle _ _ _).trans (staging_alive _ _)).symm
  | fail running => exact steady_failed (steady running) _
  | failOffline | failClosing | shutdown | abandon | close | exit =>
    intro running
    cases running

/-- In every run, as long as the worker runs: when `needs_online_republish` is cleared, the
online message of every tracked device was enqueued since the connection was lost last; a
device that was removed, and of which no online message was accepted since, is not tracked
and no online message of it was enqueued; and the queue keeps its bound. -/
theorem online_republished {metrics : MqttMetrics} {labels : List Label}
    {s : Client × OnlineHistory}
    (run : (onlineMachine config).Run Machine.Always (.start metrics, ⟨[], []⟩) labels s)
    (running : s.1.phase = .running) :
    (s.1.worker.needsOnlineRepublish = false →
      ∀ d ∈ s.1.worker.lastOnline, d ∈ s.2.enqueued) ∧
    (∀ d ∈ s.2.offline, d ∉ s.2.enqueued ∧ d ∉ s.1.worker.lastOnline ∧
      d ∉ s.1.worker.pendingOnlineRepublish ∧
      ∀ r ∈ s.1.worker.pending, r.onlineOf ≠ some d) ∧
    s.1.worker.pending.length ≤ config.publishCapacity := by
  have steady : Steady config s := run.invariant
    (P := Steady config) (fun _ => Republishing.start metrics) fun _ _ _ steady _ taken =>
      steady.step taken
  have inv := steady running
  refine ⟨fun done d tracked => ?_, fun d removed => ?_, inv.room⟩
  · rcases inv.covered d tracked with sent | ⟨needs, _⟩
    · exact sent
    · rw [done] at needs
      cases needs
  · obtain ⟨sent, tracked, none⟩ := inv.gone d removed
    exact ⟨sent, tracked, fun queued => tracked (inv.queued d queued), none⟩

/-- Two more devices. -/
def sampleDevices : List Device := [("plant", "lathe"), ("plant", "mill"), ("plant", "press")]

/-- Three devices go online, the connection is lost, and one of them goes offline while only
one place of the queue is free. -/
def onlineLabels : List Label :=
  sampleDevices.map (fun d => .call (.online d [])) ++ [.poll .other, .receive, .receive,
    .forward [.ok (), .ok ()], .receive, .forward [.ok ()], .fail "reset",
    .call (.publish "plant/press" []), .call (.offline ("plant", "mill") []), .poll .other,
    .receive, .republish (fun _ => []), .forward [.ok ()], .receive, .republish (fun _ => []),
    .forward [.ok (), .ok ()], .republish (fun _ => [])]

/-- A worker with room for two requests. -/
def narrowConfig : WorkerConfig :=
  { publishCapacity := 2, maxPacketSize := 1024, maxReconnectRetries := none }

/-- Two devices come back, one is offline. -/
theorem online_republished_sample :
    ∃ s, (onlineMachine narrowConfig).Run Machine.Always
        (.start .noop, ⟨[], []⟩) onlineLabels s ∧
      s.1.worker.lastOnline = [("plant", "lathe"), ("plant", "press")] ∧
      (∀ d ∈ s.1.worker.lastOnline, d ∈ s.2.enqueued) ∧ ("plant", "mill") ∈ s.2.offline ∧
      ("plant", "mill") ∉ s.2.enqueued ∧ s.1.worker.pending.length ≤ 2 := by
  obtain ⟨s, run, running, done, online, removed⟩ := Machine.Run.of_any
    (fun s : Client × OnlineHistory => s.1.phase = .running ∧
      s.1.worker.needsOnlineRepublish = false ∧
      s.1.worker.lastOnline = [("plant", "lathe"), ("plant", "press")] ∧
      ("plant", "mill") ∈ s.2.offline)
    (show ((onlineMachine narrowConfig).exec Machine.Always
      (.start .noop, ⟨[], []⟩) onlineLabels).any _ = true by decide)
  obtain ⟨covered, gone, room⟩ := online_republished run running
  exact ⟨s, run, online, covered done, removed, (gone _ removed).1, room⟩

end ForgeLink.Mqtt
