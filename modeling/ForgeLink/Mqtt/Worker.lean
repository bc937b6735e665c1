import ForgeLink.Mqtt.Publish

/-!
# The MQTT worker

`run_worker` of `mqtt-client/src/client.rs`: the background task that takes publish
requests from a channel, hands them to the event loop of `rumqttc`, and settles every
request when the broker acknowledges it or when it cannot be acknowledged any more.

The worker learns of packet identifiers by events only.  `Outgoing::Publish` names the
identifier of the oldest request that has none, `Outgoing::AwaitAck` says that this
request is held back because its identifier is still in use, and `Incoming::PubAck`
settles the first request with the identifier.  After a connection is lost the requests
are put in the order in which the event loop sends them again.

The functions here are those of the source with the local variables of `run_worker` as
one state.  The `oneshot` channels are numbers, and `results` is what was sent on them.
-/

namespace ForgeLink.Mqtt

open Lib

/-- Change the first entry with a property. -/
def modifyFirst {α : Type*} (p : α → Bool) (f : α → α) : List α → List α
  | [] => []
  | x :: xs => if p x then f x :: xs else x :: modifyFirst p f xs

/-- A `oneshot` channel, on which a publisher waits for the outcome. -/
abbrev Receipt := Nat

/-- A packet identifier. -/
abbrev Pkid := Nat

/-- A device: `site_id` and `device_id`. -/
abbrev Device := String × String

/-! ## Requests -/

/-- A request of a publisher. -/
structure PublishRequest where
  topic : String
  payload : Bytes
  onlineStatus : Bool
  statusIds : Option Device
  deregister : Bool
  metricsCounted : Bool
  ackTx : Receipt
deriving DecidableEq, Repr

/-- A request that was handed over, and not acknowledged yet. -/
structure AwaitingAck where
  pkid : Option Pkid
  parkedPkid : Option Pkid
  leftover : Bool
  metricsCounted : Bool
  ackTx : Receipt
deriving DecidableEq, Repr

/-- A request of `publish` and `publish_retained`. -/
def plainRequest (topic : String) (payload : Bytes) (ackTx : Receipt) : PublishRequest :=
  { topic, payload, onlineStatus := false, statusIds := none, deregister := false
    metricsCounted := false, ackTx }

/-- A request about the status of a device, if the device has a topic. -/
def statusRequest (onlineStatus deregister : Bool) (device : Device) (payload : Bytes)
    (ackTx : Receipt) : Option PublishRequest :=
  match statusTopic device.1 device.2 with
  | .ok topic =>
    some { topic, payload, onlineStatus, statusIds := some device, deregister
           metricsCounted := false, ackTx }
  | .error _ => none

/-- The request of `publish_online`, and `make_online_status_request`. -/
def onlineRequest : Device → Bytes → Receipt → Option PublishRequest := statusRequest true false

/-- The request of `publish_offline`. -/
def offlineRequest : Device → Bytes → Receipt → Option PublishRequest := statusRequest false true

/-- The offline message of the shutdown. -/
def makeOfflineStatusRequest : Device → Bytes → Receipt → Option PublishRequest :=
  statusRequest false false

/-- The entry of a request that was handed to the event loop. -/
def PublishRequest.awaiting (r : PublishRequest) : AwaitingAck :=
  { pkid := none, parkedPkid := none, leftover := false, metricsCounted := r.metricsCounted
    ackTx := r.ackTx }

/-! ## Metrics -/

/-- `MqttMetrics`; without a registry nothing is counted. -/
structure MqttMetrics where
  registered : Bool
  inflightValue : Int
  inflight : Int
  published : Nat
  redelivered : Nat
  failed : Nat
deriving DecidableEq, Repr

namespace MqttMetrics

/-- Metrics without a registry. -/
def noop : MqttMetrics :=
  { registered := false, inflightValue := 0, inflight := 0, published := 0, redelivered := 0
    failed := 0 }

/-- Count requests in flight. -/
def bumpInflight (delta : Int) (m : MqttMetrics) : MqttMetrics :=
  if m.registered then
    { m with inflightValue := m.inflightValue + delta, inflight := max (m.inflightValue + delta) 0 }
  else m

/-- A request failed that was not counted as in flight. -/
def observeFailedUncounted (m : MqttMetrics) : MqttMetrics :=
  if m.registered then { m with failed := m.failed + 1 } else m

/-- A request in flight failed. -/
def observeFailed (m : MqttMetrics) : MqttMetrics := m.observeFailedUncounted.bumpInflight (-1)

/-- A request was acknowledged. -/
def observePublished (m : MqttMetrics) : MqttMetrics :=
  (if m.registered then { m with published := m.published + 1 } else m).bumpInflight (-1)

/-- A request was accepted. -/
def observeAccepted (m : MqttMetrics) : MqttMetrics := m.bumpInflight 1

/-- The connection was lost with requests in flight. -/
def observeDisconnectWithUnacked (m : MqttMetrics) : MqttMetrics :=
  if m.registered then { m with redelivered := m.redelivered + 1 } else m

/-- The failure of a request, which counts against the requests in flight if it was counted
there. -/
def observeSettled (counted : Bool) (m : MqttMetrics) : MqttMetrics :=
  if counted then m.observeFailed else m

end MqttMetrics

/-! ## The state -/

/-- `MqttClientConfig`, the fields that the worker reads. -/
structure WorkerConfig where
  publishCapacity : Nat
  maxPacketSize : Nat
  maxReconnectRetries : Option Nat

/-- The local variables of `run_worker`.  `made` counts the `oneshot` channels, and
`results` is what was sent on them. -/
structure Worker where
  requestRx : List PublishRequest
  connected : Bool
  connectFailures : Nat
  pending : List PublishRequest
  awaitingAck : List AwaitingAck
  lastPuback : Pkid
  collisionPkid : Option Pkid
  collisionRecovered : Bool
  collisionResetPending : Bool
  lastOnline : List Device
  pendingOnlineRepublish : List Device
  needsOnlineRepublish : Bool
  metrics : MqttMetrics
  made : Nat
  results : List (Receipt × Except MqttClientError Unit)

namespace Worker

/-- The worker at its start. -/
def start (metrics : MqttMetrics) : Worker :=
  { requestRx := [], connected := false, connectFailures := 0, pending := [], awaitingAck := []
    lastPuback := 0, collisionPkid := none, collisionRecovered := false
    collisionResetPending := false, lastOnline := [], pendingOnlineRepublish := []
    needsOnlineRepublish := false, metrics, made := 0, results := [] }

/-- `ack_tx.send(..)`. -/
def send (ackTx : Receipt) (result : Except MqttClientError Unit) (w : Worker) : Worker :=
  { w with results := w.results ++ [(ackTx, result)] }

/-! ## Requests come in -/

/-- The order of the devices in a `BTreeSet`. -/
def deviceLe (d e : Device) : Prop := d.1 < e.1 ∨ d.1 = e.1 ∧ d.2 ≤ e.2

instance (d e : Device) : Decidable (deviceLe d e) := inferInstanceAs (Decidable (_ ∨ _))

/-- `last_online.insert`. -/
def insertDevice (d : Device) (devices : List Device) : List Device :=
  if d ∈ devices then devices else devices.orderedInsert deviceLe d

/-- The part of `accept_request` that takes a device out of the tracking. -/
def forgetDevice (ids : Device) (w : Worker) : Worker :=
  let mine := fun r : PublishRequest => r.onlineStatus && r.statusIds == some ids
  { w with
    lastOnline := w.lastOnline.filter (· ≠ ids)
    pending := w.pending.filter fun r => !mine r
    metrics := (w.pending.filter mine).foldl (fun m r => m.observeSettled r.metricsCounted)
      w.metrics
    pendingOnlineRepublish := w.pendingOnlineRepublish.filter (· ≠ ids) }

/-- The checks of `accept_request`. -/
def checkRequest (config : WorkerConfig) (request : PublishRequest) :
    Except MqttClientError Unit := do
  validatePublishTopic request.topic
  validatePayloadSize request.topic request.payload config.maxPacketSize

/-- Take a request that is valid into the queue. -/
def acceptRequest (config : WorkerConfig) (request : PublishRequest) (w : Worker) : Worker :=
  match checkRequest config request with
  | .ok () =>
    let w := match request.deregister, request.statusIds with
      | true, some ids => w.forgetDevice ids
      | _, _ => w
    { w with
      metrics := w.metrics.observeAccepted
      pending := w.pending ++ [{ request with metricsCounted := true }] }
  | .error e =>
    { w with metrics := w.metrics.observeFailedUncounted }.send request.ackTx (.error e)

/-- One round of `forward_pending`: `try_publish` takes the first request, or fails with an
error other than a full channel. -/
def forwardOne (outcome : Except String Unit) (w : Worker) : Worker :=
  match w.pending with
  | [] => w
  | req :: rest =>
    match outcome with
    | .ok () =>
      { w with
        pending := rest
        lastOnline := match req.onlineStatus, req.statusIds with
          | true, some ids => insertDevice ids w.lastOnline
          | _, _ => w.lastOnline
        awaitingAck := w.awaitingAck ++ [req.awaiting] }
    | .error reason =>
      { w with pending := rest, metrics := w.metrics.observeSettled req.metricsCounted }.send
        req.ackTx (.error (.publishFailed reason))

/-! ## Online status -/

/-- All tracked devices are to be published again. -/
def rebuildOnlineRepublish (w : Worker) : Worker :=
  { w with pendingOnlineRepublish := w.lastOnline }

/-- One device of `step_online_republish`. -/
def republishDevice (envelope : Device → Bytes) (d : Device) (w : Worker) : Worker :=
  match onlineRequest d (envelope d) w.made with
  | some request =>
    { w with
      metrics := w.metrics.observeAccepted
      pending := w.pending ++ [{ request with metricsCounted := true }]
      made := w.made + 1 }
  | none => w

/-- The loop of `step_online_republish` over the devices that are left. -/
def republishFrom (capacity : Nat) (envelope : Device → Bytes) : List Device → Worker → Worker
  | [], w =>
    if w.pending.length < capacity then
      { w with pendingOnlineRepublish := [], needsOnlineRepublish := false }
    else { w with pendingOnlineRepublish := [] }
  | d :: rest, w =>
    if w.pending.length < capacity then
      republishFrom capacity envelope rest (w.republishDevice envelope d)
    else { w with pendingOnlineRepublish := d :: rest }

/-- Publish the devices that are left, as far as there is room. -/
def stepOnlineRepublish (capacity : Nat) (envelope : Device → Bytes) (w : Worker) : Worker :=
  republishFrom capacity envelope w.pendingOnlineRepublish w

/-! ## Events -/

/-- An entry that the event loop has still to write. -/
def isWaiting (e : AwaitingAck) : Bool := e.pkid.isNone && e.parkedPkid.isNone

/-- The first request without an identifier has this one. -/
def assignPkid (pkid : Pkid) (w : Worker) : Worker :=
  { w with
    awaitingAck := modifyFirst isWaiting (fun e => { e with pkid := some pkid }) w.awaitingAck }

/-- The first request without an identifier waits for this one. -/
def parkCollided (pkid : Pkid) (w : Worker) : Worker :=
  if w.awaitingAck.any isWaiting then
    { w with
      awaitingAck := modifyFirst isWaiting (fun e => { e with parkedPkid := some pkid })
        w.awaitingAck
      collisionPkid := some pkid }
  else w

/-- The first half of `on_publish_event`: is this the write that ends a collision? -/
def unparkOnPublish (pkid : Pkid) (w : Worker) : Worker :=
  if w.awaitingAck.any (fun e => e.parkedPkid == some pkid) then
    if w.collisionRecovered || !w.collisionResetPending then
      { w with
        awaitingAck := modifyFirst (fun e => e.parkedPkid == some pkid)
          (fun e => { e with parkedPkid := none }) w.awaitingAck
        collisionPkid := none
        collisionRecovered := false }
    else { w with collisionResetPending := false }
  else w

/-- A request was written. -/
def onPublishEvent (pkid : Pkid) (w : Worker) : Worker :=
  (w.unparkOnPublish pkid).assignPkid pkid

/-- Settle the request with an identifier. -/
def resolvePuback (pkid : Pkid) (w : Worker) : Worker :=
  match w.awaitingAck.find? (fun e => e.pkid == some pkid) with
  | some entry =>
    { w with
      awaitingAck := w.awaitingAck.eraseP fun e => e.pkid == some pkid
      metrics := if entry.metricsCounted then w.metrics.observePublished else w.metrics }.send
      entry.ackTx (.ok ())
  | none => w

/-- An identifier was acknowledged. -/
def onPubackEvent (pkid : Pkid) (w : Worker) : Worker :=
  { w with
    collisionRecovered := if w.collisionPkid = some pkid then true else w.collisionRecovered
  }.resolvePuback pkid

/-- The part of `on_await_ack_event` that settles an entry whose place in the collision slot
was taken. -/
def settleOverwritten (previous : Pkid) (w : Worker) : Worker :=
  match w.awaitingAck.find? (fun e => e.parkedPkid == some previous) with
  | some entry =>
    { w with
      awaitingAck := w.awaitingAck.eraseP fun e => e.parkedPkid == some previous
      metrics := w.metrics.observeSettled entry.metricsCounted }.send
      entry.ackTx (.error .collisionOverwritten)
  | none => w

/-- The first half of `on_await_ack_event`. -/
def clearCollision (w : Worker) : Worker :=
  let w := { w with collisionRecovered := false }
  match w.collisionPkid with
  | some previous => w.settleOverwritten previous
  | none => w

/-- A request is held back. -/
def onAwaitAckEvent (pkid : Pkid) (w : Worker) : Worker := w.clearCollision.parkCollided pkid

/-! ## The connection is lost -/

/-- The key of `reset_pkids`. -/
def resetKey (lastPuback : Pkid) (e : AwaitingAck) : Nat × Bool × Pkid :=
  match e.pkid with
  | none => if e.leftover then (0, false, 0) else (2, false, 0)
  | some pkid => (1, decide (pkid ≤ lastPuback), pkid)

/-- The order of the keys. -/
def keyLe (k l : Nat × Bool × Pkid) : Prop :=
  k.1 < l.1 ∨ k.1 = l.1 ∧ (k.2.1 < l.2.1 ∨ k.2.1 = l.2.1 ∧ k.2.2 ≤ l.2.2)

instance (k l : Nat × Bool × Pkid) : Decidable (keyLe k l) := inferInstanceAs (Decidable (_ ∨ _))

/-- Order the requests as they are sent again, without identifiers. -/
def resetPkids (awaitingAck : List AwaitingAck) (lastPuback : Pkid) : List AwaitingAck :=
  (awaitingAck.insertionSort fun e f => keyLe (resetKey lastPuback e) (resetKey lastPuback f)).map
    fun e => { e with pkid := none, leftover := true }

/-- Settle all requests with an error. -/
def failAllQueued (err : MqttClientError) (w : Worker) : Worker :=
  { w with
    requestRx := []
    pending := []
    awaitingAck := []
    metrics := (w.pending.map PublishRequest.metricsCounted ++
        w.awaitingAck.map AwaitingAck.metricsCounted).foldl (fun m c => m.observeSettled c)
      (w.requestRx.foldl (fun m _ => m.observeFailedUncounted) w.metrics)
    results := w.results ++ (w.requestRx.map PublishRequest.ackTx ++
      w.pending.map PublishRequest.ackTx ++ w.awaitingAck.map AwaitingAck.ackTx).map
        fun ackTx => (ackTx, .error err) }

/-- What a failed `poll` does to the entries and the online status. -/
def disconnected (w : Worker) : Worker :=
  { w with
    connected := false
    connectFailures := w.connectFailures + 1
    metrics := if w.awaitingAck.isEmpty then w.metrics
      else w.metrics.observeDisconnectWithUnacked
    awaitingAck := resetPkids w.awaitingAck w.lastPuback
    collisionRecovered := if w.collisionPkid.isSome then false else w.collisionRecovered
    collisionResetPending := if w.collisionPkid.isSome then true else w.collisionResetPending
    pendingOnlineRepublish := w.rebuildOnlineRepublish.pendingOnlineRepublish
    needsOnlineRepublish := true }

/-- Has the client failed to connect too often? -/
def exhausted (config : WorkerConfig) (w : Worker) : Bool :=
  config.maxReconnectRetries.any fun max => max ≤ w.connectFailures

/-! ## Shutdown -/

/-- The requests with which the shutdown begins. -/
def offlineRequests (envelope : Device → Bytes) : List Device → Receipt → List PublishRequest
  | [], _ => []
  | d :: rest, made =>
    match makeOfflineStatusRequest d (envelope d) made with
    | some request => request :: offlineRequests envelope rest (made + 1)
    | none => offlineRequests envelope rest made

/-- The beginning of the shutdown: every device that is online goes offline first. -/
def pushOffline (envelope : Device → Bytes) (w : Worker) : Worker :=
  let requests := offlineRequests envelope w.lastOnline w.made
  { w with pending := requests ++ w.pending, made := w.made + requests.length }

/-- The offline messages at the front of the queue. -/
def offlineRemaining (w : Worker) : Nat :=
  (w.pending.takeWhile fun r => r.statusIds.isSome && !r.onlineStatus).length

end Worker

end ForgeLink.Mqtt
