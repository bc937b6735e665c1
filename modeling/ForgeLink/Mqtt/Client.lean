import ForgeLink.Mqtt.Worker

/-!
# The client

`run_worker` as a machine: its main loop, the two parts of its shutdown, and its end.
Nothing is assumed about the event loop of `rumqttc`.  Whenever the worker polls it, it may
report any event or fail, and it may take what is handed over to it or not.
-/

namespace ForgeLink.Mqtt

open Lib

/-- The events that `poll` returns. -/
inductive LoopEvent where
  /-- `Outgoing::Publish`: a request was written with an identifier. -/
  | publish (pkid : Pkid)
  /-- `Outgoing::AwaitAck`: a request is held back, because its identifier is in use. -/
  | awaitAck (pkid : Pkid)
  /-- `Incoming::PubAck`: the broker acknowledges an identifier. -/
  | pubAck (pkid : Pkid)
  /-- `Incoming::ConnAck` and the events that the worker only logs. -/
  | other
deriving DecidableEq, Repr

/-- Where `run_worker` is: the main loop, the offline messages of the shutdown, the rest of
the shutdown, or its end. -/
inductive Phase where
  | running
  | offline
  | closing
  | exited
deriving DecidableEq, Repr

/-- The worker, and where it is. -/
structure Client where
  worker : Worker
  phase : Phase

/-- A call of a publisher. -/
inductive Call where
  | publish (topic : String) (payload : Bytes)
  | online (device : Device) (payload : Bytes)
  | offline (device : Device) (payload : Bytes)
deriving DecidableEq, Repr

/-- The request of a call. -/
def Call.request (ackTx : Receipt) : Call → Option PublishRequest
  | .publish topic payload => some (plainRequest topic payload ackTx)
  | .online device payload => onlineRequest device payload ackTx
  | .offline device payload => offlineRequest device payload ackTx

/-- What can happen. -/
inductive Label where
  /-- A publisher puts a request into the channel. -/
  | call (call : Call)
  /-- The worker takes a request from the channel. -/
  | receive
  /-- The worker goes on with the online messages. -/
  | republish (envelope : Device → Bytes)
  /-- `forward_pending`: what `try_publish` answers until the channel is full. -/
  | forward (outcomes : List (Except String Unit))
  /-- `poll` returns an event. -/
  | poll (event : LoopEvent)
  /-- `poll` fails, on an open connection or on none. -/
  | fail (reason : String)
  /-- The shutdown begins. -/
  | shutdown (envelope : Device → Bytes)
  /-- The offline messages are forwarded, or the time for them is over. -/
  | close
  /-- The shutdown ends. -/
  | exit

namespace Client

/-- The client at its start. -/
def start (metrics : MqttMetrics) : Client := ⟨.start metrics, .running⟩

/-- One round of `forward_pending`. -/
def forwardOne (c : Client) (outcome : Except String Unit) : Client :=
  { c with worker := c.worker.forwardOne outcome }

/-- What an event does to the worker, in the main loop and in the shutdown. -/
def handle (stopping : Bool) (w : Worker) : LoopEvent → Worker
  | .publish pkid => w.onPublishEvent pkid
  | .awaitAck pkid => w.onAwaitAckEvent pkid
  | .pubAck pkid =>
    { w with lastPuback := if stopping then w.lastPuback else pkid }.onPubackEvent pkid
  | .other => w

/-- `poll` returned an event in the main loop: the connection is up. -/
def alive (stopping : Bool) (w : Worker) : Worker :=
  if stopping then w else { w with connected := true, connectFailures := 0 }

/-- The end of `run_worker`. -/
def finish (err : MqttClientError) (c : Client) : Client :=
  { c with worker := c.worker.failAllQueued err, phase := .exited }

/-- A failed `poll` of the main loop. -/
def failed (config : WorkerConfig) (reason : String) (c : Client) : Client :=
  let c := { c with worker := c.worker.disconnected }
  if c.worker.exhausted config then c.finish (.disconnected reason) else c

/-- One step. -/
def step (config : WorkerConfig) (c : Client) : Label → Option Client
  | .call call =>
    if c.phase = .exited then none
    else
      (call.request c.worker.made).map fun request =>
        { c with worker := { c.worker with
            requestRx := c.worker.requestRx ++ [request], made := c.worker.made + 1 } }
  | .receive =>
    match c.worker.requestRx with
    | [] => none
    | request :: rest =>
      if c.phase = .running ∧ c.worker.connected ∧
          c.worker.pending.length < config.publishCapacity then
        some { c with
          worker := { c.worker with requestRx := rest }.acceptRequest config request }
      else none
  | .republish envelope =>
    if c.phase = .running ∧ c.worker.needsOnlineRepublish ∧ c.worker.connected then
      some { c with worker := c.worker.stepOnlineRepublish config.publishCapacity envelope }
    else none
  | .forward outcomes =>
    if c.phase = .running ∧ c.worker.connected ∨
        c.phase = .offline ∧ outcomes.length ≤ c.worker.offlineRemaining then
      some (outcomes.foldl forwardOne c)
    else none
  | .poll event =>
    if c.phase = .exited then none
    else
      let stopping := decide (c.phase ≠ .running)
      some { c with worker := handle stopping (alive stopping c.worker) event }
  | .fail reason =>
    match c.phase with
    | .running => some (c.failed config reason)
    | .offline => some { c with phase := .closing }
    | .closing => some (c.finish .closed)
    | .exited => none
  | .shutdown envelope =>
    if c.phase = .running then
      if c.worker.connected then
        some { c with worker := c.worker.pushOffline envelope, phase := .offline }
      else some (c.finish .closed)
    else none
  | .close => if c.phase = .offline then some { c with phase := .closing } else none
  | .exit => if c.phase = .closing then some (c.finish .closed) else none

/-! ## Steps -/

/-- The steps of the client, with the conditions under which they are taken. -/
inductive Move (config : WorkerConfig) (c : Client) : Label → Client → Prop where
  | call {call : Call} {request : PublishRequest} :
      c.phase ≠ .exited → call.request c.worker.made = some request →
      Move config c (.call call) { c with worker := { c.worker with
        requestRx := c.worker.requestRx ++ [request], made := c.worker.made + 1 } }
  | receive {request : PublishRequest} {rest : List PublishRequest} :
      c.worker.requestRx = request :: rest → c.phase = .running → c.worker.connected = true →
      c.worker.pending.length < config.publishCapacity →
      Move config c .receive { c with
        worker := { c.worker with requestRx := rest }.acceptRequest config request }
  | republish {envelope : Device → Bytes} :
      c.phase = .running → c.worker.needsOnlineRepublish = true → c.worker.connected = true →
      Move config c (.republish envelope) { c with
        worker := c.worker.stepOnlineRepublish config.publishCapacity envelope }
  | forward {outcomes : List (Except String Unit)} :
      (c.phase = .running ∧ c.worker.connected = true ∨
        c.phase = .offline ∧ outcomes.length ≤ c.worker.offlineRemaining) →
      Move config c (.forward outcomes) (outcomes.foldl forwardOne c)
  | poll {event : LoopEvent} :
      c.phase ≠ .exited →
      Move config c (.poll event) { c with
        worker := handle (decide (c.phase ≠ .running))
          (alive (decide (c.phase ≠ .running)) c.worker) event }
  | fail {reason : String} :
      c.phase = .running → Move config c (.fail reason) (c.failed config reason)
  | failOffline {reason : String} :
      c.phase = .offline → Move config c (.fail reason) { c with phase := .closing }
  | failClosing {reason : String} :
      c.phase = .closing → Move config c (.fail reason) (c.finish .closed)
  | shutdown {envelope : Device → Bytes} :
      c.phase = .running → c.worker.connected = true →
      Move config c (.shutdown envelope)
        { c with worker := c.worker.pushOffline envelope, phase := .offline }
  | abandon {envelope : Device → Bytes} :
      c.phase = .running → Move config c (.shutdown envelope) (c.finish .closed)
  | close : c.phase = .offline → Move config c .close { c with phase := .closing }
  | exit : c.phase = .closing → Move config c .exit (c.finish .closed)

/-- A step of the client is one of these. -/
theorem Move.of_step {config : WorkerConfig} {c d : Client} {label : Label}
    (taken : c.step config label = some d) : Move config c label d := by
  cases label with
  | call call =>
    simp only [step, Option.ite_none_left_eq_some, Option.map_eq_some_iff] at taken
    obtain ⟨alive, request, made, rfl⟩ := taken
    exact .call alive made
  | receive =>
    cases queue : c.worker.requestRx with
    | nil => simp only [step, queue, reduceCtorEq] at taken
    | cons request rest =>
      simp only [step, queue] at taken
      obtain ⟨⟨running, connected, room⟩, ⟨⟩⟩ := Option.ite_none_right_eq_some.mp taken
      exact .receive queue running connected room
  | republish envelope =>
    obtain ⟨⟨running, needs, connected⟩, ⟨⟩⟩ := Option.ite_none_right_eq_some.mp taken
    exact .republish running needs connected
  | forward outcomes =>
    obtain ⟨enabled, ⟨⟩⟩ := Option.ite_none_right_eq_some.mp taken
    exact .forward enabled
  | poll event =>
    obtain ⟨alive, ⟨⟩⟩ := Option.ite_none_left_eq_some.mp taken
    exact .poll alive
  | fail reason =>
    simp only [step] at taken
    split at taken
    next running => exact Option.some.inj taken ▸ .fail running
    next offline => exact Option.some.inj taken ▸ .failOffline offline
    next closing => exact Option.some.inj taken ▸ .failClosing closing
    next => cases taken
  | shutdown envelope =>
    obtain ⟨running, taken⟩ := Option.ite_none_right_eq_some.mp taken
    split at taken
    next connected => exact Option.some.inj taken ▸ .shutdown running connected
    next => exact Option.some.inj taken ▸ .abandon running
  | close =>
    obtain ⟨offline, ⟨⟩⟩ := Option.ite_none_right_eq_some.mp taken
    exact .close offline
  | exit =>
    obtain ⟨closing, ⟨⟩⟩ := Option.ite_none_right_eq_some.mp taken
    exact .exit closing

end Client

/-- The client as a machine. -/
def clientMachine (config : WorkerConfig) : Machine Client Label := ⟨Client.step config⟩

end ForgeLink.Mqtt
