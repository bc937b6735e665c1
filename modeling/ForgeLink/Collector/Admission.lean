import ForgeLink.Buffer.WorkerContents
import ForgeLink.Collector.Config

/-!
# What the buffer admits and what the client admits

The buffer takes a batch if MQTT can have a topic for it, so that no record at
the head of the queue is one that can never be published.  It stores the topic
that the client computes (`publish_stored_iff`), but it does not know the limit
on the size of a packet: a batch over the limit is stored, handed out, rejected
by the client and put back, and nothing behind it is published
(`publish_stored_too_large`).
-/

namespace ForgeLink.Collector

open Lib Buffer Mqtt

/-- A record that a push has made. -/
def Pushed (serde : Serde) (topic : String) (payload : Bytes) : Prop :=
  ∃ batch, Buffer.telemetryTopic serde batch = .ok topic ∧ serde.toVec batch = .ok payload

/-- The JSON of a batch keeps the names of its topic. -/
def KeepsNames (serde : Serde) : Prop :=
  ∀ batch payload batch', serde.toVec batch = .ok payload → serde.fromSlice payload = .ok batch' →
    batch'.siteId = batch.siteId ∧ batch'.deviceId = batch.deviceId

/-- A batch that the buffer hands out has the topic that the buffer has stored with it. -/
theorem telemetryTopic_handedOut {serde : Serde} (names : KeepsNames serde) {stored : StoredBatch}
    (out : State.HandedOut (Pushed serde) serde stored) :
    Mqtt.telemetryTopic stored.batch.siteId stored.batch.deviceId = .ok stored.topic := by
  obtain ⟨payload, read, ⟨batch, named, written⟩, parsed, handed⟩ := out
  obtain ⟨site, device⟩ := names batch payload read written parsed
  have topic := (telemetryTopic_ok_iff serde batch stored.topic).mp named
  rcases handed with eq | eq
  · rw [eq, site, device]
    exact topic
  · rw [eq, site, device]
    exact topic

/-- In every run from an empty buffer, the client computes the stored topic for every batch that
the buffer hands out, and takes the batch if and only if the packet is not over the limit. -/
theorem publish_stored_iff {config : CollectorConfig} {serde : Serde} {labels : List State.Label}
    {s : State} {call : CallId} {stored : StoredBatch} (valid : config.validate = .ok ())
    (names : KeepsNames serde)
    (run : (bufferMachine config.buffer.toBufferConfig serde).Run Machine.Always
      (State.opened config.buffer.toBufferConfig .empty) labels s)
    (out : .taken (.ok (some stored)) ∈ s.answers call) :
    Mqtt.telemetryTopic stored.batch.siteId stored.batch.deviceId = .ok stored.topic ∧
      ((∃ message, publishBatch config.mqtt.maxPacketSize serde stored.batch = .ok message) ↔
        ∃ payload, serde.toVec stored.batch = .ok payload ∧
          9 + stored.topic.utf8ByteSize + payload.length ≤ config.mqtt.maxPacketSize) := by
  have opens : State.openDb config.buffer.toBufferConfig .empty =
      .ok (State.opened config.buffer.toBufferConfig .empty) := by
    rw [State.openDb, BufferOptions.toBufferConfig_valid (CollectorConfig.buffer_valid valid)]
    rfl
  have made : ∀ batch record, State.IsRecord serde batch record →
      Pushed serde record.topic record.payload := by
    rintro batch _ ⟨topic, payload, nowNs, named, written, rfl⟩
    exact ⟨batch, named, written⟩
  have handed := State.handsOut_of_run opens (fun _ inside => absurd inside List.not_mem_nil) made
    run call stored out
  have named := telemetryTopic_handedOut names handed
  refine ⟨named, ?_⟩
  constructor
  · rintro ⟨message, published⟩
    obtain ⟨payload, written, _, fits⟩ := (publishBatch_ok_iff named message).mp published
    exact ⟨payload, written, fits⟩
  · rintro ⟨payload, written, fits⟩
    exact ⟨_, (publishBatch_ok_iff named _).mpr ⟨payload, written, rfl, fits⟩⟩

/-! ## Two batches -/

/-- A site with a press, the least packets and a small buffer. -/
def sampleCollector : CollectorConfig where
  siteId := "plant"
  sessionId := none
  devices := [⟨"press", "modbus-tcp", "modbus-holding", true⟩]
  mqtt := ⟨"broker", 1883, 30, 1024, 256, 100, .none, none⟩
  buffer := ⟨"wal.db", 2, 4096, 1000, .backpressure, 5⟩

/-- A name with a thousand letters. -/
def longName : String := String.ofList (List.replicate 1000 'a')

/-- The JSON of two sample batches. -/
def sampleJson : Serde where
  toVec batch :=
    if batch ∈ [sampleBatch "a", sampleBatch longName] then .ok (sampleBytes batch)
    else .error "not a sample"
  fromSlice bytes :=
    match [sampleBatch "a", sampleBatch longName].find? fun batch => sampleBytes batch = bytes with
    | some batch => .ok batch
    | none => .error "expected value at line 1 column 1"
  debug text := "\"" ++ text ++ "\""

theorem keepsNames_sampleJson : KeepsNames sampleJson := by
  have same : ∀ batch ∈ [sampleBatch "a", sampleBatch longName],
      batch.siteId = "plant" ∧ batch.deviceId = "press" := by
    intro batch inside
    simp only [List.mem_cons, List.not_mem_nil, or_false] at inside
    rcases inside with rfl | rfl <;> exact ⟨rfl, rfl⟩
  intro batch payload batch' written read
  simp only [sampleJson] at written read
  split at written
  next inside =>
    split at read
    next found =>
      cases read
      obtain ⟨site, device⟩ := same batch inside
      obtain ⟨site', device'⟩ := same batch' (List.mem_of_find?_eq_some found)
      exact ⟨site'.trans site.symm, device'.trans device.symm⟩
    next => cases read
  next => cases written

/-- A batch is pushed, and the buffer is asked for the next batch. -/
def pushAndNext (messageId : String) : List State.Label :=
  served 0 (.push (sampleBatch messageId)) ++ served 1 .next

/-- A batch that is stored, taken and published. -/
theorem publish_stored_sample :
    ∃ s stored, (bufferMachine sampleCollector.buffer.toBufferConfig sampleJson).Run Machine.Always
        (State.opened sampleCollector.buffer.toBufferConfig .empty) (pushAndNext "a") s ∧
      s.answers 0 = [.done (.ok ())] ∧ .taken (.ok (some stored)) ∈ s.answers 1 ∧
      ∃ message, publishBatch sampleCollector.mqtt.maxPacketSize sampleJson stored.batch =
        .ok message := by
  have valid : sampleCollector.validate = .ok () := by decide +kernel
  let stored : StoredBatch := ⟨1, "forgelink/v1/telemetry/plant/press", sampleBatch "a"⟩
  obtain ⟨s, run, pushed, taken⟩ := Machine.Run.of_any
    (fun s : State => s.answers 0 = [.done (.ok ())] ∧ .taken (.ok (some stored)) ∈ s.answers 1)
    (show ((bufferMachine sampleCollector.buffer.toBufferConfig sampleJson).exec Machine.Always
      (State.opened sampleCollector.buffer.toBufferConfig .empty) (pushAndNext "a")).any _ = true by
      decide +kernel)
  refine ⟨s, stored, run, pushed, taken, ?_⟩
  refine (publish_stored_iff valid keepsNames_sampleJson run taken).2.mpr ⟨_, rfl, ?_⟩
  decide +kernel

/-- A batch with a long message id is pushed with success, and the client rejects what the buffer
then hands out. -/
theorem publish_stored_too_large :
    sampleCollector.validate = .ok () ∧
    ∃ s, (bufferMachine sampleCollector.buffer.toBufferConfig sampleJson).Run Machine.Always
        (State.opened sampleCollector.buffer.toBufferConfig .empty) (pushAndNext longName) s ∧
      s.answers 0 = [.done (.ok ())] ∧
      s.answers 1 = [.taken (.ok (some
        ⟨1, "forgelink/v1/telemetry/plant/press", sampleBatch longName⟩))] ∧
      publishBatch sampleCollector.mqtt.maxPacketSize sampleJson (sampleBatch longName) =
        .error (.payloadTooLarge 1195 1024) := by
  refine ⟨by decide +kernel, ?_⟩
  obtain ⟨s, run, pushed, taken⟩ := Machine.Run.of_any
    (fun s : State => s.answers 0 = [.done (.ok ())] ∧ s.answers 1 = [.taken (.ok (some
      ⟨1, "forgelink/v1/telemetry/plant/press", sampleBatch longName⟩))])
    (show ((bufferMachine sampleCollector.buffer.toBufferConfig sampleJson).exec Machine.Always
      (State.opened sampleCollector.buffer.toBufferConfig .empty) (pushAndNext longName)).any _ =
        true
      by decide +kernel)
  exact ⟨s, run, pushed, taken, by decide +kernel⟩

end ForgeLink.Collector
