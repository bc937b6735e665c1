import ForgeLink.Lib.Strings
import ForgeLink.Pipeline.Conservation
import ForgeLink.Profile.Decode

/-!
# Identifiers of observations and batches

The pump of the collector maps the results of a poll to observations
(`map_results`, `map_failure` of `device-manager`, `build_observation` of
`domain-model`) and puts them into the pipeline, which makes batches.  An
observation carries an `observation_id` and a batch a `message_id`.  Both join
texts that may hold any character, but each text comes after its length, so an
identifier gives back what it was made of (`observationId_inj`, `messageId_inj`).

The numbers come from one `SequenceAllocator` and from the pipeline.  Neither
gives a number twice to one device, the allocator as long as it does not wrap, so
no identifier occurs twice in a run (`identifiers_unique`).

The time stamps and the metadata of an observation are left out.
-/

namespace ForgeLink.Collector

open Drivers
open Lib
open Profile

variable {session device : String}

/-! ## Observations -/

/-- `DomainKind`. -/
inductive DomainKind where
  | plc
  | cnc
  | robot
  | drive
  | servo
  | meter
  | sensor
  | instrument
  | machine
  | powerDevice
  | buildingDevice
  | custom (name : String)

/-- How the paths of a domain begin. -/
def standardPrefix : DomainKind → String
  | .plc => "plc"
  | .cnc => "cnc"
  | .robot => "robot"
  | .drive => "drive"
  | .servo => "servo"
  | .meter => "meter"
  | .sensor => "sensor"
  | .instrument => "instrument"
  | .machine => "machine"
  | .powerDevice => "power_device"
  | .buildingDevice => "building_device"
  | .custom _ => "custom"

/-- A path up to its first point. -/
def firstSegment (path : String) : String := String.ofList (path.toList.takeWhile (· ≠ '.'))

/-- `DomainError`; the domain itself stands for its debug form. -/
inductive DomainError where
  | pathPrefix (domain : DomainKind) (path expectedPrefix : String)
  | emptyCollectorSession

/-- `Observation`, without time stamps and metadata. -/
structure Observation where
  observationId : String
  deviceId : String
  path : String
  value : Option Value
  quality : Quality
  sequence : UInt64

/-- A path belongs to its domain. -/
def validateDomainPath (domain : DomainKind) (path : String) : Except DomainError Unit :=
  if firstSegment path = standardPrefix domain then .ok ()
  else .error (.pathPrefix domain path (standardPrefix domain ++ "."))

/-- An observation with its identifier. -/
def buildObservation (deviceId : String) (domain : DomainKind) (path : String)
    (decoded : DecodedRead) (sequence : UInt64) (collectorSessionId : String) :
    Except DomainError Observation :=
  if collectorSessionId.isEmpty then .error .emptyCollectorSession
  else do
    validateDomainPath domain path
    let deviceLen := deviceId.utf8ByteSize
    let pathLen := path.utf8ByteSize
    .ok
      { observationId :=
          s!"{deviceLen}:{deviceId}:{pathLen}:{path}:{sequence}:{collectorSessionId}"
        deviceId
        path
        value := decoded.value
        quality := decoded.quality
        sequence }

/-! ## Sequences -/

/-- `SequenceAllocator`. -/
structure SequenceAllocator where
  next : AssocMap String UInt64

namespace SequenceAllocator

/-- No number is given yet. -/
def new : SequenceAllocator := ⟨.empty⟩

/-- The next number of a device. -/
def current (sequences : SequenceAllocator) (deviceId : String) : UInt64 :=
  (sequences.next.get? deviceId).getD 0

/-- The first of `count` numbers, and the allocator after them. -/
def allocate (sequences : SequenceAllocator) (deviceId : String) (count : Nat) :
    UInt64 × SequenceAllocator :=
  let start := sequences.current deviceId
  (start, ⟨sequences.next.insert deviceId (start + UInt64.ofNat count)⟩)

end SequenceAllocator

/-! ## Mapping -/

/-- A property that is polled. -/
structure ReadItem where
  path : String
  property : ProfileProperty

/-- `DeviceInstance`, the fields that the mapping reads. -/
structure DeviceInstance where
  id : String
  domain : DomainKind
  readItems : List ReadItem

/-- The property that an item was made for. -/
def DeviceInstance.item (inst : DeviceInstance) (itemId : Nat) : Option ReadItem :=
  inst.readItems[itemId]?

/-- The loop of `map_results` and `map_failure`: what was not asked for is left out, and an
error ends the loop without observations. -/
def observe {α : Type} (inst : DeviceInstance) (session : String) (start : UInt64)
    (itemId : α → Nat) (decode : α → ReadItem → DecodedRead) :
    Nat → List α → Except DomainError (List Observation)
  | _, [] => .ok []
  | index, result :: results =>
    match inst.item (itemId result) with
    | none => observe inst session start itemId decode (index + 1) results
    | some item => do
      let observation ← buildObservation inst.id inst.domain item.path (decode result item)
        (start + UInt64.ofNat index) session
      let observations ← observe inst session start itemId decode (index + 1) results
      .ok (observation :: observations)

/-- The reason of a failed poll, from the code of its error. -/
def reasonForDriverError (error : DriverErrorInfo) : QualityReason :=
  let code := error.code.toList.map Str.toAsciiLower
  if "timeout".toList <:+: code then .timeout
  else if "connection".toList <:+: code ∨ "not_connected".toList <:+: code then .notConnected
  else .protocolError

section

variable (fmt : DebugFmt) (showF64 : UInt64 → String)

/-- The observations of a poll that has succeeded. -/
def mapResults (inst : DeviceInstance) (results : List RawReadResult) (session : String)
    (sequences : SequenceAllocator) :
    Except DomainError (List Observation) × SequenceAllocator :=
  let (start, sequences) := sequences.allocate inst.id results.length
  (observe inst session start RawReadResult.itemId
    (fun result item => decodeRead fmt showF64 item.property result) 0 results, sequences)

/-- The observations of a poll that has failed: one for each item. -/
def mapFailure (inst : DeviceInstance) (items : List DriverReadItem) (error : DriverErrorInfo)
    (session : String) (sequences : SequenceAllocator) :
    Except DomainError (List Observation) × SequenceAllocator :=
  let (start, sequences) := sequences.allocate inst.id items.length
  let decoded : DecodedRead :=
    { value := none
      quality :=
        { level := .bad
          reason := reasonForDriverError error
          protocolCode := error.protocolCode
          message := some error.message } }
  (observe inst session start DriverReadItem.id (fun _ _ => decoded) 0 items, sequences)

/-! ## The pump -/

/-- What the poller reports. -/
inductive PollEvent where
  | batch (deviceId : String) (results : List RawReadResult)
  | failed (deviceId : String) (items : List DriverReadItem) (error : DriverErrorInfo)

/-- The pump: its allocator, and what it has handed to the pipeline, oldest first. -/
structure Pump where
  sequences : SequenceAllocator
  observations : List Observation

/-- Hand observations to the pipeline, if there are any. -/
def Pump.ingestAll (pump : Pump)
    (mapped : Except DomainError (List Observation) × SequenceAllocator) : Pump where
  sequences := mapped.2
  observations := pump.observations ++ mapped.1.toOption.getD []

/-- `pump_event`; the manager gives the instance of a device. -/
def pumpEvent (manager : String → Option DeviceInstance) (session : String) (pump : Pump) :
    PollEvent → Pump
  | .batch deviceId results =>
    match manager deviceId with
    | none => pump
    | some inst => pump.ingestAll (mapResults fmt showF64 inst results session pump.sequences)
  | .failed deviceId items error =>
    match manager deviceId with
    | none => pump
    | some inst => pump.ingestAll (mapFailure inst items error session pump.sequences)

/-- `run_pump` over the events it receives. -/
def runPump (manager : String → Option DeviceInstance) (session : String)
    (events : List PollEvent) : Pump :=
  events.foldl (pumpEvent fmt showF64 manager session) ⟨.new, []⟩

end

/-! ## What an identifier was made of -/

/-- `observation_id`, as a text of parts. -/
def observationId (session device path : String) (sequence : Nat) : String :=
  Str.sized device ++ (":" ++ (Str.sized path ++ (":" ++ (toString sequence ++ (":" ++ session)))))

/-- `message_id`, as a text of parts. -/
def messageId (session device : String) (sequence : Nat) : String :=
  Str.sized session ++ (Str.sized device ++ toString sequence)

theorem observationId_inj {session' device' path path' : String} {n n' : Nat}
    (eq : observationId session device path n = observationId session' device' path' n') :
    session = session' ∧ device = device' ∧ path = path' ∧ n = n' := by
  obtain ⟨devices, eq⟩ := Str.sized_inj eq
  obtain ⟨paths, eq⟩ := Str.sized_inj ((String.append_right_inj ":").mp eq)
  obtain ⟨numbers, sessions⟩ := Str.number_inj ((String.append_right_inj ":").mp eq)
  exact ⟨sessions, devices, paths, numbers⟩

theorem messageId_inj {session' device' : String} {n n' : Nat}
    (eq : messageId session device n = messageId session' device' n') :
    session = session' ∧ device = device' ∧ n = n' := by
  obtain ⟨sessions, eq⟩ := Str.sized_inj eq
  obtain ⟨devices, eq⟩ := Str.sized_inj eq
  exact ⟨sessions, devices, Str.toString_inj eq⟩

theorem new_messageId (site session device : String) (n : Nat)
    (observations : List Pipeline.Observation) :
    (Pipeline.ObservationBatch.new site session device n observations).messageId =
      messageId session device n := by
  simp only [Pipeline.ObservationBatch.new, messageId, Str.sized, String.append_assoc]
  rfl

/-- The identifier of an observation is made of its fields and the session. -/
def Named (session : String) (o : Observation) : Prop :=
  o.observationId = observationId session o.deviceId o.path o.sequence.toNat

theorem buildObservation_eq_ok {path : String} {domain : DomainKind} {decoded : DecodedRead}
    {n : UInt64} {o : Observation}
    (built : buildObservation device domain path decoded n session = .ok o) :
    o.deviceId = device ∧ o.path = path ∧ o.sequence = n ∧ Named session o := by
  unfold buildObservation at built
  split at built
  next => cases built
  next =>
    obtain ⟨_, _, built⟩ := bind_eq_ok.mp built
    obtain rfl := Except.ok.inj built
    refine ⟨rfl, rfl, rfl, ?_⟩
    simp only [Named, observationId, Str.sized, String.append_assoc]
    rfl

/-! ## The observations of a session -/

/-- The observations of one poll: of one device, named, and numbered from `first` on. -/
structure Mapped (session device : String) (first count : Nat) (os : List Observation) :
    Prop where
  named : ∀ o ∈ os, Named session o
  device : ∀ o ∈ os, o.deviceId = device
  numbered : ∀ o ∈ os, first ≤ o.sequence.toNat ∧ o.sequence.toNat < first + count
  ordered : os.Pairwise fun o o' => o.sequence.toNat < o'.sequence.toNat

/-- Observations are numbered in a row. -/
theorem observe_mapped {α : Type} {inst : DeviceInstance} {start : UInt64} {itemId : α → Nat}
    {decode : α → ReadItem → DecodedRead} {index : Nat} {results : List α} {os : List Observation}
    (room : start.toNat + index + results.length < 2 ^ 64)
    (mapped : observe inst session start itemId decode index results = .ok os) :
    Mapped session inst.id (start.toNat + index) results.length os := by
  induction results generalizing index os with
  | nil =>
    cases mapped
    exact ⟨by simp, by simp, by simp, .nil⟩
  | cons result results ih =>
    rw [List.length_cons] at room ⊢
    unfold observe at mapped
    split at mapped
    next =>
      have later := ih (by omega) mapped
      refine { later with numbered := fun o inside => ?_ }
      have bounds := later.numbered o inside
      omega
    next item _ =>
      obtain ⟨o, built, mapped⟩ := bind_eq_ok.mp mapped
      obtain ⟨os, later, ⟨⟩⟩ := bind_eq_ok.mp mapped
      obtain ⟨device, _, number, named⟩ := buildObservation_eq_ok built
      have later := ih (by omega) later
      have number : o.sequence.toNat = start.toNat + index := by
        rw [number, UInt64.toNat_add, UInt64.toNat_ofNat']
        omega
      refine ⟨List.forall_mem_cons.mpr ⟨named, later.named⟩,
        List.forall_mem_cons.mpr ⟨device, later.device⟩,
        List.forall_mem_cons.mpr ⟨by omega, fun o' inside => ?_⟩,
        List.pairwise_cons.mpr ⟨fun o' inside => ?_, later.ordered⟩⟩ <;>
      · have bounds := later.numbered o' inside
        omega

/-- What holds after `asked d` numbers for each device `d`: the identifiers are made of the
fields, and the numbers of a device are distinct and below the next one. -/
structure Fresh (session : String) (asked : String → Nat) (pump : Pump) : Prop where
  named : ∀ o ∈ pump.observations, Named session o
  counted : ∀ d, (pump.sequences.current d).toNat = asked d
  below : ∀ o ∈ pump.observations, o.sequence.toNat < asked o.deviceId
  distinct : (pump.observations.map fun o => (o.deviceId, o.sequence)).Nodup

/-- The observations of one more poll. -/
theorem Fresh.ingestAll {d : String} {asked : String → Nat} {pump : Pump} {count : Nat}
    {mapped : Except DomainError (List Observation)} (fresh : Fresh session asked pump)
    (room : asked d + count < 2 ^ 64)
    (ok : ∀ os, mapped = .ok os → Mapped session d (asked d) count os) :
    Fresh session (fun e => asked e + if d = e then count else 0)
      (pump.ingestAll (mapped, (pump.sequences.allocate d count).2)) := by
  have counted : ∀ e, ((pump.sequences.allocate d count).2.current e).toNat =
      asked e + if d = e then count else 0 := by
    intro e
    simp only [SequenceAllocator.allocate, SequenceAllocator.current, AssocMap.get?_insert]
    split
    next same =>
      have now := fresh.counted d
      rw [SequenceAllocator.current] at now
      rw [same, if_pos rfl, Option.getD_some, UInt64.toNat_add, UInt64.toNat_ofNat', now]
      omega
    next other =>
      rw [if_neg (Ne.symm other)]
      exact fresh.counted e
  have grows : ∀ o ∈ pump.observations,
      o.sequence.toNat < asked o.deviceId + if d = o.deviceId then count else 0 :=
    fun o inside => Nat.lt_of_lt_of_le (fresh.below o inside) (Nat.le_add_right _ _)
  cases mapped with
  | error e =>
    refine ⟨?_, counted, ?_, ?_⟩ <;>
      simp only [Pump.ingestAll, Except.toOption, Option.getD_none, List.append_nil]
    · exact fresh.named
    · exact grows
    · exact fresh.distinct
  | ok os =>
    have mapped := ok os rfl
    refine ⟨?_, counted, ?_, ?_⟩ <;> simp only [Pump.ingestAll, Except.toOption, Option.getD_some]
    · exact List.forall_mem_append.mpr ⟨fresh.named, mapped.named⟩
    · refine List.forall_mem_append.mpr ⟨grows, fun o inside => ?_⟩
      rw [mapped.device o inside, if_pos rfl]
      exact (mapped.numbered o inside).2
    · rw [List.map_append]
      refine List.nodup_append'.mpr ⟨fresh.distinct, ?_, ?_⟩
      · refine List.pairwise_map.mpr (mapped.ordered.imp fun less same => ?_)
        exact absurd (congrArg UInt64.toNat (Prod.mk.inj same).2) (Nat.ne_of_lt less)
      · intro key old new
        obtain ⟨o, inside, rfl⟩ := List.mem_map.mp old
        obtain ⟨o', inside', same⟩ := List.mem_map.mp new
        obtain ⟨device, number⟩ := Prod.mk.inj same
        have below := fresh.below o inside
        have above := (mapped.numbered o' inside').1
        rw [← device, mapped.device o' inside', ← number] at below
        omega

/-- How many numbers an event asks for, for the device `d`. -/
def PollEvent.asks (manager : String → Option DeviceInstance) (d : String) : PollEvent → Nat
  | .batch deviceId results =>
    ((manager deviceId).map fun inst => if inst.id = d then results.length else 0).getD 0
  | .failed deviceId items _ =>
    ((manager deviceId).map fun inst => if inst.id = d then items.length else 0).getD 0

section

variable {fmt : DebugFmt} {showF64 : UInt64 → String} {manager : String → Option DeviceInstance}
  {asked : String → Nat} {pump : Pump}

theorem Fresh.pumpEvent (fresh : Fresh session asked pump) (event : PollEvent)
    (room : ∀ d, asked d + event.asks manager d < 2 ^ 64) :
    Fresh session (fun d => asked d + event.asks manager d)
      (pumpEvent fmt showF64 manager session pump event) := by
  cases event with
  | batch deviceId _ | failed deviceId _ _ =>
    simp only [PollEvent.asks, Collector.pumpEvent] at room ⊢
    cases found : manager deviceId with
    | none => exact fresh
    | some inst =>
      simp only [found, Option.map_some, Option.getD_some] at room ⊢
      have room := room inst.id
      rw [if_pos rfl, ← fresh.counted] at room
      refine fresh.ingestAll (fresh.counted inst.id ▸ room) fun os ok => ?_
      exact fresh.counted inst.id ▸ observe_mapped room ok

/-- The pump gives fresh numbers, as long as no device asks for too many. -/
theorem Fresh.foldl_pumpEvent (fresh : Fresh session asked pump) (events : List PollEvent)
    (room : ∀ d, asked d + (events.map (PollEvent.asks manager d)).sum < 2 ^ 64) :
    Fresh session (fun d => asked d + (events.map (PollEvent.asks manager d)).sum)
      (events.foldl (Collector.pumpEvent fmt showF64 manager session) pump) := by
  induction events generalizing asked pump with
  | nil => exact fresh
  | cons event events ih =>
    simp only [List.map_cons, List.sum_cons, ← Nat.add_assoc] at room ⊢
    refine ih (fresh.pumpEvent event fun d => ?_) room
    exact Nat.lt_of_le_of_lt (Nat.le_add_right _ _) (room d)

/-- Whatever is polled, no two observations of a session have one identifier. -/
theorem observationIds_nodup (events : List PollEvent)
    (room : ∀ d, (events.map (PollEvent.asks manager d)).sum < 2 ^ 64) :
    ((runPump fmt showF64 manager session events).observations.map
      Observation.observationId).Nodup := by
  have start : Fresh session (fun _ => 0) ⟨.new, []⟩ :=
    ⟨by simp, fun _ => rfl, by simp, List.nodup_nil⟩
  have fresh : Fresh session _ (runPump fmt showF64 manager session events) :=
    start.foldl_pumpEvent events fun d => by simpa using room d
  refine List.pairwise_map.mpr ((List.pairwise_map.mp fresh.distinct).imp_of_mem ?_)
  intro o o' inside inside' differ same
  rw [fresh.named o inside, fresh.named o' inside'] at same
  obtain ⟨_, devices, _, numbers⟩ := observationId_inj same
  exact differ (Prod.ext devices (UInt64.toNat_inj.mp numbers))

end

/-! ## The batches of a session -/

section

open Pipeline (PipelineConfig ObservationBatch State Label sequencesOf)

variable {config : PipelineConfig} {s t : State}

/-- The numbers of each device are distinct, so devices and numbers together are. -/
theorem keys_nodup {bs : List ObservationBatch} (numbers : ∀ d, (sequencesOf d bs).Nodup) :
    bs.Pairwise fun b b' => (b.deviceId, b.sequence) ≠ (b'.deviceId, b'.sequence) := by
  refine List.pairwise_iff_forall_sublist.mpr fun {b b'} sublist same => ?_
  obtain ⟨devices, sequences⟩ := Prod.mk.inj same
  have both := (sublist.filter fun c => c.deviceId = b.deviceId).map ObservationBatch.sequence
  simp only [devices, decide_true, List.filter_cons_of_pos, List.filter_nil, List.map_cons,
    List.map_nil] at both
  have distinct := (numbers b'.deviceId).sublist both
  simp [sequences] at distinct

/-- In every run of the pipeline, no two batches have one identifier. -/
theorem messageIds_nodup {labels : List Label} (started : Pipeline.spawnInner config = .ok s)
    (run : (Pipeline.machine config).Run Machine.Always s labels t) :
    (t.batches.map ObservationBatch.messageId).Nodup := by
  have inv := Pipeline.Inv.of_run started run
  have named : ∀ b ∈ t.batches,
      b.messageId = messageId config.collectorSessionId b.deviceId b.sequence := by
    intro b inside
    rw [(inv.batches b inside).2]
    exact new_messageId ..
  have keys := keys_nodup fun d => by
    rw [inv.numbers d]
    exact List.nodup_range
  refine List.pairwise_map.mpr (keys.imp_of_mem ?_)
  intro b b' inside inside' differ same
  rw [named b inside, named b' inside'] at same
  obtain ⟨_, devices, numbers⟩ := messageId_inj same
  exact differ (Prod.ext devices numbers)

end

/-! ## Both -/

/-- Identifiers give back what they were made of, and none occurs twice: not among the batches
of any run of the pipeline, and not among the observations of any session of the pump in which
every device asks for fewer than `2 ^ 64` numbers. -/
theorem identifiers_unique :
    (∀ (site site' session session' device device' : String) (n n' : Nat)
      (os os' : List Pipeline.Observation),
      (Pipeline.ObservationBatch.new site session device n os).messageId =
        (Pipeline.ObservationBatch.new site' session' device' n' os').messageId →
      session = session' ∧ device = device' ∧ n = n') ∧
    (∀ (device device' path path' session session' : String) (domain domain' : DomainKind)
      (decoded decoded' : DecodedRead) (n n' : UInt64) (o o' : Observation),
      buildObservation device domain path decoded n session = .ok o →
      buildObservation device' domain' path' decoded' n' session' = .ok o' →
      o.observationId = o'.observationId →
      session = session' ∧ device = device' ∧ path = path' ∧ n = n') ∧
    (∀ (config : Pipeline.PipelineConfig) (s t : Pipeline.State) (labels : List Pipeline.Label),
      Pipeline.spawnInner config = .ok s →
      (Pipeline.machine config).Run Machine.Always s labels t →
      (t.batches.map Pipeline.ObservationBatch.messageId).Nodup) ∧
    ∀ (fmt : DebugFmt) (showF64 : UInt64 → String) (manager : String → Option DeviceInstance)
      (session : String) (events : List PollEvent),
      (∀ d, (events.map (PollEvent.asks manager d)).sum < 2 ^ 64) →
      ((runPump fmt showF64 manager session events).observations.map
        Observation.observationId).Nodup := by
  refine ⟨?_, ?_, fun config s t labels => messageIds_nodup,
    fun fmt showF64 manager session => observationIds_nodup⟩
  · intro site site' session session' device device' n n' os os' same
    rw [new_messageId, new_messageId] at same
    exact messageId_inj same
  · intro device device' path path' session session' domain domain' decoded decoded' n n' o o'
      built built' same
    obtain ⟨rfl, rfl, rfl, named⟩ := buildObservation_eq_ok built
    obtain ⟨rfl, rfl, rfl, named'⟩ := buildObservation_eq_ok built'
    rw [named, named'] at same
    obtain ⟨sessions, devices, paths, numbers⟩ := observationId_inj same
    exact ⟨sessions, devices, paths, UInt64.toNat_inj.mp numbers⟩

/-- The two batches sent by the sample run have different identifiers. -/
theorem identifiers_unique_sample :
    ∃ t, (Pipeline.machine Pipeline.sampleConfig).Run Machine.Always .start
        Pipeline.sampleLabels t ∧
      t.emitted.map (·.sequence) = [0, 1] ∧
      (t.batches.map Pipeline.ObservationBatch.messageId).Nodup := by
  have started : Pipeline.spawnInner Pipeline.sampleConfig = .ok .start :=
    Pipeline.spawnInner_eq_ok.mpr ⟨rfl, rfl⟩
  exact Machine.Run.find (by decide) fun t run _ => identifiers_unique.2.2.1 _ _ _ _ started run

end ForgeLink.Collector
