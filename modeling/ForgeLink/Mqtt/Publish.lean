import ForgeLink.Buffer.WorkerCapacity
import ForgeLink.Lib.Strings
import ForgeLink.Lib.Weakest

/-!
# Publishing a batch

What `MqttClient::publish_batch` checks before a message enters the queue of the
client: the topic and the size of the packet.  The topic of a batch is the one
that the buffer has stored with it (`telemetryTopic_ok_iff`), so the only thing
that the client can find wrong with a batch of the buffer is its size
(`publishBatch_ok_iff`).
-/

namespace ForgeLink.Mqtt

open Lib Buffer

/-- `MqttClientError`. -/
inductive MqttClientError where
  | invalidConfig (field reason : String)
  | invalidTopic (topic reason : String)
  | invalidPayload (reason : String)
  | payloadTooLarge (size max : Nat)
  | closed
  | publishFailed (reason : String)
  | collisionOverwritten
  | disconnected (reason : String)
  | taskFailed (reason : String)
deriving DecidableEq, Repr

/-- `MqttClientError` as text. -/
def MqttClientError.text : MqttClientError → String
  | invalidConfig field reason => s!"mqtt-client 配置非法（{field}）: {reason}"
  | invalidTopic topic reason => s!"mqtt-client 主题非法（{topic}）: {reason}"
  | invalidPayload reason => s!"mqtt-client 载荷非法: {reason}"
  | payloadTooLarge size max => s!"mqtt-client 载荷 {size} 字节超过报文上限 {max} 字节"
  | closed => "mqtt-client 已关闭"
  | publishFailed reason => s!"mqtt-client 发布请求失败: {reason}"
  | collisionOverwritten => "mqtt-client 发布请求被包标识碰撞覆盖丢弃（消息未送达）"
  | disconnected reason => s!"mqtt-client 重连失败已达到上限: {reason}"
  | taskFailed reason => s!"mqtt-client 后台任务异常终止: {reason}"

/-! ## Checks -/

/-- A segment is not empty and has no slash. -/
def validatePathSegment (field value topic : String) : Except MqttClientError Unit :=
  if value.isEmpty then .error (.invalidTopic topic s!"{field} 不能为空")
  else if value.toList.any (· = '/') then
    .error (.invalidTopic topic s!"{field} 不能包含 '/'（主题路径分隔符，§31.1）")
  else .ok ()

/-- A topic that a broker takes. -/
def validatePublishTopic (topic : String) : Except MqttClientError Unit :=
  if topic.isEmpty then .error (.invalidTopic topic "发布主题不能为空")
  else if topic.utf8ByteSize > 65535 then
    .error (.invalidTopic topic "发布主题超过 65535 字节上限")
  else if topic.toList.any fun c => c = '#' || c = '+' then
    .error (.invalidTopic topic "发布主题不允许通配符（# / +）")
  else if topic.toList.any isControl then
    .error (.invalidTopic topic "发布主题不允许包含控制字符")
  else .ok ()

/-- `telemetry_topic` and `status_topic`; `kind` is the third level of the topic. -/
def deviceTopic (kind siteId deviceId : String) : Except MqttClientError String := do
  let topic := "forgelink/v1/" ++ kind ++ "/" ++ siteId ++ "/" ++ deviceId
  validatePathSegment "site_id" siteId topic
  validatePathSegment "device_id" deviceId topic
  validatePublishTopic topic
  .ok topic

/-- The topic of telemetry. -/
def telemetryTopic (siteId deviceId : String) : Except MqttClientError String :=
  deviceTopic "telemetry" siteId deviceId

/-- The topic of the status. -/
def statusTopic (siteId deviceId : String) : Except MqttClientError String :=
  deviceTopic "status" siteId deviceId

/-- The bytes of a packet beyond its topic and its payload. -/
def publishOverheadMax : Nat := 5 + 2 + 2

/-- A packet is not too large. -/
def validatePayloadSize (topic : String) (payload : Bytes) (maxPacketSize : Nat) :
    Except MqttClientError Unit :=
  let size := publishOverheadMax + topic.utf8ByteSize + payload.length
  if size > maxPacketSize then .error (.payloadTooLarge size maxPacketSize) else .ok ()

/-- `publish_inner` up to the queue: the message that enters it. -/
def publishInner (maxPacketSize : Nat) (topic : String) (payload : Bytes) :
    Except MqttClientError (String × Bytes) := do
  validatePublishTopic topic
  validatePayloadSize topic payload maxPacketSize
  .ok (topic, payload)

/-- `publish_batch` up to the queue. -/
def publishBatch (maxPacketSize : Nat) (serde : Serde) (batch : ObservationBatch) :
    Except MqttClientError (String × Bytes) := do
  let topic ← telemetryTopic batch.siteId batch.deviceId
  match serde.toVec batch with
  | .error e => .error (.invalidPayload e)
  | .ok payload => publishInner maxPacketSize topic payload

/-! ## Topics -/

/-- A segment that both crates accept. -/
def Segment (text : String) : Prop :=
  text.isEmpty = false ∧
    ∀ c ∈ text.toList, c ≠ '/' ∧ c ≠ '+' ∧ c ≠ '#' ∧ isControl c = false

/-- The segments of a topic that are allowed. -/
theorem checkSegment_ok_iff (serde : Serde) (field segment : String) :
    checkSegment serde field segment = .ok () ↔ Segment segment := by
  unfold checkSegment Segment
  cases segment.isEmpty with
  | true => simp
  | false =>
    simp only [Bool.false_or, true_and]
    split
    next bad =>
      obtain ⟨c, inside, wrong⟩ := List.any_eq_true.mp bad
      simp only [Bool.or_eq_true, decide_eq_true_eq] at wrong
      refine ⟨nofun, fun fine => ?_⟩
      obtain ⟨slash, plus, hash, _⟩ := fine c inside
      simp [slash, plus, hash] at wrong
    next good =>
      split
      next bad =>
        obtain ⟨c, inside, control⟩ := List.any_eq_true.mp bad
        refine ⟨nofun, fun fine => ?_⟩
        rw [(fine c inside).2.2.2] at control
        cases control
      next calm =>
        refine ⟨fun _ c inside => ?_, fun _ => rfl⟩
        simp only [List.any_eq_true, Bool.or_eq_true, decide_eq_true_eq, not_exists, not_and,
          not_or, Bool.not_eq_true] at good calm
        obtain ⟨⟨slash, plus⟩, hash⟩ := good c inside
        exact ⟨slash, plus, hash, calm c inside⟩

theorem validatePathSegment_ok_iff (field value topic : String) :
    validatePathSegment field value topic = .ok () ↔
      value.isEmpty = false ∧ ∀ c ∈ value.toList, c ≠ '/' := by
  unfold validatePathSegment
  cases value.isEmpty with
  | true => simp
  | false =>
    simp only [Bool.false_eq_true, if_false, true_and, List.any_eq_true, decide_eq_true_eq]
    split
    next slash =>
      obtain ⟨c, inside, eq⟩ := slash
      exact ⟨nofun, fun fine => absurd eq (fine c inside)⟩
    next fine => exact ⟨fun _ c inside eq => fine ⟨c, inside, eq⟩, fun _ => rfl⟩

/-- The topics that may be published to. -/
theorem validatePublishTopic_ok_iff (topic : String) :
    validatePublishTopic topic = .ok () ↔ topic.isEmpty = false ∧ topic.utf8ByteSize ≤ 65535 ∧
      ∀ c ∈ topic.toList, c ≠ '#' ∧ c ≠ '+' ∧ isControl c = false := by
  unfold validatePublishTopic
  cases topic.isEmpty with
  | true => simp
  | false =>
    simp only [Bool.false_eq_true, if_false, true_and]
    split
    next long => exact ⟨nofun, fun h => absurd h.1 (Nat.not_le_of_lt long)⟩
    next short =>
      simp only [Nat.le_of_not_lt short, true_and]
      split
      next wild =>
        obtain ⟨c, inside, wrong⟩ := List.any_eq_true.mp wild
        simp only [Bool.or_eq_true, decide_eq_true_eq] at wrong
        refine ⟨nofun, fun fine => ?_⟩
        obtain ⟨hash, plus, _⟩ := fine c inside
        simp [hash, plus] at wrong
      next tame =>
        split
        next bad =>
          obtain ⟨c, inside, control⟩ := List.any_eq_true.mp bad
          refine ⟨nofun, fun fine => ?_⟩
          rw [(fine c inside).2.2] at control
          cases control
        next calm =>
          refine ⟨fun _ c inside => ?_, fun _ => rfl⟩
          simp only [List.any_eq_true, Bool.or_eq_true, decide_eq_true_eq, not_exists, not_and,
            not_or, Bool.not_eq_true] at tame calm
          obtain ⟨hash, plus⟩ := tame c inside
          exact ⟨hash, plus, calm c inside⟩

/-- The topic of a batch. -/
def topicOf (siteId deviceId : String) : String :=
  "forgelink/v1/telemetry/" ++ siteId ++ "/" ++ deviceId

theorem mem_toList_append₄ {a b d e : String} {c : Char} :
    c ∈ (a ++ b ++ d ++ e).toList ↔ c ∈ a.toList ∨ c ∈ b.toList ∨ c ∈ d.toList ∨ c ∈ e.toList := by
  simp only [String.toList_append, List.mem_append, or_assoc]

/-- The characters of a topic are those of its segments, and fixed ones. -/
theorem mem_topicOf {siteId deviceId : String} {c : Char} :
    c ∈ (topicOf siteId deviceId).toList ↔
      c ∈ "forgelink/v1/telemetry/".toList ∨ c ∈ siteId.toList ∨ c ∈ "/".toList ∨
        c ∈ deviceId.toList :=
  mem_toList_append₄

/-- The topics that the buffer makes. -/
theorem bufferTopic_ok_iff (serde : Serde) (batch : ObservationBatch) (topic : String) :
    Buffer.telemetryTopic serde batch = .ok topic ↔
      Segment batch.siteId ∧ Segment batch.deviceId ∧
        (topicOf batch.siteId batch.deviceId).utf8ByteSize ≤ 65535 ∧
        topic = topicOf batch.siteId batch.deviceId := by
  rw [← checkSegment_ok_iff serde "site_id", ← checkSegment_ok_iff serde "device_id"]
  unfold Buffer.telemetryTopic topicOf
  generalize "forgelink/v1/telemetry/" ++ batch.siteId ++ "/" ++ batch.deviceId = name
  cases checkSegment serde "site_id" batch.siteId with
  | error e => simp [bind, Except.bind]
  | ok _ =>
    cases checkSegment serde "device_id" batch.deviceId with
    | error e => simp [bind, Except.bind]
    | ok _ =>
      simp only [bind, Except.bind, true_and]
      split
      next long => exact ⟨nofun, fun h => absurd h.1 (Nat.not_le_of_lt long)⟩
      next short =>
        rw [Except.ok.injEq]
        exact ⟨fun eq => ⟨Nat.le_of_not_lt short, eq.symm⟩, fun h => h.2.symm⟩

theorem deviceTopic_ok_iff (kind siteId deviceId topic : String) :
    deviceTopic kind siteId deviceId = .ok topic ↔
      validatePathSegment "site_id" siteId topic = .ok () ∧
      validatePathSegment "device_id" deviceId topic = .ok () ∧
      validatePublishTopic topic = .ok () ∧
      topic = "forgelink/v1/" ++ kind ++ "/" ++ siteId ++ "/" ++ deviceId := by
  unfold deviceTopic
  generalize "forgelink/v1/" ++ kind ++ "/" ++ siteId ++ "/" ++ deviceId = name
  constructor
  · intro h
    obtain ⟨_, first, h⟩ := bind_eq_ok.mp h
    obtain ⟨_, second, h⟩ := bind_eq_ok.mp h
    obtain ⟨_, third, h⟩ := bind_eq_ok.mp h
    cases h
    exact ⟨first, second, third, rfl⟩
  · rintro ⟨first, second, third, rfl⟩
    simp [first, second, third, bind, Except.bind]

theorem topicOf_eq (siteId deviceId : String) :
    "forgelink/v1/" ++ "telemetry" ++ "/" ++ siteId ++ "/" ++ deviceId =
      topicOf siteId deviceId := by
  have start : "forgelink/v1/" ++ "telemetry" ++ "/" = "forgelink/v1/telemetry/" := by
    decide
  unfold topicOf
  exact congrArg (fun text => text ++ siteId ++ "/" ++ deviceId) start

/-- The topics that are made. -/
theorem telemetryTopic_eq_ok_iff (siteId deviceId topic : String) :
    telemetryTopic siteId deviceId = .ok topic ↔
      Segment siteId ∧ Segment deviceId ∧ (topicOf siteId deviceId).utf8ByteSize ≤ 65535 ∧
        topic = topicOf siteId deviceId := by
  rw [telemetryTopic, deviceTopic_ok_iff, topicOf_eq, validatePathSegment_ok_iff,
    validatePathSegment_ok_iff, validatePublishTopic_ok_iff]
  constructor
  · rintro ⟨⟨site, site_chars⟩, ⟨device, device_chars⟩, ⟨_, short, chars⟩, rfl⟩
    refine ⟨⟨site, fun c inside => ?_⟩, ⟨device, fun c inside => ?_⟩, short, rfl⟩
    · obtain ⟨hash, plus, calm⟩ := chars c (mem_topicOf.mpr (.inr (.inl inside)))
      exact ⟨site_chars c inside, plus, hash, calm⟩
    · obtain ⟨hash, plus, calm⟩ := chars c (mem_topicOf.mpr (.inr (.inr (.inr inside))))
      exact ⟨device_chars c inside, plus, hash, calm⟩
  · rintro ⟨⟨site, site_chars⟩, ⟨device, device_chars⟩, short, rfl⟩
    refine ⟨⟨site, fun c inside => (site_chars c inside).1⟩,
      ⟨device, fun c inside => (device_chars c inside).1⟩, ⟨?_, short, fun c inside => ?_⟩, rfl⟩
    · rw [String.isEmpty_eq_false_iff]
      intro empty
      have slash : '/' ∈ (topicOf siteId deviceId).toList :=
        mem_topicOf.mpr (.inr (.inr (.inl (by decide))))
      rw [empty] at slash
      exact absurd slash (by decide)
    · have fixed : ∀ c ∈ "forgelink/v1/telemetry/".toList ++ "/".toList,
          c ≠ '#' ∧ c ≠ '+' ∧ isControl c = false := by
        have checked : ("forgelink/v1/telemetry/".toList ++ "/".toList).all
            (fun c => decide (c ≠ '#' ∧ c ≠ '+' ∧ isControl c = false)) = true := by decide
        exact fun c inside => of_decide_eq_true (List.all_eq_true.mp checked c inside)
      rcases mem_topicOf.mp inside with head | in_site | slash | in_device
      · exact fixed c (List.mem_append_left _ head)
      · obtain ⟨_, plus, hash, calm⟩ := site_chars c in_site
        exact ⟨hash, plus, calm⟩
      · exact fixed c (List.mem_append_right _ slash)
      · obtain ⟨_, plus, hash, calm⟩ := device_chars c in_device
        exact ⟨hash, plus, calm⟩

/-- Both crates give a batch the same topic, or none. -/
theorem telemetryTopic_ok_iff (serde : Serde) (batch : ObservationBatch) (topic : String) :
    Buffer.telemetryTopic serde batch = .ok topic ↔
      telemetryTopic batch.siteId batch.deviceId = .ok topic := by
  rw [bufferTopic_ok_iff, telemetryTopic_eq_ok_iff]

/-- A topic tells the kind, the site and the device that it was made for: no two devices
share a topic, and no device has the same topic for telemetry and status. -/
theorem deviceTopic_inj {kind kind' siteId siteId' deviceId deviceId' topic : String}
    (plain : ∀ c ∈ kind.toList, c ≠ '/') (plain' : ∀ c ∈ kind'.toList, c ≠ '/')
    (made : deviceTopic kind siteId deviceId = .ok topic)
    (made' : deviceTopic kind' siteId' deviceId' = .ok topic) :
    kind = kind' ∧ siteId = siteId' ∧ deviceId = deviceId' := by
  obtain ⟨site, _, _, rfl⟩ := (deviceTopic_ok_iff ..).mp made
  obtain ⟨site', _, _, eq⟩ := (deviceTopic_ok_iff ..).mp made'
  have segment := ((validatePathSegment_ok_iff ..).mp site).2
  have segment' := ((validatePathSegment_ok_iff ..).mp site').2
  simp only [← String.toList_inj, String.toList_append, List.append_assoc,
    List.append_cancel_left_eq] at eq ⊢
  -- The first '/' ends the kind, and the next one the site.
  obtain ⟨kinds, _, eq⟩ := Str.cut_unique plain plain' (by decide) (by decide) eq
  obtain ⟨sites, _, devices⟩ :=
    Str.cut_unique segment segment' (by decide) (by decide) eq
  exact ⟨kinds, sites, devices⟩

theorem deviceTopic_inj_press :
    statusTopic "plant" "press" = .ok "forgelink/v1/status/plant/press" ∧
      "status" = "status" ∧ "plant" = "plant" ∧ "press" = "press" := by
  have made : statusTopic "plant" "press" = .ok "forgelink/v1/status/plant/press" := by
    decide
  exact ⟨made, deviceTopic_inj (by simp) (by simp) made made⟩

/-! ## Batches -/

/-- Of a batch with a topic the client checks the size only. -/
theorem publishBatch_ok_iff {maxPacketSize : Nat} {serde : Serde} {batch : ObservationBatch}
    {topic : String} (named : telemetryTopic batch.siteId batch.deviceId = .ok topic)
    (message : String × Bytes) :
    publishBatch maxPacketSize serde batch = .ok message ↔
      ∃ payload, serde.toVec batch = .ok payload ∧ message = (topic, payload) ∧
        publishOverheadMax + topic.utf8ByteSize + payload.length ≤ maxPacketSize := by
  have published := ((deviceTopic_ok_iff ..).mp named).2.2.1
  unfold publishBatch
  rw [named]
  simp only [bind, Except.bind]
  cases serde.toVec batch with
  | error e => simp
  | ok payload =>
    simp only [publishInner, published, validatePayloadSize, bind, Except.bind]
    split
    next large =>
      split at large
      · simp only [Except.ok.injEq, reduceCtorEq, false_iff, not_exists, not_and]
        rintro _ rfl _ fits
        omega
      · cases large
    next small =>
      split at small
      · cases small
      next fits => simp [eq_comm, Nat.le_of_not_lt fits]

end ForgeLink.Mqtt

