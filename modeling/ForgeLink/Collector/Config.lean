import ForgeLink.Mqtt.Publish

/-!
# The configuration of the collector

`CollectorConfig::validate` for the site, the devices, the broker and the buffer,
and the configuration that the buffer is opened with.  The other sections (the
drivers, polling, the pipeline, REST and control) are checked by themselves, and
neither the buffer nor the client reads them; they are left out, so that more
configurations pass here.
-/

namespace ForgeLink.Collector

open Buffer

/-- `ConfigError::Invalid`. -/
structure ConfigError where
  field : String
  reason : String
deriving DecidableEq, Repr

/-- A field is refused. -/
def invalid (field reason : String) : Except ConfigError Unit := .error ⟨field, reason⟩

/-- A check that fails if `bad`. -/
def refuse (bad : Bool) (field reason : String) : Except ConfigError Unit :=
  if bad then invalid field reason else .ok ()

/-- A topic that a part of the configuration must have. -/
def checkTopic (field about : String) (topic : Except Mqtt.MqttClientError String) :
    Except ConfigError Unit :=
  match topic with
  | .ok _ => .ok ()
  | .error e => invalid field (about ++ e.text)

/-! ## The broker -/

/-- `TlsOptions`. -/
inductive TlsOptions where
  | none
  | serverAuth (caPemPath : String)
  | mutualTls (caPemPath clientCertPemPath clientKeyPemPath : String)
deriving DecidableEq, Repr

/-- `MqttOptions`, the fields that are checked. -/
structure MqttOptions where
  brokerHost : String
  brokerPort : UInt16
  keepAliveSecs : Nat
  maxPacketSize : Nat
  publishCapacity : Nat
  maxInflight : UInt16
  tls : TlsOptions
  willDeviceId : Option String
deriving DecidableEq, Repr

/-- The least `max_packet_size`. -/
def minPacketSize : Nat := 1024

/-- The certificates of `MqttOptions::validate`. -/
def TlsOptions.validate : TlsOptions → Except ConfigError Unit
  | none => .ok ()
  | serverAuth ca =>
    if ca.isEmpty then invalid "northbound.mqtt.tls.ca_pem_path" "CA 证书路径不能为空" else .ok ()
  | mutualTls ca cert key =>
    if ca.isEmpty || cert.isEmpty || key.isEmpty then
      invalid "northbound.mqtt.tls" "mTLS 需要 ca/cert/key 三个证书文件路径"
    else .ok ()

/-- `MqttOptions::validate`. -/
def MqttOptions.validate (o : MqttOptions) : Except ConfigError Unit :=
  if o.brokerHost.isEmpty then invalid "northbound.mqtt.broker_host" "Broker 主机不能为空"
  else if o.brokerPort = 0 then invalid "northbound.mqtt.broker_port" "Broker 端口必须大于 0"
  else if o.keepAliveSecs = 0 then
    invalid "northbound.mqtt.keep_alive_secs" "keep_alive 必须大于 0"
  else if o.maxPacketSize < minPacketSize then
    invalid "northbound.mqtt.max_packet_size" s!"最大报文大小不能小于 {minPacketSize}"
  else if o.publishCapacity = 0 ∨ o.maxInflight = 0 then
    invalid "northbound.mqtt" "publish_capacity 与 max_inflight 必须大于 0"
  else if o.willDeviceId = some "" then
    invalid "northbound.mqtt.will_device_id" "设备标识不能为空"
  else o.tls.validate

/-! ## The buffer -/

/-- `BufferOptions`. -/
structure BufferOptions where
  dbPath : String
  memoryRecords : Nat
  diskMaxBytes : Nat
  retentionSecs : Nat
  capacityPolicy : CapacityPolicy
  drainTimeoutSecs : Nat
deriving DecidableEq, Repr

namespace BufferOptions

/-- `BufferOptions::validate`. -/
def validate (o : BufferOptions) : Except ConfigError Unit :=
  if o.dbPath.isEmpty then invalid "buffer.db_path" "数据库路径不能为空"
  else if o.memoryRecords = 0 ∨ o.diskMaxBytes = 0 ∨ o.retentionSecs = 0 then
    invalid "buffer" "memory_records/disk_max_bytes/retention_secs 必须大于 0"
  else if o.retentionSecs * 1000000000 > i64Max then
    invalid "buffer.retention_secs" "保留时间超过 i64 纳秒范围（≈292 年）"
  else if o.drainTimeoutSecs = 0 then invalid "buffer.drain_timeout_secs" "必须大于 0"
  else .ok ()

/-- The configuration of `to_buffer_config`. -/
def toBufferConfig (o : BufferOptions) : LocalBufferConfig where
  dbPath := o.dbPath
  memoryRecords := o.memoryRecords
  diskMaxBytes := o.diskMaxBytes
  retention := o.retentionSecs * 1000000000
  capacityPolicy := o.capacityPolicy

/-- Checked options give a configuration that the buffer accepts. -/
theorem toBufferConfig_valid {o : BufferOptions} (valid : o.validate = .ok ()) :
    o.toBufferConfig.validate = .ok () := by
  unfold validate at valid
  split at valid
  · cases valid
  next path =>
    split at valid
    · cases valid
    next positive =>
      split at valid
      · cases valid
      next range =>
        simp only [not_or] at positive
        have kept : o.retentionSecs * 1000000000 ≠ 0 := by omega
        simp [LocalBufferConfig.validate, toBufferConfig, path, positive, kept, range]

end BufferOptions

/-! ## The collector -/

/-- `DeviceSpec`, the fields that are checked. -/
structure DeviceConfig where
  id : String
  driver : String
  profile : String
  enabled : Bool
deriving DecidableEq, Repr

/-- `CollectorConfig`, the sections above. -/
structure CollectorConfig where
  siteId : String
  sessionId : Option String
  devices : List DeviceConfig
  mqtt : MqttOptions
  buffer : BufferOptions
deriving DecidableEq, Repr

namespace CollectorConfig

/-- The loop over the devices; `seen` are the ids before. -/
def checkDevices (siteId : String) : List String → List DeviceConfig → Except ConfigError Unit
  | _, [] => .ok ()
  | seen, d :: devices => do
    refuse d.id.isEmpty "devices[].id" "设备标识不能为空"
    checkTopic "devices[].id" ("设备 " ++ d.id ++ " 无法构成合法主题: ")
      (Mqtt.telemetryTopic siteId d.id)
    refuse d.driver.isEmpty "devices[].driver" ("设备 " ++ d.id ++ " 未指定 Driver")
    refuse d.profile.isEmpty "devices[].profile" ("设备 " ++ d.id ++ " 未指定 Profile")
    refuse (d.id ∈ seen) "devices[].id" ("设备 " ++ d.id ++ " 重复")
    checkDevices siteId (d.id :: seen) devices

/-- The check of the device whose status is the last will. -/
def checkWill (config : CollectorConfig) : Except ConfigError Unit :=
  match config.mqtt.willDeviceId with
  | none => .ok ()
  | some will => do
    checkTopic "northbound.mqtt.will_device_id" ("设备 " ++ will ++ " 无法构成合法状态主题: ")
      (Mqtt.statusTopic config.siteId will)
    match config.devices.find? fun d => d.id = will with
    | some d =>
      refuse (!d.enabled) "northbound.mqtt.will_device_id"
        ("设备 " ++ will ++ " 已禁用，LWT 不得指向禁用设备")
    | none => invalid "northbound.mqtt.will_device_id" ("设备 " ++ will ++ " 不在设备清单中")

/-- `CollectorConfig::validate`. -/
def validate (config : CollectorConfig) : Except ConfigError Unit := do
  refuse config.siteId.isEmpty "site_id" "站点标识不能为空"
  checkTopic "site_id" "站点标识无法构成合法主题: " (Mqtt.telemetryTopic config.siteId "device")
  refuse (config.sessionId = some "") "session_id" "会话标识不能为空"
  refuse config.devices.isEmpty "devices" "至少需要一台采集设备"
  checkDevices config.siteId [] config.devices
  config.checkWill
  config.mqtt.validate
  config.buffer.validate

theorem buffer_valid {config : CollectorConfig} (valid : config.validate = .ok ()) :
    config.buffer.validate = .ok () := by
  have then_ : ∀ {x y : Except ConfigError Unit}, (x >>= fun _ => y) = .ok () → y = .ok () := by
    intro x y h
    cases x with
    | error e => cases h
    | ok _ => exact h
  exact then_ (then_ (then_ (then_ (then_ (then_ (then_ valid))))))

end CollectorConfig

end ForgeLink.Collector
