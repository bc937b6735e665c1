import ForgeLink.Lib.Lines
import ForgeLink.Lib.AutoTable
import Mathlib.Algebra.Ring.Nat

/-!
# Records of the local buffer

The data of `local-buffer`: the configuration, the errors, the records and the
table `batches`.  A record in memory and a row of the table have the same
fields, and `MemRecord` is both.

Three things come from outside the crate and are parameters (`Serde`): the JSON
of a batch and the debug form of a string in an error text.  Of SQLite the model
has the table `batches`, with the numbers and the unique `message_id` its
schema gives it, the `length()` of a text, which counts characters up to the
first NUL, and the limit on the size of a database.  A statement may fail for
any reason; it then leaves the table as it is.

`sent_count` is read and written with casts between `i64` and `u64`, so it is a
`UInt64` on both sides.  `i64` sequences and clocks are integers.
-/

namespace ForgeLink.Buffer

open Lib

/-! ## Configuration and errors -/

/-- What a push does when there is no room. -/
inductive CapacityPolicy where
  | backpressure
  | reject
deriving DecidableEq, Repr

/-- Which of the two capacities is exhausted. -/
inductive CapacityKind where
  | memory
  | disk
deriving DecidableEq, Repr

/-- `LocalBufferError`. -/
inductive LocalBufferError where
  | invalidConfig (field reason : String)
  | invalidBatch (reason : String)
  | capacityExceeded (kind : CapacityKind) (limit current requested : Nat)
  | corrupt (reason : String)
  | db (reason : String)
  | closed
  | workerFailed (reason : String)
deriving DecidableEq, Repr

/-- `LocalBufferConfig`; the retention is in nanoseconds. -/
structure LocalBufferConfig where
  dbPath : String
  memoryRecords : Nat
  diskMaxBytes : Nat
  retention : Nat
  capacityPolicy : CapacityPolicy
deriving DecidableEq, Repr

/-- `i64::MAX`. -/
def i64Max : Nat := 2 ^ 63 - 1

/-- The configurations that `open` accepts. -/
def LocalBufferConfig.validate (config : LocalBufferConfig) : Except LocalBufferError Unit :=
  if config.dbPath.isEmpty then .error (.invalidConfig "db_path" "数据库文件路径不能为空")
  else if config.memoryRecords = 0 then
    .error (.invalidConfig "memory_records" "内存队列容量必须大于 0")
  else if config.diskMaxBytes = 0 then
    .error (.invalidConfig "disk_max_bytes" "磁盘容量上限必须大于 0")
  else if config.retention = 0 then .error (.invalidConfig "retention" "保留时间必须大于 0")
  else if config.retention > i64Max then
    .error (.invalidConfig "retention" "保留时间超过 i64 纳秒范围（≈292 年）")
  else .ok ()

theorem LocalBufferConfig.memoryRecords_pos {config : LocalBufferConfig}
    (valid : config.validate = .ok ()) : 0 < config.memoryRecords := by
  refine Nat.pos_of_ne_zero fun zero => ?_
  rw [validate, zero] at valid
  split at valid <;> cases valid

/-! ## Batches and records -/

/-- `ObservationBatch`.  The fields that the buffer only serialises are one
value. -/
structure ObservationBatch where
  messageId : String
  siteId : String
  deviceId : String
  replayed : Bool
  rest : Bytes
deriving DecidableEq, Repr

/-- What the buffer uses from other crates. -/
structure Serde where
  /-- `serde_json::to_vec`; an error is its text. -/
  toVec : ObservationBatch → Except String Bytes
  /-- `serde_json::from_slice`. -/
  fromSlice : Bytes → Except String ObservationBatch
  /-- The `{:?}` of a string. -/
  debug : String → String

/-- A record in memory, and a row of the table. -/
structure MemRecord where
  localSeq : Int
  messageId : String
  topic : String
  payload : Bytes
  createdAtNs : Int
  sentCount : UInt64
deriving DecidableEq, Repr

/-- What `next` hands out. -/
structure StoredBatch where
  localSeq : Int
  topic : String
  batch : ObservationBatch
deriving DecidableEq, Repr

/-- What a record costs beyond its texts and its payload. -/
def fixedOverheadPerRecord : Nat := 512

/-- What a record counts against the capacity. -/
def recordCost (record : MemRecord) : Nat :=
  record.payload.length + record.topic.utf8ByteSize + record.messageId.utf8ByteSize +
    fixedOverheadPerRecord

/-- The sum of `record_cost`. -/
def totalCost (records : List MemRecord) : Nat := (records.map recordCost).sum

/-- The characters that a topic segment must not have because MQTT rejects
them: the control characters. -/
def isControl (c : Char) : Bool := c.toNat ≤ 0x1F || c.toNat = 0x7F

/-- `telemetry_topic`, for one segment. -/
def checkSegment (serde : Serde) (field segment : String) : Except LocalBufferError Unit :=
  if segment.isEmpty || segment.toList.any (fun c => c = '/' || c = '+' || c = '#') then
    .error (.invalidBatch (field ++ " 非法（不得为空或包含 /+\\#）: " ++ serde.debug segment))
  else if segment.toList.any isControl then
    .error (.invalidBatch
      (field ++ " 非法（包含控制字符，MQTT 必然拒绝）: " ++ serde.debug segment))
  else .ok ()

/-- The topic of a batch, or why there is none. -/
def telemetryTopic (serde : Serde) (batch : ObservationBatch) : Except LocalBufferError String := do
  let topic := "forgelink/v1/telemetry/" ++ batch.siteId ++ "/" ++ batch.deviceId
  checkSegment serde "site_id" batch.siteId
  checkSegment serde "device_id" batch.deviceId
  if topic.utf8ByteSize > 65535 then
    .error (.invalidBatch ("Topic 超过 65535 字节上限（MQTT 必然拒绝）: " ++ serde.debug topic))
  else .ok topic

/-! ## The table -/

/-- The table `batches`. -/
abbrev Batches := AutoTable MemRecord.localSeq MemRecord.messageId

/-- SQLite's `length()` of a text: its characters up to the first NUL. -/
def sqlLength (text : String) : Nat := (text.toList.takeWhile fun c => c ≠ '\x00').length

/-- The largest size of an SQLite database, in bytes. -/
def maxDatabaseBytes : Nat := 2 ^ 48

/-- What a row takes in the database at least: its values and a header. -/
def storedBytes (record : MemRecord) : Nat :=
  record.payload.length + record.topic.utf8ByteSize + record.messageId.utf8ByteSize + 1

/-- The outcome of a statement: the error text if it fails. -/
abbrev Fault := Option String

/-- The record as it is inserted: the table gives it its number. -/
def MemRecord.draft (record : MemRecord) : AutoTable.Draft MemRecord.localSeq where
  row n := { record with localSeq := n }
  seq_row _ := rfl

/-- `UPDATE batches SET sent_count`. -/
def sentCountTo (sentCount : UInt64) :
    AutoTable.Touch MemRecord.localSeq MemRecord.messageId where
  apply record := { record with sentCount }
  seq_apply _ := rfl
  unique_apply _ := rfl

namespace Batches

/-- `insert_record` with the number the row gets.  The statement fails with a
given error, because of the unique `message_id`, or because the database is
full. -/
def insertRecord (t : Batches) (record : MemRecord) (outcome : Except String Nat) :
    Except LocalBufferError (Int × Batches) :=
  match outcome with
  | .error reason => .error (.db reason)
  | .ok gap =>
    if (t.rows.map storedBytes).sum + storedBytes record > maxDatabaseBytes then
      .error (.db "database or disk is full")
    else
      match t.insert record.draft gap with
      | some t' => .ok (t.number gap, t')
      | none => .error (.db "UNIQUE constraint failed: batches.message_id")

/-- `DELETE FROM batches WHERE local_seq = ?1`. -/
def delete (t : Batches) (localSeq : Int) : Batches := t.filter fun r => r.localSeq ≠ localSeq

/-- The byte total that `open_db` asks SQLite for. -/
def sqlBytes (t : Batches) : Nat :=
  (t.rows.map fun r =>
    r.payload.length + sqlLength r.topic + sqlLength r.messageId + fixedOverheadPerRecord).sum

theorem insertRecord_ok {t t' : Batches} {record : MemRecord} {outcome : Except String Nat}
    {n : Int} (h : t.insertRecord record outcome = .ok (n, t')) :
    ∃ gap, outcome = .ok gap ∧ n = t.number gap ∧ t.insert record.draft gap = some t' ∧
      (t.rows.map storedBytes).sum + storedBytes record ≤ maxDatabaseBytes := by
  cases outcome with
  | error reason => cases h
  | ok gap =>
    simp only [insertRecord] at h
    split at h
    · cases h
    next small =>
      split at h
      next inserted =>
        cases h
        exact ⟨gap, rfl, rfl, inserted, Nat.le_of_not_gt small⟩
      · cases h

end Batches

end ForgeLink.Buffer
