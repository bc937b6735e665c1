import ForgeLink.Control.Model

/-!
# Policy and operations

`policy.rs`: the queue priorities, the timeouts and the periods that the engine
and the queue read.  `validate.rs`: the operation an accepted request becomes,
and the stable form of a driver error.  `queue.rs`: how the executor's outcome
becomes a result (`run_operation`), and how a finished run becomes the result
that is settled (`settle_entry`).
-/

namespace ForgeLink.Control

/-! ## Policy -/

/-- `Priority`, in ascending order. -/
inductive Priority where
  | low
  | medium
  | high
  | critical
deriving DecidableEq, Repr

/-- `Priority as i64`. -/
def Priority.toInt : Priority → Int
  | .low => 0
  | .medium => 1
  | .high => 2
  | .critical => 3

/-- The priorities in the order a `BTreeMap` iterates them. -/
def Priority.ascending : List Priority := [.low, .medium, .high, .critical]

/-- `CommandRiskLevel`. -/
inductive CommandRiskLevel where
  | low
  | medium
  | high
  | critical
deriving DecidableEq, Repr

/-- `OperationKind`. -/
inductive OperationKind where
  | propertyWrite
  | command (risk : CommandRiskLevel)
deriving DecidableEq, Repr

/-- `ControlPolicy`, the fields that the engine and the queue read.  The
precondition checker is a parameter of a run; the policy says whether there is
one. -/
structure ControlPolicy where
  queueCapacity : Nat
  propertyWritePriority : Priority
  commandPriority : CommandRiskLevel → Option Priority
  preconditionChecker : Bool
  preconditionTimeoutMs : Nat
  priorityAgingMs : Nat
  indeterminateCooldownMs : Nat

namespace ControlPolicy

/-- The priority of an operation. -/
def priority (p : ControlPolicy) : OperationKind → Priority
  | .propertyWrite => p.propertyWritePriority
  | .command risk => (p.commandPriority risk).getD .medium

/-- `ControlPolicy::default`. -/
def default : ControlPolicy where
  queueCapacity := 64
  propertyWritePriority := .medium
  commandPriority
    | .low => some .low
    | .medium => some .medium
    | .high => some .high
    | .critical => some .critical
  preconditionChecker := false
  preconditionTimeoutMs := 1000
  priorityAgingMs := 10000
  indeterminateCooldownMs := 5000

end ControlPolicy

/-! ## Operations -/

/-- `ValidatedOperation`: a batch write, each item with its path, or a command
with its preconditions. -/
inductive ValidatedOperation where
  | write (items : List (Nat × PropertyPath))
  | execute (riskLevel : CommandRiskLevel) (preconditions : List String)
deriving DecidableEq, Repr

/-- The kind of an operation. -/
def ValidatedOperation.kind : ValidatedOperation → OperationKind
  | .write _ => .propertyWrite
  | .execute risk _ => .command risk

/-- The driver codes that are shown as they are. -/
def driverCodeWhitelist : List String :=
  ["driver_load_failed", "driver_entry_not_found", "driver_manifest_entry_invalid",
    "driver_entry_null", "driver_struct_too_small", "driver_abi_incompatible",
    "driver_manifest_abi_mismatch", "driver_missing_function", "driver_create_failed",
    "driver_call_failed", "driver_empty_response", "driver_invalid_response",
    "driver_invalid_handle", "driver_encoding_error", "driver_request_timeout",
    "driver_read_panicked", "connection_failed", "connection_lost", "timeout",
    "modbus_exception", "invalid_response", "invalid_address", "config_error", "decode_error"]

/-- A code that is not listed is hidden. -/
def whitelistDriverCode (code : String) : String :=
  if code ∈ driverCodeWhitelist then code else "driver_error"

/-- `map_driver_error`: the driver's own message is not passed on. -/
def mapDriverError (info : DriverErrorInfo) : ControlError :=
  let code := whitelistDriverCode info.code
  { code
    message := "Driver 错误（" ++ code ++ "）"
    details := info.protocolCode.map fun n =>
      { text := "\x7b\"protocol_code\":" ++ toString n ++ "\x7d", depth := 1 } }

/-! ## Running an operation -/

/-- The result `run_operation` starts from. -/
def runBase (deviceId : DeviceId) (startedAtNs : TimestampNs) : ControlResult :=
  { requestId := "", ns := "", deviceId, status := .running, startedAtNs := some startedAtNs
    completedAtNs := none, result := none, error := none }

/-- The result of one item of a batch write. -/
def writeItemResult (rawResults : List RawWriteResult) (item : Nat × PropertyPath) :
    PropertyWriteItemResult :=
  match rawResults.find? fun r => r.itemId = item.1 with
  | some raw =>
    { path := item.2, success := raw.success, protocolCode := raw.protocolCode
      error := raw.error.map mapDriverError }
  | none =>
    { path := item.2, success := false, protocolCode := none
      error := some
        { code := "DRIVER_NO_ITEM_RESULT"
          message := "写入项 " ++ toString item.1 ++ " 无执行结果", details := none } }

/-- `run_operation` on the outcome of a write. -/
def writeResult (base : ControlResult) (items : List (Nat × PropertyPath)) :
    WriteOutcome → ControlResult
  | .succeeded rawResults =>
    let itemResults := items.map (writeItemResult rawResults)
    let anyFailed := itemResults.any fun r => !r.success
    { base with
      status := if anyFailed then .failed else .succeeded
      error :=
        if anyFailed then
          some
            { code := "PARTIAL_WRITE_FAILURE", message := "批量写入存在失败项（详见逐项结果）"
              details := none }
        else none
      result := some (.propertyWrite itemResults) }
  | .failed info => { base with status := .failed, error := some (mapDriverError info) }
  | .indeterminate info =>
    { base with status := .indeterminate, error := some (mapDriverError info) }

/-- `run_operation` on the outcome of a command. -/
def executeResult (base : ControlResult) : ExecuteOutcome → ControlResult
  | .succeeded raw =>
    if raw.success then
      { base with
        status := .succeeded
        result := some (.command
          { deviceCode := raw.protocolCode, message := none, payload := raw.payload }) }
    else
      { base with
        status := .failed
        error := some ((raw.error.map mapDriverError).getD
          { code := "driver_error", message := "设备拒绝命令", details := none }) }
  | .failed info => { base with status := .failed, error := some (mapDriverError info) }
  | .indeterminate info =>
    { base with status := .indeterminate, error := some (mapDriverError info) }

/-- What the executor answers. -/
inductive Outcome where
  | write (outcome : WriteOutcome)
  | execute (outcome : ExecuteOutcome)
deriving DecidableEq, Repr

/-- `run_operation` after the executor's answer; `none` if it answers the other
kind of call. -/
def ValidatedOperation.result (base : ControlResult) :
    ValidatedOperation → Outcome → Option ControlResult
  | .write items, .write outcome => some (writeResult base items outcome)
  | .execute _ _, .execute outcome => some (executeResult base outcome)
  | _, _ => none

/-- How the precondition check just before the call fails. -/
inductive CheckFailure where
  | unconfigured
  | timeout
  | failed (message : String)
deriving DecidableEq, Repr

/-- The error of a failed precondition check. -/
def CheckFailure.error (policy : ControlPolicy) : CheckFailure → ControlError
  | .unconfigured =>
    { code := "PRECONDITION_UNCONFIGURED", message := "命令声明了前置条件但引擎未配置前置条件检查器"
      details := none }
  | .timeout =>
    { code := "PRECONDITION_TIMEOUT"
      message := "前置条件检查超时（" ++ toString policy.preconditionTimeoutMs ++ " ms）"
      details := none }
  | .failed message => { code := "PRECONDITION_FAILED", message, details := none }

/-- The result when the precondition check fails: nothing was sent. -/
def checkFailedResult (policy : ControlPolicy) (base : ControlResult) (failure : CheckFailure) :
    ControlResult :=
  { base with status := .failed, error := some (failure.error policy) }

/-! ## Settling a run -/

/-- How the run of an operation ends. -/
inductive RunResult where
  | done (result : ControlResult)
  | timeout
  | cancelled
  | indeterminate (code message : String)
deriving DecidableEq, Repr

/-- The result of an entry that did not run to its end. -/
def unfinishedResult (key : IdempotencyKey) (status : ControlStatus)
    (startedAtNs : Option TimestampNs) (code message : String) : ControlResult :=
  { requestId := key.requestId, ns := key.ns, deviceId := key.deviceId, status, startedAtNs
    completedAtNs := none, result := none, error := some { code, message, details := none } }

/-- The result `settle_entry` persists: the run's result under the entry's
identity. -/
def settledResult (key : IdempotencyKey) (run : RunResult) (completedAtNs : TimestampNs) :
    ControlResult :=
  let result :=
    match run with
    | .done result => result
    | .timeout => unfinishedResult key .timeout none "TIMEOUT" "控制请求未在期限内完成"
    | .cancelled => unfinishedResult key .cancelled none "CANCELLED" "控制请求已被取消"
    | .indeterminate code message =>
      unfinishedResult key .indeterminate (some completedAtNs) code message
  { result with
    completedAtNs := some completedAtNs, requestId := key.requestId, ns := key.ns }

/-- What a result becomes when the journal did not take it. -/
def journalSettleFailed (result : ControlResult) : ControlResult :=
  { result with
    status := .indeterminate
    error := some
      { code := "JOURNAL_SETTLE_FAILED", message := "幂等结算持久化失败，结果不确定"
        details := none } }

/-- The outcome of a run leaves open whether the device acted. -/
def RunResult.unknown : RunResult → Bool
  | .indeterminate _ _ => true
  | .done result => result.status = .indeterminate
  | _ => false

end ForgeLink.Control
