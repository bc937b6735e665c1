import Mathlib.Algebra.Ring.Int.Defs
import Mathlib.Algebra.Ring.Nat
import Mathlib.Logic.Function.Basic

/-!
# The control data model

The types that the control engine's queue, journal and submit path share: the
idempotency key, the status and the result of a control request, and what a
driver answers.  They follow `observation-model` (`control.rs`, `command.rs`)
and `driver-contract` (`results.rs`).

A `serde_json::Value` is never inspected by the control engine; it is kept as
its text and the nesting depth of that text, which is what decides whether a
reader accepts it again.  Timestamps are `i64` nanoseconds, kept as integers.
-/

namespace ForgeLink.Control

/-- A device. -/
abbrev DeviceId := String

/-- The path of a property. -/
abbrev PropertyPath := String

/-- `TimestampNs`: UTC nanoseconds since the epoch, an `i64`. -/
abbrev TimestampNs := Int

/-- `std::time::Instant`: nanoseconds on the monotonic clock. -/
abbrev Instant := Nat

/-- The largest `i64`. -/
def i64Max : Int := 2 ^ 63 - 1

/-- The smallest `i64`. -/
def i64Min : Int := -2 ^ 63

/-- The nearest `i64`: what saturating arithmetic returns. -/
def saturate (n : Int) : Int := max i64Min (min i64Max n)

/-- `as i64` on a `u64`: the upper half wraps to the negative numbers. -/
def asI64 (n : Nat) : Int := if (n : Int) ≤ i64Max then n else n - 2 ^ 64

/-- `Duration::from_millis`, in the nanoseconds of an `Instant`. -/
def millis (ms : Nat) : Nat := ms * 1000000

/-- `serde_json::Value`, as its text and the nesting depth of its arrays and
objects. -/
structure JsonValue where
  text : String
  depth : Nat
deriving DecidableEq, Repr

/-! ## Requests and results -/

/-- What makes a request the same request. -/
structure IdempotencyKey where
  ns : String
  deviceId : DeviceId
  requestId : String
deriving DecidableEq, Repr

/-- `ControlStatus`. -/
inductive ControlStatus where
  | accepted
  | running
  | succeeded
  | failed
  | rejected
  | timeout
  | cancelled
  | indeterminate
deriving DecidableEq, Repr

/-- `ControlError`. -/
structure ControlError where
  code : String
  message : String
  details : Option JsonValue
deriving DecidableEq, Repr

/-- `PropertyWriteItemResult`. -/
structure PropertyWriteItemResult where
  path : PropertyPath
  success : Bool
  protocolCode : Option Int
  error : Option ControlError
deriving DecidableEq, Repr

/-- `CommandResult`. -/
structure CommandResult where
  deviceCode : Option Int
  message : Option String
  payload : Option JsonValue
deriving DecidableEq, Repr

/-- `ControlPayloadResult`. -/
inductive ControlPayloadResult where
  | propertyWrite (items : List PropertyWriteItemResult)
  | command (result : CommandResult)
deriving DecidableEq, Repr

/-- `ControlResult`. -/
structure ControlResult where
  requestId : String
  ns : String
  deviceId : DeviceId
  status : ControlStatus
  startedAtNs : Option TimestampNs
  completedAtNs : Option TimestampNs
  result : Option ControlPayloadResult
  error : Option ControlError
deriving DecidableEq, Repr

/-! ## What a driver answers -/

/-- `DriverErrorInfo`, the fields the control engine reads. -/
structure DriverErrorInfo where
  code : String
  protocolCode : Option Int
deriving DecidableEq, Repr

/-- What a driver answers to one write item. -/
structure RawWriteResult where
  itemId : Nat
  success : Bool
  protocolCode : Option Int
  error : Option DriverErrorInfo
deriving DecidableEq, Repr

/-- What a driver answers to a command. -/
structure RawCommandResult where
  success : Bool
  protocolCode : Option Int
  payload : Option JsonValue
  error : Option DriverErrorInfo
deriving DecidableEq, Repr

/-- How a batch write ends. -/
inductive WriteOutcome where
  | succeeded (results : List RawWriteResult)
  | failed (info : DriverErrorInfo)
  | indeterminate (info : DriverErrorInfo)
deriving DecidableEq, Repr

/-- How a command ends. -/
inductive ExecuteOutcome where
  | succeeded (raw : RawCommandResult)
  | failed (info : DriverErrorInfo)
  | indeterminate (info : DriverErrorInfo)
deriving DecidableEq, Repr

end ForgeLink.Control
