import ForgeLink.Drivers.MitsubishiMc
import ForgeLink.Drivers.Modbus
import ForgeLink.Drivers.S7comm

/-!
# From the control engine to a driver

The values of a batch on their way to a plugin: the loader (`NativeDriver::write`)
encodes each of them, and the `api_write` entry of the plugin decodes it into a
request of its driver.
-/

namespace ForgeLink.Drivers

open Lib

/-! ## The plugin side of the ABI -/

/-- A write item as it crosses the ABI. -/
structure FfiWriteItem where
  id : Nat
  address : String
  valueType : UInt32
  valueBytes : Bytes

/-- The items of an ABI call as the requests of a driver, or the error that stops
the call. -/
def decodeItems {ρ : Type} (request : FfiWriteItem → RawValue → ρ) :
    List FfiWriteItem → Except DriverErrorInfo (List ρ)
  | [] => .ok []
  | item :: items =>
    match decodeValueBytes item.valueType item.valueBytes with
    | .error e =>
      let id := item.id
      .error (.invalidType (s!"item {id} 写入值 Tag 非法：" ++ e.text))
    | .ok value => do .ok (request item value :: (← decodeItems request items))

/-! ## The loader -/

/-- `LoaderError`, the errors of a call of `write`. -/
inductive LoaderError where
  | callFailed (function : String) (status : Int) (detail : Option DriverErrorInfo)
  | emptyResponse (function : String)
  | invalidResponse (function source : String)
  | encoding (text : String)
deriving DecidableEq, Repr

/-- The code of an error. -/
def LoaderError.code : LoaderError → String
  | .callFailed .. => "driver_call_failed"
  | .emptyResponse _ => "driver_empty_response"
  | .invalidResponse .. => "driver_invalid_response"
  | .encoding _ => "driver_encoding_error"

/-- `LoaderError` as text. -/
def LoaderError.text : LoaderError → String
  | .callFailed function status (some d) =>
    s!"{function} 调用失败 status={status}: " ++ d.message ++ " (code=" ++ d.code ++ ")"
  | .callFailed function status none => s!"{function} 调用失败 status={status}"
  | .emptyResponse function => s!"{function} 返回空 buffer"
  | .invalidResponse function source => s!"{function} 返回的 JSON 无法解析: {source}"
  | .encoding msg => s!"参数编码错误: {msg}"

/-- The tag that a value is sent with. -/
def tagForValue : RawValue → Except LoaderError TypeTag
  | .bool _ => .ok .bool
  | .i64 _ => .ok .i64
  | .u64 _ => .ok .u64
  | .f64 _ => .ok .f64
  | .string _ => .ok .string
  | .bytes _ => .ok .bytes
  | .array _ | .struct _ =>
    .error (.encoding "复杂类型(Array/Struct)不允许写入 value_bytes（§17.2 只定义标量编码）")

/-- The items of a batch as the loader passes them on. -/
def encodeItems : List DriverWriteItem → Except LoaderError (List FfiWriteItem)
  | [] => .ok []
  | item :: items => do
    let tag ← tagForValue item.value
    match encodeValueBytes tag.toU32 item.value with
    | .error e => .error (.encoding e.text)
    | .ok valueBytes =>
      let rest ← encodeItems items
      .ok (⟨item.id, item.address, tag.toU32, valueBytes⟩ :: rest)

/-- The error that a caller of the loader sees. -/
def mapLoaderError : LoaderError → DriverErrorInfo
  | .callFailed _ _ (some info) => info
  | e@(.callFailed _ _ none) =>
    { code := e.code, message := e.text, protocolCode := none, retryable := true }
  | e => { code := e.code, message := e.text, protocolCode := none, retryable := false }

end ForgeLink.Drivers
