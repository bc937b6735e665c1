import ForgeLink.Control.Journal
import ForgeLink.Lib.JsonText

/-!
# A codec for journal records

The texts that `serde_json` writes for the records, and a reader of them: a
`SerdeJson` with which the journal can be run.  Structs are objects with their
fields in order, `None` is `null`, and the variants of an enum are tagged by
their names.

The reader takes the fields by position and then compares with what the writer
gives for the value it read, so it accepts exactly the writer's own texts.
-/

namespace ForgeLink.Control

open Lib

/-! ## Codecs -/

/-- How the values of a type are written and read; no value is written as
`null`. -/
structure Codec (α : Type) where
  toJson : α → Json
  ofJson : Json → Option α
  back : ∀ a, ofJson (toJson a) = some a
  present : ∀ a, toJson a ≠ .null

namespace Codec

variable {α : Type}

/-- An `Option`: `None` is `null`. -/
def toOption (c : Codec α) : Option α → Json
  | none => .null
  | some a => c.toJson a

/-- Read an `Option`. -/
def ofOption (c : Codec α) : Json → Option (Option α)
  | .null => some none
  | j => (c.ofJson j).map some

@[simp] theorem ofOption_toOption (c : Codec α) (o : Option α) :
    c.ofOption (c.toOption o) = some o := by
  cases o with
  | none => rfl
  | some a =>
    have value := c.back a
    rw [toOption]
    cases here : c.toJson a with
    | null => exact absurd here (c.present a)
    | _ =>
      rw [here] at value
      exact congrArg (Option.map some) value

theorem mapM_map (c : Codec α) (as : List α) :
    (as.map c.toJson).mapM c.ofJson = some as := by
  induction as with
  | nil => rfl
  | cons a as ih => simp [List.mapM_cons, c.back, ih]

end Codec

/-- A text. -/
def strCodec : Codec String where
  toJson := .str
  ofJson
    | .str s => some s
    | _ => none
  back _ := rfl
  present _ := nofun

/-- A number. -/
def intCodec : Codec Int where
  toJson := .int
  ofJson
    | .int n => some n
    | _ => none
  back _ := rfl
  present _ := nofun

/-! ## What records hold -/

/-- `IdempotencyKey`. -/
def keyCodec : Codec IdempotencyKey where
  toJson k :=
    .obj [("namespace", .str k.ns), ("device_id", .str k.deviceId),
      ("request_id", .str k.requestId)]
  ofJson
    | .obj [(_, .str ns), (_, .str deviceId), (_, .str requestId)] => some ⟨ns, deviceId, requestId⟩
    | _ => none
  back _ := rfl
  present _ := nofun

/-- The name of a status. -/
def ControlStatus.name : ControlStatus → String
  | .accepted => "accepted"
  | .running => "running"
  | .succeeded => "succeeded"
  | .failed => "failed"
  | .rejected => "rejected"
  | .timeout => "timeout"
  | .cancelled => "cancelled"
  | .indeterminate => "indeterminate"

/-- Every status. -/
def ControlStatus.all : List ControlStatus :=
  [.accepted, .running, .succeeded, .failed, .rejected, .timeout, .cancelled, .indeterminate]

/-- `ControlStatus`. -/
def statusCodec : Codec ControlStatus where
  toJson s := .str s.name
  ofJson
    | .str n => ControlStatus.all.find? fun s => s.name = n
    | _ => none
  back s := by cases s <;> decide
  present _ := nofun

/-- A `serde_json::Value` is a stand-in for its text: the journal never looks
inside. -/
def valueCodec : Codec JsonValue where
  toJson v := .arr [.str v.text, .int v.depth]
  ofJson
    | .arr [.str text, .int depth] => some ⟨text, depth.toNat⟩
    | _ => none
  back _ := rfl
  present _ := nofun

/-- `ControlError`. -/
def errorCodec : Codec ControlError where
  toJson e :=
    .obj [("code", .str e.code), ("message", .str e.message),
      ("details", valueCodec.toOption e.details)]
  ofJson
    | .obj [(_, .str code), (_, .str message), (_, details)] =>
      (valueCodec.ofOption details).map fun details => ⟨code, message, details⟩
    | _ => none
  back e := by simp
  present _ := nofun

/-- `PropertyWriteItemResult`. -/
def itemCodec : Codec PropertyWriteItemResult where
  toJson r :=
    .obj [("path", .str r.path), ("success", .bool r.success),
      ("protocol_code", intCodec.toOption r.protocolCode), ("error", errorCodec.toOption r.error)]
  ofJson
    | .obj [(_, .str path), (_, .bool success), (_, protocolCode), (_, error)] =>
      (intCodec.ofOption protocolCode).bind fun protocolCode =>
        (errorCodec.ofOption error).map fun error => ⟨path, success, protocolCode, error⟩
    | _ => none
  back r := by simp
  present _ := nofun

/-- `ControlPayloadResult`, a variant tagged by its name. -/
def payloadCodec : Codec ControlPayloadResult where
  toJson
    | .propertyWrite items => .obj [("property_write", .arr (items.map itemCodec.toJson))]
    | .command r =>
      .obj [("command", .obj [("device_code", intCodec.toOption r.deviceCode),
        ("message", strCodec.toOption r.message), ("payload", valueCodec.toOption r.payload)])]
  ofJson
    | .obj [(_, .arr items)] => (items.mapM itemCodec.ofJson).map .propertyWrite
    | .obj [(_, .obj [(_, deviceCode), (_, message), (_, payload)])] =>
      (intCodec.ofOption deviceCode).bind fun deviceCode =>
        (strCodec.ofOption message).bind fun message =>
          (valueCodec.ofOption payload).map fun payload =>
            .command ⟨deviceCode, message, payload⟩
    | _ => none
  back r := by
    cases r with
    | propertyWrite items =>
      exact congrArg (Option.map ControlPayloadResult.propertyWrite) (itemCodec.mapM_map items)
    | command r => simp
  present r := by cases r <;> nofun

/-- `ControlResult`. -/
def resultCodec : Codec ControlResult where
  toJson r :=
    .obj [("request_id", .str r.requestId), ("namespace", .str r.ns),
      ("device_id", .str r.deviceId), ("status", statusCodec.toJson r.status),
      ("started_at_ns", intCodec.toOption r.startedAtNs),
      ("completed_at_ns", intCodec.toOption r.completedAtNs),
      ("result", payloadCodec.toOption r.result), ("error", errorCodec.toOption r.error)]
  ofJson
    | .obj [(_, .str requestId), (_, .str ns), (_, .str deviceId), (_, status), (_, startedAtNs),
        (_, completedAtNs), (_, result), (_, error)] =>
        (statusCodec.ofJson status).bind fun status =>
          (intCodec.ofOption startedAtNs).bind fun startedAtNs =>
            (intCodec.ofOption completedAtNs).bind fun completedAtNs =>
              (payloadCodec.ofOption result).bind fun result =>
                (errorCodec.ofOption error).map fun error =>
                  ⟨requestId, ns, deviceId, status, startedAtNs, completedAtNs, result, error⟩
    | _ => none
  back r := by simp [statusCodec.back]
  present _ := nofun

/-! ## Records -/

namespace Record

/-- The tag of a record and the fields under it. -/
def fields : Record → String × List (String × Json)
  | .insert key payloadHash status createdAtNs expiresAtNs =>
    ("Insert", [("key", keyCodec.toJson key), ("payload_hash", .str payloadHash),
      ("status", statusCodec.toJson status), ("created_at_ns", .int createdAtNs),
      ("expires_at_ns", .int expiresAtNs)])
  | .settle key result =>
    ("Settle", [("key", keyCodec.toJson key), ("result", resultCodec.toJson result)])

/-- A record as JSON. -/
def toJson (r : Record) : Json := .obj [(r.fields.1, .obj r.fields.2)]

/-- Read a record. -/
def ofJson : Json → Option Record
  | .obj [(_, .obj [(_, key), (_, .str payloadHash), (_, status), (_, .int createdAtNs),
      (_, .int expiresAtNs)])] =>
      (keyCodec.ofJson key).bind fun key =>
        (statusCodec.ofJson status).map fun status =>
          .insert key payloadHash status createdAtNs expiresAtNs
  | .obj [(_, .obj [(_, key), (_, result)])] =>
    (keyCodec.ofJson key).bind fun key => (resultCodec.ofJson result).map (.settle key)
  | _ => none

theorem ofJson_toJson (r : Record) : ofJson r.toJson = some r := by
  cases r with
  | insert => simp [toJson, fields, ofJson, keyCodec.back, statusCodec.back]
  | settle => simp [toJson, fields, ofJson, keyCodec.back, resultCodec.back]

end Record

/-- The texts `serde_json` writes for records, and the reader of those texts. -/
def serdeJson : SerdeJson where
  toString r := r.toJson.toText
  fromStr text :=
    (((Json.ofText text).bind Record.ofJson).filter fun r => r.toJson.toText = text).filter
      fun r => r.Fits

theorem serdeJson_bytes (r : Record) : serdeJson.bytes r = Json.utf8 (Json.print r.toJson) :=
  Json.toText_bytes r.toJson

theorem Record.print_toJson (r : Record) :
    Json.print r.toJson =
      '\x7b' :: ('"' :: (Json.printString r.fields.1 ++
        ':' :: Json.print (.obj r.fields.2))) ++ ['\x7d'] := by
  simp [Record.toJson, Json.print, Json.printFields]

/-- What the reader takes for a record is the text of that record. -/
theorem serdeJson_fromStr {text : String} {r : Record} (h : serdeJson.fromStr text = some r) :
    text = serdeJson.toString r := by
  have read := (Option.filter_eq_some_iff.mp h).1
  have same := (Option.filter_eq_some_iff.mp read).2
  exact (of_decide_eq_true same).symm

theorem serdeJson_document (r : Record) : Json.Document (serdeJson.bytes r) := by
  rw [serdeJson_bytes]
  exact Json.document_print [(r.fields.1, .obj r.fields.2)]

/-- A record's text starts with the capital letter of its tag. -/
theorem Record.printString_tag (r : Record) :
    ∃ c cs, Json.printString r.fields.1 = c :: cs ∧ (c = 'I' ∨ c = 'S') := by
  have inserted : Json.printString "Insert" = ['I', 'n', 's', 'e', 'r', 't', '"'] := by decide
  have settled : Json.printString "Settle" = ['S', 'e', 't', 't', 'l', 'e', '"'] := by decide
  cases r with
  | insert => exact ⟨_, _, inserted, .inl rfl⟩
  | settle => exact ⟨_, _, settled, .inr rfl⟩

theorem serdeJson_tagged (r : Record) : Json.Tagged (serdeJson.bytes r) where
  document := serdeJson_document r
  opens := by
    obtain ⟨c, cs, tag, letter⟩ := r.printString_tag
    rw [serdeJson_bytes, r.print_toJson, tag]
    rcases letter with rfl | rfl <;> exact ⟨_, _, rfl, rfl⟩
  closes := by
    rw [serdeJson_bytes, r.print_toJson, Json.utf8_append, List.getLast?_append]
    rfl

/-- The codec behaves as the journal needs. -/
theorem serdeJson_strict : serdeJson.Strict where
  fromStr_toString r := by
    have read : (Json.ofText r.toJson.toText).bind Record.ofJson = some r := by
      rw [Json.ofText_toText, Option.bind_some, Record.ofJson_toJson]
    simp only [serdeJson, read]
    by_cases fits : r.Fits <;> simp [Option.filter, fits]
  newline_notMem r := by
    rw [serdeJson_bytes]
    exact Json.newline_notMem_print r.toJson
  object r := by
    refine ⟨String.ofList ('"' :: (Json.printString r.fields.1 ++
      ':' :: Json.print (.obj r.fields.2))), ?_⟩
    apply String.toList_inj.mp
    simp [serdeJson, Json.toText, r.print_toJson]
  document text r h := by
    obtain rfl := serdeJson_fromStr h
    exact serdeJson_document r
  tagged := serdeJson_tagged

end ForgeLink.Control
