import ForgeLink.Control.Model
import ForgeLink.Lib.AssocMap
import ForgeLink.Lib.JsonScan

/-!
# The idempotency journal

`journal.rs`: the in-memory journal, and the file journal that appends one JSON
line per record and replays the file when it is opened.

The JSON text of a record comes from `serde_json`, which is a parameter here
(`SerdeJson`); `SerdeJson.Lawful` states what the journal relies on.  The file
is a list of bytes and is split into lines as `BufRead::lines` splits it, so a
write that stops early leaves its bytes in the file.

The order in which a `HashMap` is iterated is unspecified, so every operation
that iterates takes the order as an argument (`IterOrder`).  A write takes its
fault as an argument: `none` is a write that succeeds, `some n` is one that
fails after `n` bytes of its line.
-/

namespace ForgeLink.Control

open Lib

/-! ## Records and decisions -/

/-- `JournalEntry`. -/
structure JournalEntry where
  key : IdempotencyKey
  payloadHash : String
  status : ControlStatus
  createdAtNs : TimestampNs
  expiresAtNs : TimestampNs
  result : Option ControlResult
deriving DecidableEq, Repr

/-- What `try_insert` decides. -/
inductive JournalDecision where
  | inserted
  | duplicate (entry : JournalEntry)
  | conflict (existing : JournalEntry)
deriving DecidableEq, Repr

/-- `JournalError`, without its texts. -/
inductive JournalError where
  | io
  | corrupt (line : Nat)
deriving DecidableEq, Repr

/-- `Record`: one line of the file. -/
inductive Record where
  | insert (key : IdempotencyKey) (payloadHash : String) (status : ControlStatus)
      (createdAtNs expiresAtNs : TimestampNs)
  | settle (key : IdempotencyKey) (result : ControlResult)
deriving DecidableEq, Repr

/-- The key a record is about. -/
def Record.key : Record → IdempotencyKey
  | .insert key _ _ _ _ => key
  | .settle key _ => key

/-- The in-memory map of a journal. -/
abbrev Entries := AssocMap IdempotencyKey JournalEntry

/-- The record `try_insert` registers: running, without a result. -/
def freshEntry (key : IdempotencyKey) (payloadHash : String)
    (createdAtNs expiresAtNs : TimestampNs) : JournalEntry :=
  { key, payloadHash, status := .running, createdAtNs, expiresAtNs, result := none }

/-- What `settle` does to a record. -/
def JournalEntry.settled (result : ControlResult) (entry : JournalEntry) : JournalEntry :=
  { entry with status := result.status, result := some result }

/-- The decision on an unexpired record with the same key. -/
def JournalEntry.decide (existing : JournalEntry) (payloadHash : String) : JournalDecision :=
  if existing.payloadHash = payloadHash then .duplicate existing else .conflict existing

/-! ## The in-memory journal -/

namespace InMemoryJournal

/-- `InMemoryJournal::try_insert`. -/
def tryInsert (entries : Entries) (key : IdempotencyKey) (payloadHash : String)
    (createdAtNs expiresAtNs : TimestampNs) : Entries × JournalDecision :=
  match (entries.get? key).filter fun e => decide (createdAtNs ≤ e.expiresAtNs) with
  | some existing => (entries, existing.decide payloadHash)
  | none =>
    (entries.insert key (freshEntry key payloadHash createdAtNs expiresAtNs), .inserted)

/-- `InMemoryJournal::settle`. -/
def settle (entries : Entries) (key : IdempotencyKey) (result : ControlResult) : Entries :=
  entries.modify key (JournalEntry.settled result)

/-- `InMemoryJournal::purge_expired`: the entries kept, and how many were
removed. -/
def purgeExpired (entries : Entries) (nowNs : TimestampNs) : Entries × Nat :=
  let kept := entries.filter fun _ e => decide (nowNs ≤ e.expiresAtNs)
  (kept, entries.size - kept.size)

end InMemoryJournal

/-! ## JSON lines -/

/-- The nesting depth of an error object inside a record. -/
def ControlError.depth (e : ControlError) : Nat :=
  1 + (e.details.map JsonValue.depth).getD 0

/-- The nesting depth of one item result. -/
def PropertyWriteItemResult.depth (r : PropertyWriteItemResult) : Nat :=
  1 + (r.error.map ControlError.depth).getD 0

/-- The nesting depth of a payload: the variant's object, then an array of
items or the command object. -/
def ControlPayloadResult.depth : ControlPayloadResult → Nat
  | .propertyWrite items => 2 + (items.map PropertyWriteItemResult.depth).foldr max 0
  | .command result => 2 + (result.payload.map JsonValue.depth).getD 0

/-- The nesting depth of a result object. -/
def ControlResult.depth (r : ControlResult) : Nat :=
  1 + max ((r.result.map ControlPayloadResult.depth).getD 0)
    ((r.error.map ControlError.depth).getD 0)

/-- The nesting depth of a record: the variant's object, its fields, and the
key or the result inside. -/
def Record.depth : Record → Nat
  | .insert _ _ _ _ _ => 3
  | .settle _ result => 2 + result.depth

/-- The deepest text `serde_json::from_str` accepts: it starts with 128 levels
and fails when the last one is used up. -/
def maxDepth : Nat := 127

/-- A record that a reader accepts again. -/
def Record.Fits (r : Record) : Prop := r.depth ≤ maxDepth

instance (r : Record) : Decidable r.Fits := inferInstanceAs (Decidable (_ ≤ _))

/-- `serde_json` on journal records: `to_string` and `from_str`. -/
structure SerdeJson where
  toString : Record → String
  fromStr : String → Option Record

namespace SerdeJson

/-- The bytes of a record's text. -/
def bytes (serde : SerdeJson) (r : Record) : Bytes := (serde.toString r).toByteArray.data.toList

/-- A record's line, with its newline. -/
def line (serde : SerdeJson) (r : Record) : Bytes := serde.bytes r ++ [Bytes.newline]

/-- The file that holds these records and nothing else. -/
def fileOf (serde : SerdeJson) (records : List Record) : Bytes := records.flatMap serde.line

/-- What the journal relies on: a text is a compact JSON object on one line,
and it reads back as its record unless it nests too deep.  `serde_json` has this
for records without `Some(Null)`, which reads as `None`, and without a float
whose text reads as another float. -/
structure Lawful (serde : SerdeJson) : Prop where
  /-- Reading back a record's own text. -/
  fromStr_toString : ∀ r, serde.fromStr (serde.toString r) = if r.Fits then some r else none
  /-- Compact JSON escapes every line break. -/
  newline_notMem : ∀ r, Bytes.newline ∉ serde.bytes r
  /-- A record is an object. -/
  object : ∀ r, ∃ body, serde.toString r = "\x7b" ++ body ++ "\x7d"

/-- What tells a record from what is left of one: only JSON documents are read,
and the text of a record is one that starts with its tag. -/
structure Strict (serde : SerdeJson) : Prop extends Lawful serde where
  /-- Only documents are read. -/
  document : ∀ text r, serde.fromStr text = some r →
    Json.Document text.toByteArray.data.toList
  /-- A record is an object whose one key is its tag. -/
  tagged : ∀ r, Json.Tagged (serde.bytes r)

end SerdeJson

/-- `char::is_whitespace`: the Unicode `White_Space` characters. -/
def isWhitespace (c : Char) : Bool :=
  let n := c.toNat
  (9 ≤ n && n ≤ 13) || n = 32 || n = 0x85 || n = 0xA0 || n = 0x1680 ||
    (0x2000 ≤ n && n ≤ 0x200A) || n = 0x2028 || n = 0x2029 || n = 0x202F || n = 0x205F ||
    n = 0x3000

/-- What one line of the file reads as. -/
inductive LineRead where
  | notUtf8
  | blank
  | malformed
  | record (r : Record)
deriving DecidableEq, Repr

/-- Read a line: it must be UTF-8, a blank line is skipped, and everything else
must parse. -/
def readLine (serde : SerdeJson) (line : Bytes) : LineRead :=
  match String.fromUTF8? ⟨line.toArray⟩ with
  | none => .notUtf8
  | some text =>
    if text.toList.all isWhitespace then .blank
    else
      match serde.fromStr text with
      | none => .malformed
      | some r => .record r

/-! ## The file journal -/

/-- The order in which a `HashMap` is iterated: any permutation of its values. -/
structure IterOrder where
  order : List JournalEntry → List JournalEntry
  perm : ∀ es, (order es).Perm es

/-- The order in which the entries are kept. -/
def IterOrder.same : IterOrder := ⟨id, fun _ => .refl _⟩

/-- `FileJournal`: the file and the in-memory map. -/
structure FileJournal where
  file : Bytes
  entries : Entries

/-- The state of a replay: the entries so far, the keys whose insert was
dropped as expired, and whether the file has to be rewritten. -/
structure Replay where
  entries : Entries
  expiredKeys : List IdempotencyKey
  needCompact : Bool

/-- The replay before the first line. -/
def Replay.start : Replay := ⟨.empty, [], false⟩

/-- Replay one record.  A settle without a live insert is skipped once for an
insert that was dropped as expired, and is corruption otherwise. -/
def Replay.record (nowNs : TimestampNs) (lineNo : Nat) (st : Replay) :
    Record → Except JournalError Replay
  | .insert key payloadHash status createdAtNs expiresAtNs =>
    if expiresAtNs < nowNs then
      .ok { st with expiredKeys := key :: st.expiredKeys, needCompact := true }
    else
      .ok { st with
        entries := st.entries.insert key
          { key, payloadHash, status, createdAtNs, expiresAtNs, result := none } }
  | .settle key result =>
    if (st.entries.get? key).isSome then
      .ok { st with entries := st.entries.modify key (JournalEntry.settled result) }
    else if key ∈ st.expiredKeys then
      .ok { st with expiredKeys := st.expiredKeys.filter fun k => !decide (k = key) }
    else
      .error (.corrupt lineNo)

/-- Replay the lines of a file, numbered from `lineNo`. -/
def replayLines (serde : SerdeJson) (nowNs : TimestampNs) :
    Nat → Replay → List Bytes → Except JournalError Replay
  | _, st, [] => .ok st
  | lineNo, st, line :: rest =>
    match readLine serde line with
    | .notUtf8 => .error .io
    | .blank => replayLines serde nowNs (lineNo + 1) st rest
    | .malformed => .error (.corrupt lineNo)
    | .record r =>
      match st.record nowNs lineNo r with
      | .error e => .error e
      | .ok st' => replayLines serde nowNs (lineNo + 1) st' rest

/-- A record without an outcome: `Accepted` or `Running`. -/
def JournalEntry.Unsettled (e : JournalEntry) : Prop :=
  e.status = .accepted ∨ e.status = .running

instance (e : JournalEntry) : Decidable e.Unsettled := inferInstanceAs (Decidable (_ ∨ _))

/-- The result an interrupted request gets when the journal is opened. -/
def interruptedAt (key : IdempotencyKey) (nowNs : TimestampNs) : ControlResult :=
  { requestId := key.requestId
    ns := key.ns
    deviceId := key.deviceId
    status := .indeterminate
    startedAtNs := none
    completedAtNs := some nowNs
    result := none
    error := some
      { code := "EXECUTION_INTERRUPTED"
        message := "执行状态未知（进程可能已重启）"
        details := none } }

/-- An entry turned into `Indeterminate`. -/
def JournalEntry.interrupted (nowNs : TimestampNs) (e : JournalEntry) : JournalEntry :=
  { e with status := .indeterminate, result := some (interruptedAt e.key nowNs) }

/-- Recovery of one entry: without an outcome it becomes `Indeterminate`. -/
def JournalEntry.recover (nowNs : TimestampNs) (e : JournalEntry) : JournalEntry :=
  if e.Unsettled then e.interrupted nowNs else e

/-- The records that compaction writes for one entry. -/
def JournalEntry.records (e : JournalEntry) : List Record :=
  .insert e.key e.payloadHash e.status e.createdAtNs e.expiresAtNs ::
    (e.result.map (Record.settle e.key)).toList

namespace FileJournal

/-- The records compaction writes: every unexpired entry, in iteration order. -/
def compactRecords (order : IterOrder) (entries : Entries) (nowNs : TimestampNs) : List Record :=
  (order.order entries.values).flatMap fun e => if e.expiresAtNs < nowNs then [] else e.records

/-- Rewrite the file from the map. -/
def compact (serde : SerdeJson) (order : IterOrder) (j : FileJournal) (nowNs : TimestampNs) :
    FileJournal :=
  { j with file := serde.fileOf (compactRecords order j.entries nowNs) }

/-- `FileJournal::open` on a file, which is empty if there is none yet. -/
def openAt (serde : SerdeJson) (order : IterOrder) (file : Bytes) (nowNs : TimestampNs) :
    Except JournalError FileJournal :=
  match replayLines serde nowNs 1 .start (Bytes.lines file) with
  | .error e => .error e
  | .ok st =>
    let j : FileJournal := ⟨file, st.entries.mapVal fun _ => JournalEntry.recover nowNs⟩
    .ok (if st.needCompact then j.compact serde order nowNs else j)

/-- `FileJournal::write_record`.  A failed write leaves a prefix of the line. -/
def writeRecord (serde : SerdeJson) (j : FileJournal) (r : Record) (fault : Option Nat) :
    FileJournal × Except JournalError Unit :=
  match fault with
  | none => ({ j with file := j.file ++ serde.line r }, .ok ())
  | some n => ({ j with file := j.file ++ (serde.line r).take n }, .error .io)

/-- `FileJournal::try_insert`: the file first, then the map. -/
def tryInsert (serde : SerdeJson) (j : FileJournal) (key : IdempotencyKey) (payloadHash : String)
    (createdAtNs expiresAtNs : TimestampNs) (fault : Option Nat) :
    FileJournal × Except JournalError JournalDecision :=
  match (j.entries.get? key).filter fun e => decide (createdAtNs ≤ e.expiresAtNs) with
  | some existing => (j, .ok (existing.decide payloadHash))
  | none =>
    match j.writeRecord serde (.insert key payloadHash .running createdAtNs expiresAtNs)
        fault with
    | (j', .error e) => (j', .error e)
    | (j', .ok ()) =>
      ({ j' with
          entries := j'.entries.insert key
            (freshEntry key payloadHash createdAtNs expiresAtNs) }, .ok .inserted)

/-- `FileJournal::settle`: nothing for an unknown key, else the file first. -/
def settle (serde : SerdeJson) (j : FileJournal) (key : IdempotencyKey) (result : ControlResult)
    (fault : Option Nat) : FileJournal × Except JournalError Unit :=
  if (j.entries.get? key).isSome then
    match j.writeRecord serde (.settle key result) fault with
    | (j', .error e) => (j', .error e)
    | (j', .ok ()) =>
      ({ j' with entries := j'.entries.modify key (JournalEntry.settled result) }, .ok ())
  else (j, .ok ())

/-- `FileJournal::purge_expired`: the file is rewritten if anything was removed. -/
def purgeExpired (serde : SerdeJson) (order : IterOrder) (j : FileJournal) (nowNs : TimestampNs) :
    FileJournal × Nat :=
  let (kept, removed) := InMemoryJournal.purgeExpired j.entries nowNs
  let j' : FileJournal := { j with entries := kept }
  (if removed > 0 then j'.compact serde order nowNs else j', removed)

end FileJournal

end ForgeLink.Control
