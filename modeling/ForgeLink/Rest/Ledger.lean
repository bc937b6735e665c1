import ForgeLink.Control.Journal
import ForgeLink.Control.Queue

/-!
# The request ledger of the REST API

`rest-api/src/control.rs`: `EngineControlAdapter` submits control requests to the
engine and answers status queries from a bounded ledger.

A submit has two steps: the engine answers it (`Label.answer`), and the adapter
enters the answer (`Label.register`); other tasks run in between.  The engine is
the environment here: the label says what it answers, and it sets a
`SharedResult` once, at some time (`Label.resolve`).  A submit that was accepted
leaves a waiter behind, which enters the result after that (`Label.record`).

The handler builds every request with the namespace of the adapter, so a label
names the device and the request only.  `accepted` lists the waiters, and after
them the requests whose outcome stands in the ledger: an entry leaves the list
when its outcome has been entered and the ledger has evicted it.
-/

namespace ForgeLink.Control

/-! ## What the engine answers -/

/-- The text of a rejection. -/
structure Rejection where
  code : String
  message : String
deriving DecidableEq, Repr

/-- What `submit` returns: a ready or a pending receipt, or an error. -/
inductive Receipt where
  | ready (result : ControlResult)
  | pending (shared : ReplyId)
  | conflict (existing : JournalEntry)
  | engineClosed
deriving DecidableEq, Repr

/-- The result of a rejected request. -/
def rejectedResult (key : IdempotencyKey) (why : Rejection) (ns : TimestampNs) : ControlResult :=
  { requestId := key.requestId, ns := key.ns, deviceId := key.deviceId, status := .rejected
    startedAtNs := none, completedAtNs := some ns, result := none
    error := some { code := why.code, message := why.message, details := none } }

end ForgeLink.Control

namespace ForgeLink.Rest

open Lib Control

/-! ## The ledger -/

/-- How many requests the ledger remembers. -/
def requestLedgerCapacity : Nat := 10000

/-- What is known of a request. -/
structure LedgerEntry where
  result : Option ControlResult
deriving DecidableEq, Repr

/-- The answer to a status query. -/
inductive ControlStatusQuery where
  | unknown
  | running
  | settled (result : ControlResult)
deriving DecidableEq, Repr

/-- `RequestLedger`. -/
structure RequestLedger where
  capacity : Nat
  entries : AssocMap IdempotencyKey LedgerEntry
  byQuery : AssocMap (String × String) IdempotencyKey
  order : List IdempotencyKey

/-- The key of a status query. -/
def queryKey (key : IdempotencyKey) : String × String := (key.deviceId, key.requestId)

namespace RequestLedger

/-- An empty ledger. -/
def withCapacity (capacity : Nat) : RequestLedger := ⟨capacity, .empty, .empty, []⟩

/-- The entry of a key has a result. -/
def isSettled (ledger : RequestLedger) (key : IdempotencyKey) : Bool :=
  ((ledger.entries.get? key).bind LedgerEntry.result).isSome

/-- `evict_oldest_settled`; nothing where it returns `false`. -/
def evictOldestSettled (ledger : RequestLedger) : Option RequestLedger :=
  match ledger.order.find? ledger.isSettled with
  | none => none
  | some key =>
    some { ledger with
      order := ledger.order.eraseP ledger.isSettled
      byQuery := if ledger.byQuery.get? (queryKey key) = some key then
        ledger.byQuery.erase (queryKey key) else ledger.byQuery
      entries := ledger.entries.erase key }

/-- The loop of `register`.  A turn takes a key from `order`, so it has no more
turns than `order` has keys. -/
def makeRoom : (turns : Nat) → RequestLedger → RequestLedger
  | 0, ledger => ledger
  | turns + 1, ledger =>
    if ledger.capacity ≤ ledger.entries.size then
      match ledger.evictOldestSettled with
      | some smaller => makeRoom turns smaller
      | none => ledger
    else ledger

/-- The end of `register`: a new entry. -/
def insert (ledger : RequestLedger) (key : IdempotencyKey) (result : Option ControlResult) :
    RequestLedger :=
  { ledger with
    entries := ledger.entries.insert key ⟨result⟩
    byQuery := ledger.byQuery.insert (queryKey key) key
    order := ledger.order ++ [key] }

/-- Remember a request, or its result. -/
def register (ledger : RequestLedger) (key : IdempotencyKey) (result : Option ControlResult) :
    RequestLedger :=
  match ledger.entries.get? key with
  | some _ =>
    match result with
    | some result => { ledger with entries := ledger.entries.modify key fun _ => ⟨some result⟩ }
    | none => ledger
  | none => (makeRoom ledger.order.length ledger).insert key result

/-- What is known of a request. -/
def query (ledger : RequestLedger) (deviceId requestId : String) : ControlStatusQuery :=
  match ledger.byQuery.get? (deviceId, requestId) with
  | none => .unknown
  | some key =>
    match ledger.entries.get? key with
    | some ⟨some result⟩ => .settled result
    | some ⟨none⟩ => .running
    | none => .unknown

end RequestLedger

/-! ## The adapter -/

/-- The request was refused for want of a role. -/
def isAuthorizationRejection (result : ControlResult) : Bool :=
  result.status = .rejected ∧
    result.error.any fun e => e.code = "INSUFFICIENT_ROLE" ∨ e.code = "UNKNOWN_SUBJECT"

/-- A submit that the engine has answered. -/
structure Call where
  key : IdempotencyKey
  receipt : Receipt

/-- A submit that was answered `Accepted`, and if its waiter has entered the result. -/
structure Accepted where
  key : IdempotencyKey
  shared : ReplyId
  recorded : Bool
deriving DecidableEq, Repr

/-- The adapter, with the `SharedResult`s that the engine has set. -/
structure Adapter where
  ns : String
  ledger : RequestLedger
  shared : AssocMap ReplyId ControlResult
  calls : List Call
  accepted : List Accepted

/-- A step of a submit, of a waiter or of the engine. -/
inductive Label where
  | answer (deviceId requestId : String) (receipt : Receipt)
  | register (call : Nat)
  | resolve (shared : ReplyId) (result : ControlResult)
  | record (waiter : Nat)
deriving DecidableEq, Repr

namespace Adapter

/-- `EngineControlAdapter::new`. -/
def start (ns : String) (capacity : Nat) : Adapter :=
  ⟨ns, .withCapacity capacity, .empty, [], []⟩

/-- Enter a result or a running request, and forget what has been evicted. -/
def enter (s : Adapter) (key : IdempotencyKey) (result : Option ControlResult)
    (accepted : List Accepted) : Adapter :=
  let ledger := s.ledger.register key result
  { s with
    ledger := ledger
    accepted := accepted.filter fun a => !a.recorded || (ledger.entries.get? a.key).isSome }

/-- The end of `submit`, after the engine has answered. -/
def register (s : Adapter) (call : Call) : Adapter :=
  match call.receipt with
  | .ready result =>
    if isAuthorizationRejection result then s else s.enter call.key (some result) s.accepted
  | .pending shared => s.enter call.key none (s.accepted ++ [⟨call.key, shared, false⟩])
  -- `submit` has returned the error.
  | .conflict _ => s
  | .engineClosed => s

/-- The adapter and its environment. -/
def step (s : Adapter) : Label → Option Adapter
  | .answer deviceId requestId receipt =>
    some { s with calls := s.calls ++ [⟨⟨s.ns, deviceId, requestId⟩, receipt⟩] }
  | .register i =>
    match s.calls[i]? with
    | some call => some { s.register call with calls := s.calls.eraseIdx i }
    | none => none
  | .resolve shared result =>
    match s.shared.get? shared with
    | some _ => none
    | none => some { s with shared := s.shared.insert shared result }
  | .record i =>
    match s.accepted[i]? with
    | some a =>
      match a.recorded, s.shared.get? a.shared with
      | false, some result =>
        some (s.enter a.key (some result) (s.accepted.set i { a with recorded := true }))
      | _, _ => none
    | none => none

/-- The status query of the adapter. -/
def status (s : Adapter) (deviceId requestId : String) : ControlStatusQuery :=
  s.ledger.query deviceId requestId

end Adapter

/-- The adapter as a machine. -/
def adapterMachine : Machine Adapter Label := ⟨Adapter.step⟩

end ForgeLink.Rest
