import ForgeLink.Control.JournalOpen
import ForgeLink.Lib.Run

/-!
# Runs of the file journal

The journal as a machine: its operations in any order and with any clock, each
write with its fault, and reopening the file.  `FileJournal.Effect` says what
one operation does, and every invariant below is derived from it.

`FileJournal.Stored` is the invariant that needs no assumption on the clock: as
long as no failed write leaves bytes behind, the file is the text of some list
of records, and every entry of the map has an insert among them.
-/

namespace ForgeLink.Control

open Lib

variable {serde : SerdeJson}
variable {j : FileJournal} {nowNs : TimestampNs} {entries : Entries}

/-! ## Operations -/

/-- An operation on the journal, with what its environment decides: the clock,
the fault of its write, the iteration order of a compaction. -/
inductive JournalOp where
  | tryInsert (key : IdempotencyKey) (payloadHash : String)
      (createdAtNs expiresAtNs : TimestampNs) (fault : Option Nat)
  | settle (key : IdempotencyKey) (result : ControlResult) (fault : Option Nat)
  | purgeExpired (nowNs : TimestampNs) (order : IterOrder)
  | reopen (nowNs : TimestampNs) (order : IterOrder)

/-- The journal of a file that does not exist yet. -/
def FileJournal.new : FileJournal := ⟨[], .empty⟩

/-- One operation.  A reopen is enabled if the file is accepted. -/
def FileJournal.step (serde : SerdeJson) (j : FileJournal) : JournalOp → Option FileJournal
  | .tryInsert key payloadHash createdAtNs expiresAtNs fault =>
    some (j.tryInsert serde key payloadHash createdAtNs expiresAtNs fault).1
  | .settle key result fault => some (j.settle serde key result fault).1
  | .purgeExpired nowNs order => some (j.purgeExpired serde order nowNs).1
  | .reopen nowNs order => (FileJournal.openAt serde order j.file nowNs).toOption

/-- The journal as a machine. -/
def journalMachine (serde : SerdeJson) : Machine FileJournal JournalOp := ⟨FileJournal.step serde⟩

theorem step_reopen {j' : FileJournal} {order : IterOrder}
    (opened : FileJournal.openAt serde order j.file nowNs = .ok j') :
    (journalMachine serde).step j (.reopen nowNs order) = some j' := by
  change (FileJournal.openAt serde order j.file nowNs).toOption = some j'
  rw [opened]
  rfl

namespace FileJournal

/-- No unexpired entry for an insert at this time. -/
def Free (j : FileJournal) (key : IdempotencyKey) (createdAtNs : TimestampNs) : Prop :=
  ∀ e, j.entries.get? key = some e → e.expiresAtNs < createdAtNs

/-- The entries a purge keeps. -/
def kept (j : FileJournal) (nowNs : TimestampNs) : Entries :=
  j.entries.filter fun _ => JournalEntry.alive nowNs

/-- What an operation does to the journal. -/
inductive Effect (serde : SerdeJson) (j : FileJournal) : JournalOp → FileJournal → Prop where
  | found {key hash created expires fault e} :
      j.entries.get? key = some e → created ≤ e.expiresAtNs →
      Effect serde j (.tryInsert key hash created expires fault) j
  | inserted {key hash created expires} :
      j.Free key created →
      Effect serde j (.tryInsert key hash created expires none)
        ⟨j.file ++ serde.line (.insert key hash .running created expires),
          j.entries.insert key (freshEntry key hash created expires)⟩
  | insertFailed {key hash created expires n} :
      j.Free key created →
      Effect serde j (.tryInsert key hash created expires (some n))
        ⟨j.file ++ (serde.line (.insert key hash .running created expires)).take n, j.entries⟩
  | unknown {key result fault} :
      j.entries.get? key = none → Effect serde j (.settle key result fault) j
  | settled {key result e} :
      j.entries.get? key = some e →
      Effect serde j (.settle key result none)
        ⟨j.file ++ serde.line (.settle key result),
          j.entries.modify key (JournalEntry.settled result)⟩
  | settleFailed {key result n e} :
      j.entries.get? key = some e →
      Effect serde j (.settle key result (some n))
        ⟨j.file ++ (serde.line (.settle key result)).take n, j.entries⟩
  | purgedNothing {nowNs order} :
      (∀ k, (j.kept nowNs).get? k = j.entries.get? k) →
      Effect serde j (.purgeExpired nowNs order) ⟨j.file, j.kept nowNs⟩
  | purged {nowNs order} :
      Effect serde j (.purgeExpired nowNs order)
        ⟨serde.fileOf (compactRecords order (j.kept nowNs) nowNs), j.kept nowNs⟩
  | reopened {nowNs order j'} :
      openAt serde order j.file nowNs = .ok j' → Effect serde j (.reopen nowNs order) j'

theorem free_of_filter_eq_none {key : IdempotencyKey} {createdAtNs : TimestampNs}
    (h : ((j.entries.get? key).filter fun e => decide (createdAtNs ≤ e.expiresAtNs)) = none) :
    j.Free key createdAtNs := by
  intro e found
  rw [found, Option.filter_some] at h
  split at h
  · cases h
  next late => exact Int.not_le.mp fun le => late (decide_eq_true le)

theorem effect_tryInsert (j : FileJournal) (key : IdempotencyKey) (hash : String)
    (created expires : TimestampNs) (fault : Option Nat) :
    Effect serde j (.tryInsert key hash created expires fault)
      (j.tryInsert serde key hash created expires fault).1 := by
  rw [tryInsert]
  split
  next e found =>
    obtain ⟨here, early⟩ := Option.filter_eq_some_iff.mp found
    exact .found here (of_decide_eq_true early)
  next absent =>
    have free := free_of_filter_eq_none absent
    cases fault with
    | none => exact .inserted free
    | some n => exact .insertFailed free

theorem effect_settle (j : FileJournal) (key : IdempotencyKey) (result : ControlResult)
    (fault : Option Nat) :
    Effect serde j (.settle key result fault) (j.settle serde key result fault).1 := by
  rw [settle]
  split
  next known =>
    obtain ⟨e, here⟩ := Option.isSome_iff_exists.mp known
    cases fault with
    | none => exact .settled here
    | some n => exact .settleFailed here
  next missing => exact .unknown (by simpa using missing)

theorem effect_purgeExpired (j : FileJournal) (nowNs : TimestampNs) (order : IterOrder) :
    Effect serde j (.purgeExpired nowNs order) (j.purgeExpired serde order nowNs).1 := by
  by_cases removed : j.entries.size - (j.kept nowNs).size > 0
  · have same : (j.purgeExpired serde order nowNs).1 =
        ⟨serde.fileOf (compactRecords order (j.kept nowNs) nowNs), j.kept nowNs⟩ :=
      if_pos removed
    rw [same]
    exact .purged
  · have same : (j.purgeExpired serde order nowNs).1 = ⟨j.file, j.kept nowNs⟩ := if_neg removed
    rw [same]
    exact .purgedNothing (AssocMap.get?_filter_of_size_eq (by rw [kept] at removed; omega))

/-- Every step of the machine has one of these effects. -/
theorem step_effect {j' : FileJournal} {op : JournalOp}
    (taken : (journalMachine serde).step j op = some j') : Effect serde j op j' := by
  cases op with
  | tryInsert key hash created expires fault =>
    obtain rfl := Option.some.inj taken
    exact effect_tryInsert j key hash created expires fault
  | settle key result fault =>
    obtain rfl := Option.some.inj taken
    exact effect_settle j key result fault
  | purgeExpired nowNs order =>
    obtain rfl := Option.some.inj taken
    exact effect_purgeExpired j nowNs order
  | reopen nowNs order =>
    simp only [journalMachine, step] at taken
    cases opened : openAt serde order j.file nowNs with
    | error e =>
      rw [opened] at taken
      cases taken
    | ok j'' =>
      rw [opened] at taken
      obtain rfl := Option.some.inj taken
      exact .reopened opened

/-! ## The file as a list of records -/

/-- The file is the text of these records, the entries stand under their keys,
and each of them has an insert in the file. -/
structure Stored (serde : SerdeJson) (j : FileJournal) (records : List Record) : Prop where
  file : j.file = serde.fileOf records
  keyed : j.entries.Keyed
  found : ∀ k e, j.entries.get? k = some e → (raw records k).isSome

theorem Stored.new : Stored serde new [] where
  file := rfl
  keyed := fun _ e here => absurd here.symm (Option.some_ne_none e)
  found := fun _ e here => absurd here.symm (Option.some_ne_none e)

theorem keyed_insert (keyed : entries.Keyed) (key : IdempotencyKey) (hash : String)
    (created expires : TimestampNs) :
    Entries.Keyed (entries.insert key (freshEntry key hash created expires)) := by
  intro k e here
  rw [AssocMap.get?_insert] at here
  split at here
  next same =>
    obtain rfl := Option.some.inj here
    exact ⟨same.symm, fun r settled => absurd settled.symm (Option.some_ne_none r)⟩
  next => exact keyed k e here

theorem keyed_modify (keyed : entries.Keyed) (key : IdempotencyKey) (result : ControlResult) :
    Entries.Keyed (entries.modify key (JournalEntry.settled result)) := by
  intro k e here
  rw [AssocMap.get?_modify] at here
  split at here
  next =>
    obtain ⟨old, before, rfl⟩ := Option.map_eq_some_iff.mp here
    exact ⟨(keyed k old before).1, old.settled_coherent result⟩
  next => exact keyed k e here

theorem get?_kept {k : IdempotencyKey} {e : JournalEntry} :
    (j.kept nowNs).get? k = some e ↔ j.entries.get? k = some e ∧ e.alive nowNs = true := by
  rw [kept, AssocMap.get?_filter, Option.filter_eq_some_iff]

theorem keyed_kept (keyed : j.entries.Keyed) (nowNs : TimestampNs) : (j.kept nowNs).Keyed :=
  fun k e here => keyed k e (get?_kept.mp here).1

/-- A journal whose file compaction has just written. -/
theorem stored_compact {file : Bytes} {order : IterOrder} (keyed : entries.Keyed)
    (alive : ∀ k e, entries.get? k = some e → e.alive nowNs = true)
    (written : file = serde.fileOf (compactRecords order entries nowNs)) :
    Stored serde ⟨file, entries⟩ (compactRecords order entries nowNs) where
  file := written
  keyed := keyed
  found := by
    intro k e here
    rw [raw_compactRecords keyed, show entries.get? k = some e from here, Option.filter_some,
      if_pos (alive k e here)]
    rfl

end FileJournal

/-- The fault of an operation's write. -/
def JournalOp.fault : JournalOp → Option Nat
  | .tryInsert _ _ _ _ fault => fault
  | .settle _ _ fault => fault
  | .purgeExpired _ _ => none
  | .reopen _ _ => none

/-- If the write fails, it leaves nothing in the file. -/
def JournalOp.Traceless (op : JournalOp) : Prop := ∀ n, op.fault = some n → n = 0

theorem JournalOp.traceless_of_clean (op : JournalOp) (clean : op.fault = none) :
    op.Traceless := by
  intro n failed
  rw [clean] at failed
  cases failed

namespace FileJournal

variable {j' : FileJournal} {op : JournalOp} {records : List Record}

/-- An operation that leaves no stray bytes keeps the file a list of records. -/
theorem Stored.step (lawful : serde.Lawful) (stored : Stored serde j records)
    (traceless : op.Traceless) (effect : Effect serde j op j') :
    ∃ records', Stored serde j' records' := by
  obtain ⟨file, keyed, found⟩ := stored
  cases effect with
  | found | unknown => exact ⟨records, file, keyed, found⟩
  | @inserted key hash created expires _ =>
    refine ⟨records ++ [.insert key hash .running created expires], ?_,
      keyed_insert keyed key hash created expires, ?_⟩
    · rw [SerdeJson.fileOf_snoc, ← file]
    · intro k e here
      rw [AssocMap.get?_insert] at here
      rw [raw_snoc, Record.act]
      split at here
      next same => rw [if_pos same.symm, Option.isSome_some]
      next differ =>
        rw [if_neg (Ne.symm differ)]
        exact found k e here
  | @insertFailed key hash created expires n _ | @settleFailed key result n e _ =>
    obtain rfl := traceless n rfl
    refine ⟨records, ?_, keyed, found⟩
    simpa using file
  | @settled key result e here =>
    refine ⟨records ++ [.settle key result], ?_, keyed_modify keyed key result, ?_⟩
    · rw [SerdeJson.fileOf_snoc, ← file]
    · intro k e' after
      rw [AssocMap.get?_modify] at after
      rw [raw_snoc]
      apply Record.act_isSome
      split at after
      next =>
        obtain ⟨old, before, _⟩ := Option.map_eq_some_iff.mp after
        exact found k old before
      next => exact found k e' after
  | purgedNothing =>
    exact ⟨records, file, keyed_kept keyed _, fun k e here =>
      found k e (get?_kept.mp here).1⟩
  | purged =>
    exact ⟨_, stored_compact (keyed_kept keyed _) (fun k e here => (get?_kept.mp here).2) rfl⟩
  | @reopened nowNs order j' opened =>
    rw [file] at opened
    have replayed := fun k e => lawful.openAt_replayed opened (k := k) (e := e)
    have keyed' : j'.entries.Keyed := fun k e here =>
      ⟨(replayed k e here).key, (replayed k e here).coherent⟩
    obtain ⟨st, done, entries, ⟨_, same⟩ | rewritten⟩ := lawful.openAt_inv opened
    · exact ⟨records, same, keyed', fun k e here => (replayed k e here).found⟩
    · exact ⟨_, stored_compact keyed' (fun k e here => (replayed k e here).alive) rewritten⟩

/-- In every run without stray bytes the file is a list of records. -/
theorem stored_of_run (lawful : serde.Lawful) {ops : List JournalOp}
    (run : (journalMachine serde).Run (fun _ op => op.Traceless) new ops j) :
    ∃ records, Stored serde j records :=
  run.invariant (P := fun j => ∃ records, Stored serde j records) ⟨[], Stored.new⟩
    fun _ _ _ ⟨_, stored⟩ traceless taken => stored.step lawful traceless (step_effect taken)

end FileJournal

end ForgeLink.Control
