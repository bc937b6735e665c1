import ForgeLink.Control.JournalAccepts
import ForgeLink.Control.JournalTorn

/-!
# The file journal refines the in-memory journal

The in-memory journal is the specification: `InMemoryJournal.replay` applies to
it the operations that the file journal carried out.  A reopen drops the
expired records there, and a write that failed changes nothing.

The two agree up to recovery (`Recovered`): a record that the specification
still has without an outcome may stand in the file journal as interrupted at
the time of some open.  `Refines` carries the relation through the file: what
the file says recovers the specification, and what the map says recovers the
file.  Compaction writes the map, so it moves a recovered record into the file
and freezes the time at which it was recovered.
-/

namespace ForgeLink.Control

open Lib

variable {serde : SerdeJson} {nowNs : TimestampNs} {times : List TimestampNs}
  {o o' o'' : Option JournalEntry}
variable {entries : Entries} {key : IdempotencyKey} {hash : String} {created : TimestampNs}
  {e : JournalEntry} {order : IterOrder} {ops : List JournalOp} {j : FileJournal}

/-! ## The specification -/

namespace InMemoryJournal

/-- The in-memory journal under an operation that the file journal carried
out. -/
def apply (entries : Entries) : JournalOp → Entries
  | .tryInsert key payloadHash createdAtNs expiresAtNs none =>
    (tryInsert entries key payloadHash createdAtNs expiresAtNs).1
  | .settle key result none => settle entries key result
  | .tryInsert _ _ _ _ (some _) => entries
  | .settle _ _ (some _) => entries
  | .purgeExpired nowNs _ => (purgeExpired entries nowNs).1
  | .reopen nowNs _ => (purgeExpired entries nowNs).1

/-- The in-memory journal after a run. -/
def replay (ops : List JournalOp) : Entries := ops.foldl apply .empty

theorem replay_snoc (ops : List JournalOp) (op : JournalOp) :
    replay (ops ++ [op]) = apply (replay ops) op := by
  simp [replay]

theorem tryInsert_of_found {expires : TimestampNs} (here : entries.get? key = some e)
    (early : created ≤ e.expiresAtNs) :
    tryInsert entries key hash created expires = (entries, e.decide hash) := by
  have kept : ((entries.get? key).filter fun e => decide (created ≤ e.expiresAtNs)) = some e := by
    rw [here, Option.filter_some, if_pos (decide_eq_true early)]
  rw [tryInsert, kept]

theorem tryInsert_of_free {expires : TimestampNs}
    (free : ∀ e, entries.get? key = some e → e.expiresAtNs < created) :
    tryInsert entries key hash created expires =
      (entries.insert key (freshEntry key hash created expires), .inserted) := by
  have gone : ((entries.get? key).filter fun e => decide (created ≤ e.expiresAtNs)) = none := by
    cases here : entries.get? key with
    | none => rfl
    | some e =>
      rw [Option.filter_some, if_neg]
      simpa using free e here
  rw [tryInsert, gone]

theorem get?_purgeExpired (entries : Entries) (k : IdempotencyKey) :
    (purgeExpired entries nowNs).1.get? k = (entries.get? k).filter (JournalEntry.alive nowNs) :=
  AssocMap.get?_filter ..

end InMemoryJournal

/-- The clock of a reopen. -/
def JournalOp.opens : JournalOp → List TimestampNs
  | .reopen nowNs _ => [nowNs]
  | _ => []

/-- The times at which a run opened the file. -/
def opens (ops : List JournalOp) : List TimestampNs := ops.flatMap JournalOp.opens

/-- An insert never expires before it is created; submits add their retention
to the current time. -/
def JournalOp.Ordered : JournalOp → Prop
  | .tryInsert _ _ createdAtNs expiresAtNs _ => createdAtNs ≤ expiresAtNs
  | _ => True

instance (op : JournalOp) : Decidable op.Ordered := by
  cases op <;> unfold JournalOp.Ordered <;> infer_instance

/-! ## Recovered records -/

/-- Equal, or interrupted at one of these times where there was no outcome. -/
inductive Recovered (times : List TimestampNs) :
    Option JournalEntry → Option JournalEntry → Prop where
  | same (o : Option JournalEntry) : Recovered times o o
  | interrupted {e : JournalEntry} {t : TimestampNs} :
      e.Unsettled → t ∈ times → Recovered times (some e) (some (e.interrupted t))

theorem JournalEntry.not_unsettled_interrupted (e : JournalEntry) (t : TimestampNs) :
    ¬(e.interrupted t).Unsettled := by
  rintro (h | h) <;> cases h

theorem JournalEntry.not_unsettled_recover (e : JournalEntry) :
    ¬(e.recover nowNs).Unsettled := by
  rw [JournalEntry.recover]
  split
  · exact e.not_unsettled_interrupted nowNs
  next settled => exact settled

namespace Recovered

theorem mono {times' : List TimestampNs} (h : Recovered times o o')
    (sub : ∀ t ∈ times, t ∈ times') : Recovered times' o o' := by
  cases h with
  | same => exact .same o
  | interrupted unsettled inside => exact .interrupted unsettled (sub _ inside)

theorem trans (first : Recovered times o o') (second : Recovered times o' o'') :
    Recovered times o o'' := by
  cases first with
  | same => exact second
  | interrupted unsettled inside =>
    cases second with
    | same => exact .interrupted unsettled inside
    | interrupted again => exact absurd again (JournalEntry.not_unsettled_interrupted _ _)

/-- Recovery moves neither the key nor the expiry. -/
theorem expires {e' : JournalEntry} (h : Recovered times o (some e')) :
    ∃ e, o = some e ∧ e.key = e'.key ∧ e.expiresAtNs = e'.expiresAtNs := by
  cases h with
  | same => exact ⟨e', rfl, rfl, rfl⟩
  | interrupted => exact ⟨_, rfl, rfl, rfl⟩

theorem expires_left (h : Recovered times (some e) o') :
    ∃ e', o' = some e' ∧ e'.expiresAtNs = e.expiresAtNs := by
  cases h with
  | same => exact ⟨e, rfl, rfl⟩
  | interrupted => exact ⟨_, rfl, rfl⟩

theorem alive (h : Recovered times o o') :
    Recovered times (o.filter (JournalEntry.alive nowNs))
      (o'.filter (JournalEntry.alive nowNs)) := by
  cases h with
  | same => exact .same _
  | @interrupted e t unsettled inside =>
    have same : (e.interrupted t).alive nowNs = e.alive nowNs := rfl
    rw [Option.filter_some, Option.filter_some]
    by_cases live : e.alive nowNs = true
    · rw [if_pos live, if_pos (same ▸ live)]
      exact .interrupted unsettled inside
    · rw [if_neg live, if_neg (same ▸ live)]
      exact .same none

/-- A settle forgets the recovery. -/
theorem settled (h : Recovered times o o') (result : ControlResult) :
    o'.map (JournalEntry.settled result) = o.map (JournalEntry.settled result) := by
  cases h <;> rfl

/-- An open recovers what is left without an outcome. -/
theorem recover (h : Recovered times o o') :
    Recovered (nowNs :: times) o (o'.map (JournalEntry.recover nowNs)) := by
  cases h with
  | same =>
    cases o with
    | none => exact .same none
    | some e =>
      rw [Option.map_some, JournalEntry.recover]
      split
      next unsettled => exact .interrupted unsettled List.mem_cons_self
      next => exact .same (some e)
  | @interrupted e t unsettled inside =>
    rw [Option.map_some, JournalEntry.recover, if_neg (e.not_unsettled_interrupted t)]
    exact .interrupted unsettled (List.mem_cons_of_mem _ inside)

end Recovered

/-! ## The relation and its steps -/

/-- The file holds these records, they recover the specification, and the map
recovers them. -/
structure Refines (serde : SerdeJson) (times : List TimestampNs) (spec : Entries)
    (j : FileJournal) (records : List Record) : Prop where
  file : j.file = serde.fileOf records
  grown : Grown records
  written : ∀ k, Recovered times (spec.get? k) (raw records k)
  loaded : ∀ k, Recovered times (raw records k) (j.entries.get? k)

namespace Refines

variable {spec : Entries} {j' : FileJournal} {records : List Record} {op : JournalOp}

theorem new : Refines serde times .empty .new [] where
  file := rfl
  grown := .nil
  written _ := .same none
  loaded _ := .same none

theorem recovered (h : Refines serde times spec j records) (k : IdempotencyKey) :
    Recovered times (spec.get? k) (j.entries.get? k) :=
  (h.written k).trans (h.loaded k)

theorem keyed (h : Refines serde times spec j records) : j.entries.Keyed := by
  intro k e here
  have loaded := h.loaded k
  rw [here] at loaded
  generalize old : raw records k = o at loaded
  cases loaded with
  | same => exact raw_keyed records old
  | interrupted =>
    refine ⟨(raw_keyed records old).1, ?_⟩
    rintro r ⟨⟩
    rfl

theorem mono {times' : List TimestampNs} (h : Refines serde times spec j records)
    (sub : ∀ t ∈ times, t ∈ times') : Refines serde times' spec j records :=
  ⟨h.file, h.grown, fun k => (h.written k).mono sub, fun k => (h.loaded k).mono sub⟩

theorem free (h : Refines serde times spec j records) (free : j.Free key created) :
    (∀ e, spec.get? key = some e → e.expiresAtNs < created) ∧
      ∀ e, raw records key = some e → e.expiresAtNs < created := by
  constructor
  · intro e here
    have recovered := h.recovered key
    rw [here] at recovered
    obtain ⟨e', found, same⟩ := recovered.expires_left
    exact same ▸ free e' found
  · intro e here
    have loaded := h.loaded key
    rw [here] at loaded
    obtain ⟨e', found, same⟩ := loaded.expires_left
    exact same ▸ free e' found

/-- A journal that compaction has just written, over any file. -/
theorem compacted {file : Bytes} (keyed : entries.Keyed)
    (alive : ∀ k e, entries.get? k = some e → e.alive nowNs = true)
    (recovered : ∀ k, Recovered times (spec.get? k) (entries.get? k))
    (written : file = serde.fileOf (FileJournal.compactRecords order entries nowNs)) :
    Refines serde times spec ⟨file, entries⟩
      (FileJournal.compactRecords order entries nowNs) := by
  have all : ∀ k, raw (FileJournal.compactRecords order entries nowNs) k = entries.get? k := by
    intro k
    rw [raw_compactRecords keyed]
    cases here : entries.get? k with
    | none => rfl
    | some e => rw [Option.filter_some, if_pos (alive k e here)]
  refine ⟨written, grown_compactRecords keyed, fun k => ?_, fun k => ?_⟩
  · rw [all k]
    exact recovered k
  · rw [all k]
    exact .same _

/-- An insert in the file is one in memory. -/
theorem insert (h : Refines serde times spec j records) {expires : TimestampNs}
    (free : j.Free key created) (ordered : created ≤ expires) :
    Refines serde times (spec.insert key (freshEntry key hash created expires))
      ⟨j.file ++ serde.line (.insert key hash .running created expires),
        j.entries.insert key (freshEntry key hash created expires)⟩
      (records ++ [.insert key hash .running created expires]) := by
  refine ⟨?_, .snoc h.grown fun e here => ?_, fun k => ?_, fun k => ?_⟩
  · rw [SerdeJson.fileOf_snoc, ← h.file]
  · exact Int.le_of_lt (Int.lt_of_lt_of_le ((h.free free).2 e here) ordered)
  · rw [AssocMap.get?_insert, raw_snoc, Record.act]
    by_cases same : key = k
    · rw [if_pos same.symm, if_pos same]
      exact .same _
    · rw [if_neg (Ne.symm same), if_neg same]
      exact h.written k
  · rw [AssocMap.get?_insert, raw_snoc, Record.act]
    by_cases same : key = k
    · rw [if_pos same.symm, if_pos same]
      exact .same _
    · rw [if_neg (Ne.symm same), if_neg same]
      exact h.loaded k

/-- A settle in the file is one in memory. -/
theorem settle (h : Refines serde times spec j records) {result : ControlResult}
    (here : j.entries.get? key = some e) :
    Refines serde times (spec.modify key (JournalEntry.settled result))
      ⟨j.file ++ serde.line (.settle key result),
        j.entries.modify key (JournalEntry.settled result)⟩
      (records ++ [.settle key result]) := by
  have known : (raw records key).isSome := by
    have loaded := h.loaded key
    rw [here] at loaded
    obtain ⟨e', found, _⟩ := loaded.expires
    rw [found]
    rfl
  refine ⟨?_, .snoc h.grown known, fun k => ?_, fun k => ?_⟩
  · rw [SerdeJson.fileOf_snoc, ← h.file]
  · rw [AssocMap.get?_modify, raw_snoc, Record.act]
    by_cases same : key = k
    · rw [if_pos same.symm, if_pos same, (h.written k).settled]
      exact .same _
    · rw [if_neg (Ne.symm same), if_neg same]
      exact h.written k
  · rw [AssocMap.get?_modify, raw_snoc, Record.act]
    by_cases same : key = k
    · rw [if_pos same.symm, if_pos same, (h.loaded k).settled]
      exact .same _
    · rw [if_neg (Ne.symm same), if_neg same]
      exact h.loaded k

/-- What an open recovers. -/
theorem openAt_get? (lawful : serde.Lawful) (grown : Grown records)
    (opened : FileJournal.openAt serde order (serde.fileOf records) nowNs = .ok j)
    (k : IdempotencyKey) :
    j.entries.get? k =
      ((raw records k).filter (JournalEntry.alive nowNs)).map (JournalEntry.recover nowNs) := by
  obtain ⟨st, done, entries, _⟩ := lawful.openAt_inv opened
  rw [entries, replayRecords_get? grown done]

theorem openAt_recovered (lawful : serde.Lawful) (h : Refines serde times spec j records)
    (opened : FileJournal.openAt serde order j.file nowNs = .ok j') (k : IdempotencyKey) :
    Recovered (nowNs :: times) ((spec.get? k).filter (JournalEntry.alive nowNs))
      (j'.entries.get? k) := by
  rw [h.file] at opened
  rw [openAt_get? lawful h.grown opened]
  exact (h.written k).alive.recover

/-- Opening a file is purging in memory. -/
theorem reopen (lawful : serde.Lawful) (h : Refines serde times spec j records)
    (opened : FileJournal.openAt serde order j.file nowNs = .ok j') :
    ∃ records', Refines serde (nowNs :: times) (InMemoryJournal.purgeExpired spec nowNs).1 j'
      records' := by
  have recovered : ∀ k, Recovered (nowNs :: times)
      ((InMemoryJournal.purgeExpired spec nowNs).1.get? k) (j'.entries.get? k) := by
    intro k
    rw [InMemoryJournal.get?_purgeExpired]
    exact h.openAt_recovered lawful opened k
  rw [h.file] at opened
  have replayed := fun k e => lawful.openAt_replayed opened (k := k) (e := e)
  obtain ⟨st, done, entries, ⟨kept, same⟩ | rewritten⟩ := lawful.openAt_inv opened
  · -- Nothing was dropped, so the clock keeps every entry of the file.
    have all := replayRecords_of_not_needCompact done kept h.grown
    refine ⟨records, same, h.grown, fun k => ?_, fun k => ?_⟩
    · rw [InMemoryJournal.get?_purgeExpired, ← all k, replayRecords_get? h.grown done]
      exact ((h.written k).mono fun t => List.mem_cons_of_mem _).alive
    · rw [entries, all k]
      exact (show Recovered times (raw records k) (raw records k) from .same _).recover
  · exact ⟨_, compacted (fun k e here => ⟨(replayed k e here).key, (replayed k e here).coherent⟩)
      (fun k e here => (replayed k e here).alive) recovered rewritten⟩

/-- One operation keeps the relation. -/
theorem step (lawful : serde.Lawful) (h : Refines serde times spec j records)
    (traceless : op.Traceless) (ordered : op.Ordered) (effect : FileJournal.Effect serde j op j') :
    ∃ records', Refines serde (times ++ op.opens) (InMemoryJournal.apply spec op) j' records' := by
  have h' : Refines serde (times ++ op.opens) spec j records :=
    h.mono fun t => List.mem_append_left _
  cases effect with
  | @found key hash created expires fault e here early =>
    refine ⟨records, ?_⟩
    cases fault with
    | some n => exact h'
    | none =>
      have recovered := h.recovered key
      rw [here] at recovered
      obtain ⟨e', there, _, same⟩ := recovered.expires
      rw [InMemoryJournal.apply, InMemoryJournal.tryInsert_of_found there (same ▸ early)]
      exact h'
  | inserted free =>
    rw [InMemoryJournal.apply, InMemoryJournal.tryInsert_of_free (h.free free).1]
    exact ⟨_, h'.insert free ordered⟩
  | @insertFailed key hash created expires n _ | @settleFailed key result n e _ =>
    obtain rfl := traceless n rfl
    simp only [List.take_zero, List.append_nil]
    exact ⟨records, h'⟩
  | @unknown key result fault missing =>
    refine ⟨records, ?_⟩
    cases fault with
    | some n => exact h'
    | none =>
      refine ⟨h.file, h.grown, fun k => ?_, h'.loaded⟩
      have absent : spec.get? key = none := by
        cases there : spec.get? key with
        | none => rfl
        | some e =>
          have recovered := h.recovered key
          rw [there, missing] at recovered
          cases recovered
      rw [InMemoryJournal.apply, InMemoryJournal.settle, AssocMap.get?_modify]
      split
      next same =>
        subst same
        have written := h'.written k
        rw [absent] at written ⊢
        exact written
      next => exact h'.written k
  | settled here => exact ⟨_, h'.settle here⟩
  | @purgedNothing nowNs order same =>
    refine ⟨records, h.file, h.grown, fun k => ?_, fun k => ?_⟩
    · -- Every entry of the map is unexpired, hence so are the file's.
      have all : (raw records k).filter (JournalEntry.alive nowNs) = raw records k := by
        cases here : raw records k with
        | none => rfl
        | some e =>
          have loaded := h.loaded k
          rw [here] at loaded
          obtain ⟨e', there, expires⟩ := loaded.expires_left
          have live := (FileJournal.get?_kept.mp ((same k).trans there)).2
          rw [JournalEntry.alive, expires] at live
          exact if_pos live
      rw [InMemoryJournal.apply, InMemoryJournal.get?_purgeExpired, ← all]
      exact (h'.written k).alive
    · change Recovered _ (raw records k) ((j.kept nowNs).get? k)
      rw [same k]
      exact h'.loaded k
  | @purged nowNs order =>
    refine ⟨_, compacted (FileJournal.keyed_kept h.keyed nowNs)
      (fun k e here => (FileJournal.get?_kept.mp here).2) (fun k => ?_) rfl⟩
    rw [InMemoryJournal.apply, InMemoryJournal.get?_purgeExpired, FileJournal.kept,
      AssocMap.get?_filter]
    exact (h'.recovered k).alive
  | @reopened nowNs order j' opened =>
    obtain ⟨records', next⟩ := h.reopen lawful opened
    refine ⟨records', next.mono fun t inside => ?_⟩
    rcases List.mem_cons.mp inside with rfl | inside
    · exact List.mem_append_right _ List.mem_cons_self
    · exact List.mem_append_left _ inside

end Refines

/-- In every run whose failed writes leave nothing behind, the journal refines
the in-memory journal. -/
theorem refines_of_run (lawful : serde.Lawful)
    (run : (journalMachine serde).Run (fun _ op => op.Traceless ∧ op.Ordered) .new ops j) :
    ∃ records, Refines serde (opens ops) (InMemoryJournal.replay ops) j records := by
  induction run with
  | nil => exact ⟨[], Refines.new⟩
  | @snoc ops op _ _ _ meets taken ih =>
    obtain ⟨records, h⟩ := ih
    obtain ⟨records', h'⟩ := h.step lawful meets.1 meets.2 (FileJournal.step_effect taken)
    rw [InMemoryJournal.replay_snoc, opens, List.flatMap_append, List.flatMap_singleton]
    exact ⟨records', h'⟩

/-! ## Refinement -/

/-- Decisions on records that agree up to recovery. -/
inductive SameDecision (times : List TimestampNs) :
    JournalDecision → Except JournalError JournalDecision → Prop where
  | inserted : SameDecision times .inserted (.ok .inserted)
  | duplicate {e e' : JournalEntry} :
      Recovered times (some e) (some e') → SameDecision times (.duplicate e) (.ok (.duplicate e'))
  | conflict {e e' : JournalEntry} :
      Recovered times (some e) (some e') → SameDecision times (.conflict e) (.ok (.conflict e'))

/-- Equal, or the same record interrupted at two times. -/
inductive SameRecovery : Option JournalEntry → Option JournalEntry → Prop where
  | same (o : Option JournalEntry) : SameRecovery o o
  | interrupted (e : JournalEntry) (t t' : TimestampNs) :
      SameRecovery (some (e.interrupted t)) (some (e.interrupted t'))

theorem Recovered.decide {e' : JournalEntry} (h : Recovered times (some e) (some e'))
    (hash : String) : SameDecision times (e.decide hash) (.ok (e'.decide hash)) := by
  have sameHash : e'.payloadHash = e.payloadHash := by
    cases h <;> rfl
  rw [JournalEntry.decide, JournalEntry.decide, sameHash]
  split
  · exact .duplicate h
  · exact .conflict h

theorem Recovered.sameRecovery (h : Recovered times o o') :
    SameRecovery (o.map (JournalEntry.recover nowNs)) (o'.map (JournalEntry.recover nowNs)) := by
  cases h with
  | same => exact .same _
  | @interrupted e t unsettled _ =>
    rw [Option.map_some, Option.map_some, JournalEntry.recover, if_pos unsettled,
      JournalEntry.recover, if_neg (e.not_unsettled_interrupted t)]
    exact .interrupted e nowNs t

namespace Refines

variable {spec : Entries} {records : List Record}

theorem sameDecision (h : Refines serde times spec j records) (key : IdempotencyKey)
    (hash : String) (created expires : TimestampNs) :
    SameDecision times (InMemoryJournal.tryInsert spec key hash created expires).2
      (j.tryInsert serde key hash created expires none).2 := by
  rw [FileJournal.tryInsert]
  split
  next e found =>
    obtain ⟨here, early⟩ := Option.filter_eq_some_iff.mp found
    have recovered := h.recovered key
    rw [here] at recovered
    obtain ⟨e', there, _, same⟩ := recovered.expires
    rw [there] at recovered
    rw [InMemoryJournal.tryInsert_of_found there (same ▸ of_decide_eq_true early)]
    exact recovered.decide hash
  next absent =>
    have free := FileJournal.free_of_filter_eq_none absent
    rw [InMemoryJournal.tryInsert_of_free (h.free free).1]
    exact .inserted

/-- Compaction changes no recovery but its time. -/
theorem compact_sameRecovery (lawful : serde.Lawful) (h : Refines serde times spec j records)
    {compactedAtNs : TimestampNs} {order' : IterOrder} {j₁ j₂ : FileJournal}
    (kept : ∀ k e, j.entries.get? k = some e → e.alive nowNs = true → e.alive compactedAtNs =
      true) (plain : FileJournal.openAt serde order j.file nowNs = .ok j₁)
    (rewritten : FileJournal.openAt serde order (j.compact serde order' compactedAtNs).file nowNs
      = .ok j₂) (k : IdempotencyKey) : SameRecovery (j₁.entries.get? k) (j₂.entries.get? k) := by
  rw [h.file] at plain
  rw [openAt_get? lawful h.grown plain,
    openAt_get? lawful (grown_compactRecords h.keyed) rewritten, raw_compactRecords h.keyed]
  have all : ((j.entries.get? k).filter (JournalEntry.alive compactedAtNs)).filter
      (JournalEntry.alive nowNs) = (j.entries.get? k).filter (JournalEntry.alive nowNs) := by
    ext e
    simp only [Option.filter_eq_some_iff, and_assoc, and_congr_right_iff]
    intro here
    exact ⟨fun both => both.2, fun live => ⟨kept k e here live, live⟩⟩
  rw [all]
  exact (h.loaded k).alive.sameRecovery

end Refines

/-- After every run without a failed write, an open recovers the in-memory
journal's unexpired records, each with an outcome; an insert gets the same
decision from both; and compacting the file changes nothing that an open
recovers but the time of an interruption. -/
theorem journal_refines_inMemory (lawful : serde.Lawful)
    (run : (journalMachine serde).Run (fun _ op => op.fault = none ∧ op.Ordered) .new ops j) :
    (∀ nowNs order j', FileJournal.openAt serde order j.file nowNs = .ok j' → ∀ k,
      Recovered (nowNs :: opens ops)
          (((InMemoryJournal.replay ops).get? k).filter (JournalEntry.alive nowNs))
          (j'.entries.get? k) ∧
        ∀ e, j'.entries.get? k = some e → ¬e.Unsettled) ∧
    (∀ key hash created expires,
      SameDecision (opens ops)
        (InMemoryJournal.tryInsert (InMemoryJournal.replay ops) key hash created expires).2
        (j.tryInsert serde key hash created expires none).2) ∧
    (∀ compactedAtNs nowNs order order' j₁ j₂,
      (∀ k e, j.entries.get? k = some e → e.alive nowNs = true → e.alive compactedAtNs = true) →
      FileJournal.openAt serde order j.file nowNs = .ok j₁ →
      FileJournal.openAt serde order (j.compact serde order' compactedAtNs).file nowNs = .ok j₂ →
      ∀ k, SameRecovery (j₁.entries.get? k) (j₂.entries.get? k)) := by
  have traceless := run.weaken fun _ op (h : op.fault = none ∧ op.Ordered) =>
    And.intro (op.traceless_of_clean h.1) h.2
  obtain ⟨records, h⟩ := refines_of_run lawful traceless
  refine ⟨fun nowNs order j' opened k => ⟨h.openAt_recovered lawful opened k, ?_⟩,
    h.sameDecision, ?_⟩
  · intro e here
    rw [h.file] at opened
    rw [Refines.openAt_get? lawful h.grown opened] at here
    obtain ⟨old, _, rfl⟩ := Option.map_eq_some_iff.mp here
    exact old.not_unsettled_recover
  · intro compactedAtNs nowNs order order' j₁ j₂ kept plain rewritten
    exact h.compact_sameRecovery lawful kept plain rewritten

/-- The same journal, opened again. -/
theorem journal_refines_inMemory_settledOnce :
    ∃ j, (journalMachine serdeJson).Run (fun _ op => op.fault = none ∧ op.Ordered) .new
        settledOnce j ∧
      (∀ nowNs order j', FileJournal.openAt serdeJson order j.file nowNs = .ok j' → ∀ k,
        Recovered (nowNs :: opens settledOnce)
            (((InMemoryJournal.replay settledOnce).get? k).filter (JournalEntry.alive nowNs))
            (j'.entries.get? k) ∧
          ∀ e, j'.entries.get? k = some e → ¬e.Unsettled) := by
  have found : ∃ j, (journalMachine serdeJson).Run (fun _ op => op.fault = none ∧ op.Ordered) .new
      settledOnce j ∧ True := Machine.Run.of_any (fun _ => True) rfl
  obtain ⟨j, run, _⟩ := found
  exact ⟨j, run, (journal_refines_inMemory serdeJson_strict.toLawful run).1⟩

/-- A record that is inserted, and recovered by an open at 100. -/
def recoveredOnce : List JournalOp :=
  [.tryInsert startKey "hash" 0 10000 none, .reopen 100 .same]

/-- A record that is inserted a second time with an expiry in the past. -/
def insertedExpired : List JournalOp :=
  [.tryInsert startKey "hash" 100 500 none, .tryInsert startKey "hash" 600 50 none]

theorem openAt_serdeJson {records : List Record} {st : Replay}
    (replayed : replayRecords nowNs 1 .start records = .ok st) :
    ∃ j, FileJournal.openAt serdeJson .same (serdeJson.fileOf records) nowNs = .ok j ∧
      ∀ k, j.entries.get? k = (st.entries.get? k).map (JournalEntry.recover nowNs) := by
  obtain ⟨j, opened⟩ := (openAt_ok_iff serdeJson_strict.toLawful .same records).mpr
    (accepted_of_replays replayed)
  obtain ⟨st', replayed', entries, _⟩ := serdeJson_strict.toLawful.openAt_inv opened
  cases replayed.symm.trans replayed'
  exact ⟨j, opened, entries⟩

/-- Compaction freezes the time at which a record was recovered. -/
theorem compact_freezes :
    ∃ j j₁ j₂, (journalMachine serdeJson).Run (fun _ op => op.fault = none) .new recoveredOnce j ∧
      FileJournal.openAt serdeJson .same j.file 1000 = .ok j₁ ∧
      FileJournal.openAt serdeJson .same (j.compact serdeJson .same 200).file 1000 = .ok j₂ ∧
      j₁.entries.get? startKey ≠ j₂.entries.get? startKey := by
  let inserted : Record := .insert startKey "hash" .running 0 10000
  let recovered : Entries :=
    AssocMap.empty.insert startKey ((freshEntry startKey "hash" 0 10000).interrupted 100)
  have written : [] ++ serdeJson.line inserted = serdeJson.fileOf [inserted] := by
    simp [SerdeJson.fileOf]
  have reopened : FileJournal.openAt serdeJson .same ([] ++ serdeJson.line inserted) 100 =
      .ok ⟨[] ++ serdeJson.line inserted, recovered⟩ := by
    rw [written, serdeJson_strict.toLawful.openAt_fileOf]
    rfl
  have first : (journalMachine serdeJson).step .new (.tryInsert startKey "hash" 0 10000 none) =
      some ⟨[] ++ serdeJson.line inserted,
        AssocMap.empty.insert startKey (freshEntry startKey "hash" 0 10000)⟩ := rfl
  have rewritten : FileJournal.compactRecords .same recovered 200 =
      [.insert startKey "hash" .indeterminate 0 10000,
        .settle startKey (interruptedAt startKey 100)] := rfl
  have plain : replayRecords 1000 1 .start [inserted] = .ok _ := rfl
  have compacted : replayRecords 1000 1 .start
      [.insert startKey "hash" .indeterminate 0 10000,
        .settle startKey (interruptedAt startKey 100)] = .ok _ := rfl
  obtain ⟨j₁, opened₁, entries₁⟩ := openAt_serdeJson plain
  obtain ⟨j₂, opened₂, entries₂⟩ := openAt_serdeJson compacted
  refine ⟨⟨[] ++ serdeJson.line inserted, recovered⟩, j₁, j₂, ?_, ?_, ?_, ?_⟩
  · exact .cons rfl first (.cons rfl (step_reopen reopened) .nil)
  · rw [written, opened₁]
  · rw [FileJournal.compact, rewritten, opened₂]
  · rw [entries₁, entries₂]
    decide

/-- Compaction drops a record that an earlier clock would keep. -/
theorem compact_drops :
    ∃ j j₁ j₂, (journalMachine serdeJson).Run (fun _ op => op.fault = none) .new settledOnce j ∧
      FileJournal.openAt serdeJson .same j.file 100 = .ok j₁ ∧
      FileJournal.openAt serdeJson .same (j.compact serdeJson .same 1000).file 100 = .ok j₂ ∧
      j₁.entries.get? startKey ≠ j₂.entries.get? startKey := by
  let inserted : Record := .insert startKey "hash" .running 0 500
  let settled : Record := .settle startKey startSucceeded
  have written : [] ++ serdeJson.line inserted ++ serdeJson.line settled =
      serdeJson.fileOf [inserted, settled] := by
    simp [SerdeJson.fileOf]
  have plain : replayRecords 100 1 .start [inserted, settled] = .ok _ := rfl
  have compacted : replayRecords 100 1 .start [] = .ok .start := rfl
  obtain ⟨j₁, opened₁, entries₁⟩ := openAt_serdeJson plain
  obtain ⟨j₂, opened₂, entries₂⟩ := openAt_serdeJson compacted
  refine ⟨⟨[] ++ serdeJson.line inserted ++ serdeJson.line settled, _⟩, j₁, j₂, .of_exec rfl,
    ?_, ?_, ?_⟩
  · rw [written, opened₁]
  · rw [FileJournal.compact]
    exact opened₂
  · rw [entries₁, entries₂]
    decide

/-- An insert that has already expired does not hide the one before it. -/
theorem expired_does_not_hide :
    ∃ j j', (journalMachine serdeJson).Run (fun _ op => op.fault = none) .new insertedExpired j ∧
      FileJournal.openAt serdeJson .same j.file 100 = .ok j' ∧
      (j'.entries.get? startKey).isSome ∧
      ((InMemoryJournal.replay insertedExpired).get? startKey).filter
        (JournalEntry.alive 100) = none := by
  let first : Record := .insert startKey "hash" .running 100 500
  let second : Record := .insert startKey "hash" .running 600 50
  have written : [] ++ serdeJson.line first ++ serdeJson.line second =
      serdeJson.fileOf [first, second] := by
    simp [SerdeJson.fileOf]
  have replayed : replayRecords 100 1 .start [first, second] = .ok _ := rfl
  obtain ⟨j', opened, entries⟩ := openAt_serdeJson replayed
  refine ⟨⟨[] ++ serdeJson.line first ++ serdeJson.line second, _⟩, j', .of_exec rfl, ?_, ?_, rfl⟩
  · rw [written, opened]
  · rw [entries]
    rfl

/-- The two journals are not equal outright. -/
theorem journal_differs_inMemory :
    (∃ j j₁ j₂, (journalMachine serdeJson).Run (fun _ op => op.fault = none) .new recoveredOnce j ∧
      FileJournal.openAt serdeJson .same j.file 1000 = .ok j₁ ∧
      FileJournal.openAt serdeJson .same (j.compact serdeJson .same 200).file 1000 = .ok j₂ ∧
      j₁.entries.get? startKey ≠ j₂.entries.get? startKey) ∧
    (∃ j j₁ j₂, (journalMachine serdeJson).Run (fun _ op => op.fault = none) .new settledOnce j ∧
      FileJournal.openAt serdeJson .same j.file 100 = .ok j₁ ∧
      FileJournal.openAt serdeJson .same (j.compact serdeJson .same 1000).file 100 = .ok j₂ ∧
      j₁.entries.get? startKey ≠ j₂.entries.get? startKey) ∧
    (∃ j j', (journalMachine serdeJson).Run (fun _ op => op.fault = none) .new insertedExpired j ∧
      FileJournal.openAt serdeJson .same j.file 100 = .ok j' ∧
      (j'.entries.get? startKey).isSome ∧
      ((InMemoryJournal.replay insertedExpired).get? startKey).filter
        (JournalEntry.alive 100) = none) :=
  ⟨compact_freezes, compact_drops, expired_does_not_hide⟩

/-! ## Failed writes -/

/-- In every run whose failed writes leave nothing in the file, the map is the
in-memory journal of the operations carried out, and an open of the file
succeeds whenever its records are `Accepted` and recovers every unexpired one. -/
theorem failedWrites_contained (lawful : serde.Lawful)
    (run : (journalMachine serde).Run (fun _ op => op.Traceless ∧ op.Ordered) .new ops j) :
    (∀ k, Recovered (opens ops) ((InMemoryJournal.replay ops).get? k) (j.entries.get? k)) ∧
    ∃ records, j.file = serde.fileOf records ∧
      ∀ nowNs order, Accepted nowNs records →
        ∃ j', FileJournal.openAt serde order j.file nowNs = .ok j' ∧
          ∀ k, Recovered (nowNs :: opens ops)
            (((InMemoryJournal.replay ops).get? k).filter (JournalEntry.alive nowNs))
            (j'.entries.get? k) := by
  obtain ⟨records, h⟩ := refines_of_run lawful run
  refine ⟨h.recovered, records, h.file, fun nowNs order accepted => ?_⟩
  obtain ⟨j', opened⟩ := (openAt_ok_iff lawful order records).mpr accepted
  rw [← h.file] at opened
  exact ⟨j', opened, h.openAt_recovered lawful opened⟩

/-- A write that fails at once, and the same insert again. -/
def retried : List JournalOp :=
  [.tryInsert startKey "hash" 0 500 (some 0), .tryInsert startKey "hash" 1 501 none]

/-- A write that failed and was tried again. -/
theorem failedWrites_contained_retried :
    ∃ j, (journalMachine serdeJson).Run (fun _ op => op.Traceless ∧ op.Ordered) .new retried j ∧
      (∀ k, Recovered (opens retried) ((InMemoryJournal.replay retried).get? k)
        (j.entries.get? k)) ∧
      ∃ records, j.file = serdeJson.fileOf records ∧
        ∀ nowNs order, Accepted nowNs records →
          ∃ j', FileJournal.openAt serdeJson order j.file nowNs = .ok j' ∧
            ∀ k, Recovered (nowNs :: opens retried)
              (((InMemoryJournal.replay retried).get? k).filter (JournalEntry.alive nowNs))
              (j'.entries.get? k) := by
  have run : (journalMachine serdeJson).Run (fun _ op => op.Traceless ∧ op.Ordered) .new
      retried _ :=
    .cons ⟨fun n failed => (Option.some.inj failed).symm, by decide⟩ rfl
      (.cons ⟨JournalOp.traceless_of_clean _ rfl, by decide⟩ rfl .nil)
  exact ⟨_, run, failedWrites_contained serdeJson_strict.toLawful run⟩

/-- Another key. -/
def stopKey : IdempotencyKey := ⟨"line-1", "press-7", "stop-43"⟩

/-- A write that fails after one byte, and an insert after it that succeeds. -/
def tornInsert : List JournalOp :=
  [.tryInsert startKey "hash" 0 500 (some 1), .tryInsert stopKey "hash" 1 501 none]

/-- One byte of a record is a scrap of it. -/
theorem shape_torn {serde : SerdeJson} {record : Record} (nonempty : serde.bytes record ≠ []) :
    ∃ scrap, Shape serde ([] ++ (serde.line record).take 1) [] [scrap] := by
  refine ⟨⟨record, (serde.bytes record).take 1, List.take_prefix _ _, by simpa using nonempty⟩, ?_⟩
  rw [SerdeJson.line, List.take_append_of_le_length (List.length_pos_iff.mpr nonempty)]
  exact (List.append_nil _).symm

/-- The journal has the second record, and no open accepts the file. -/
theorem tornInsert_lost :
    ∃ j, (journalMachine serdeJson).Run Machine.Always .new tornInsert j ∧
      (j.entries.get? stopKey).isSome ∧
      ∀ nowNs order j', FileJournal.openAt serdeJson order j.file nowNs ≠ .ok j' := by
  let torn : Record := .insert startKey "hash" .running 0 500
  let stop : Record := .insert stopKey "hash" .running 1 501
  refine ⟨⟨[] ++ (serdeJson.line torn).take 1 ++ serdeJson.line stop, _⟩,
    .of_exec rfl, rfl, fun nowNs order j' => ?_⟩
  have broken : Broken ([] ++ (serdeJson.line torn).take 1 ++ serdeJson.line stop) := by
    obtain ⟨scrap, shape⟩ := shape_torn (serdeJson_tagged torn).ne_nil
    rcases shape.line serdeJson_strict stop with ⟨none, _⟩ | broken
    · cases none
    · exact broken
  exact broken.openAt_ne_ok serdeJson_strict j'

end ForgeLink.Control
