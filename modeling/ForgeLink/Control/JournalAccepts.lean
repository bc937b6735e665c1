import ForgeLink.Control.JournalRun
import ForgeLink.Control.Operation
import ForgeLink.Control.RecordJson

/-!
# Which of its own files the journal accepts

A replay forgets that it dropped an expired insert at the first settle it skips
for it, so a second settle of the same record reads as an orphan.  `Accepted`
is the exact condition on the records of a file and the clock under which an
open does not report corruption.
-/

namespace ForgeLink.Control

open Lib

variable {serde : SerdeJson} {nowNs : TimestampNs}
variable {records : List Record} {r : Record} {st : Replay} {k key : IdempotencyKey}
  {result : ControlResult}

/-- Some insert of the key has not expired. -/
def LiveInsert (nowNs : TimestampNs) (records : List Record) (key : IdempotencyKey) : Prop :=
  ∃ hash status created expires,
    Record.insert key hash status created expires ∈ records ∧ ¬expires < nowNs

/-- The last record of the key is an insert. -/
def JustInserted (records : List Record) (key : IdempotencyKey) : Prop :=
  ∃ e, raw records key = some e ∧ e.result = none

/-- Every record parses, and a settle that finds only expired inserts of its
key is the first since the last of them. -/
def Accepted (nowNs : TimestampNs) (records : List Record) : Prop :=
  (∀ r ∈ records, r.Fits) ∧
    ∀ before key result after, records = before ++ Record.settle key result :: after →
      LiveInsert nowNs before key ∨ JustInserted before key

/-! ## One record -/

/-- What a replay knows of the records behind it. -/
structure Tracks (nowNs : TimestampNs) (records : List Record) (st : Replay) : Prop where
  live : ∀ k, (st.entries.get? k).isSome ↔ LiveInsert nowNs records k
  expired : ∀ k, ¬LiveInsert nowNs records k → (k ∈ st.expiredKeys ↔ JustInserted records k)

theorem liveInsert_snoc :
    LiveInsert nowNs (records ++ [r]) k ↔
      LiveInsert nowNs records k ∨
        ∃ hash status created expires,
          r = .insert k hash status created expires ∧ ¬expires < nowNs := by
  constructor
  · rintro ⟨hash, status, created, expires, inside, live⟩
    rcases List.mem_append.mp inside with before | last
    · exact .inl ⟨hash, status, created, expires, before, live⟩
    · exact .inr ⟨hash, status, created, expires, (List.mem_singleton.mp last).symm, live⟩
  · rintro (⟨hash, status, created, expires, before, live⟩ |
      ⟨hash, status, created, expires, rfl, live⟩)
    · exact ⟨hash, status, created, expires, List.mem_append_left _ before, live⟩
    · exact ⟨hash, status, created, expires, List.mem_append_right _ List.mem_cons_self, live⟩

theorem liveInsert_settle :
    LiveInsert nowNs (records ++ [.settle key result]) k ↔ LiveInsert nowNs records k := by
  rw [liveInsert_snoc]
  refine ⟨fun h => h.resolve_right ?_, .inl⟩
  rintro ⟨hash, status, created, expires, same, _⟩
  cases same

theorem justInserted_of_ne (differ : r.key ≠ k) :
    JustInserted (records ++ [r]) k ↔ JustInserted records k := by
  rw [JustInserted, raw_snoc, Record.act_of_ne differ, JustInserted]

theorem not_justInserted_settle : ¬JustInserted (records ++ [.settle key result]) key := by
  rintro ⟨e, found, unsettled⟩
  rw [raw_snoc, Record.act, if_pos rfl] at found
  obtain ⟨old, _, rfl⟩ := Option.map_eq_some_iff.mp found
  cases unsettled

/-- An insert is always replayed. -/
theorem Tracks.insert (tracks : Tracks nowNs records st) (lineNo : Nat) (key : IdempotencyKey)
    (hash : String) (status : ControlStatus) (created expires : TimestampNs) :
    ∃ st', st.record nowNs lineNo (.insert key hash status created expires) = .ok st' ∧
      Tracks nowNs (records ++ [.insert key hash status created expires]) st' := by
  by_cases late : expires < nowNs
  · refine ⟨_, if_pos late, ?_, ?_⟩
    · intro k
      rw [tracks.live k, liveInsert_snoc]
      refine ⟨.inl, fun h => h.resolve_right ?_⟩
      rintro ⟨hash', status', created', expires', same, live⟩
      cases same
      exact live late
    · intro k dead
      have before : ¬LiveInsert nowNs records k :=
        fun live => dead (liveInsert_snoc.mpr (.inl live))
      by_cases same : key = k
      · subst same
        refine ⟨fun _ => ⟨_, by rw [raw_snoc, Record.act, if_pos rfl], rfl⟩, fun _ => ?_⟩
        exact List.mem_cons_self
      · rw [justInserted_of_ne (r := .insert key hash status created expires) same,
          ← tracks.expired k before]
        simp [Ne.symm same]
  · refine ⟨_, if_neg late, ?_, ?_⟩
    · intro k
      rw [AssocMap.get?_insert, liveInsert_snoc]
      by_cases same : k = key
      · subst same
        rw [if_pos rfl]
        exact ⟨fun _ => .inr ⟨_, _, _, _, rfl, late⟩, fun _ => rfl⟩
      · rw [if_neg same, tracks.live k]
        refine ⟨.inl, fun h => h.resolve_right ?_⟩
        rintro ⟨hash', status', created', expires', eq, _⟩
        cases eq
        exact same rfl
    · intro k dead
      have before : ¬LiveInsert nowNs records k :=
        fun live => dead (liveInsert_snoc.mpr (.inl live))
      have differ : key ≠ k := by
        rintro rfl
        exact dead (liveInsert_snoc.mpr (.inr ⟨_, _, _, _, rfl, late⟩))
      rw [justInserted_of_ne (r := .insert key hash status created expires) differ,
        ← tracks.expired k before]

/-- A settle is replayed after its insert. -/
theorem Tracks.settle (tracks : Tracks nowNs records st) (lineNo : Nat) (key : IdempotencyKey)
    (result : ControlResult) (accepted : LiveInsert nowNs records key ∨ JustInserted records key) :
    ∃ st', st.record nowNs lineNo (.settle key result) = .ok st' ∧
      Tracks nowNs (records ++ [.settle key result]) st' := by
  by_cases live : LiveInsert nowNs records key
  · refine ⟨_, if_pos ((tracks.live key).mpr live), ?_, ?_⟩
    · intro k
      rw [liveInsert_settle, ← tracks.live k, AssocMap.get?_modify]
      split <;> simp
    · intro k dead
      rw [liveInsert_settle] at dead
      have differ : key ≠ k := by
        rintro rfl
        exact dead live
      rw [justInserted_of_ne (r := .settle key result) differ, ← tracks.expired k dead]
  · have known : key ∈ st.expiredKeys :=
      (tracks.expired key live).mpr (accepted.resolve_left live)
    refine ⟨_, (if_neg fun found => live ((tracks.live key).mp found)).trans (if_pos known),
      ?_, ?_⟩
    · intro k
      rw [liveInsert_settle]
      exact tracks.live k
    · intro k dead
      rw [liveInsert_settle] at dead
      by_cases same : key = k
      · subst same
        simp [not_justInserted_settle]
      · rw [justInserted_of_ne (r := .settle key result) same, ← tracks.expired k dead]
        simp [Ne.symm same]

/-- A settle that is not accepted is reported as corruption. -/
theorem Tracks.accepted_of_ok {st' : Replay} (tracks : Tracks nowNs records st) {lineNo : Nat}
    (taken : st.record nowNs lineNo (.settle key result) = .ok st') :
    LiveInsert nowNs records key ∨ JustInserted records key := by
  by_cases live : LiveInsert nowNs records key
  · exact .inl live
  · refine .inr ((tracks.expired key live).mp ?_)
    simp only [Replay.record] at taken
    split at taken
    next found => exact absurd ((tracks.live key).mp found) live
    next =>
      split at taken
      next known => exact known
      next => cases taken

/-! ## The whole file -/

theorem Accepted.left (accepted : Accepted nowNs (records ++ [r])) : Accepted nowNs records := by
  refine ⟨fun r' inside => accepted.1 r' (List.mem_append_left _ inside), ?_⟩
  rintro before key result after rfl
  exact accepted.2 before key result (after ++ [r]) (by simp)

theorem Accepted.snoc (accepted : Accepted nowNs records) (fits : r.Fits)
    (last : ∀ key result, r = .settle key result →
      LiveInsert nowNs records key ∨ JustInserted records key) :
    Accepted nowNs (records ++ [r]) := by
  refine ⟨fun r' inside => ?_, fun before key result after split => ?_⟩
  · rcases List.mem_append.mp inside with old | new
    · exact accepted.1 r' old
    · rwa [List.mem_singleton.mp new]
  · -- The settle is the last record or one of the old ones.
    rcases List.eq_nil_or_concat after with rfl | ⟨after, x, rfl⟩
    · obtain ⟨rfl, same⟩ := List.append_inj' split rfl
      exact last key result (List.singleton_inj.mp same)
    · rw [List.concat_eq_append, ← List.cons_append, ← List.append_assoc] at split
      exact accepted.2 before key result after (List.append_inj' split rfl).1

theorem replayRecords_snoc_of_ok {lineNo : Nat} {mid : Replay}
    (before : replayRecords nowNs lineNo .start records = .ok mid) (fits : r.Fits)
    (taken : mid.record nowNs (lineNo + records.length) r = .ok st) :
    replayRecords nowNs lineNo .start (records ++ [r]) = .ok st := by
  rw [replayRecords_append, before]
  change replayRecords nowNs (lineNo + records.length) mid [r] = .ok st
  rw [replayRecords, if_pos fits, taken]
  rfl

/-- A replay of accepted records goes through. -/
theorem Accepted.replays (accepted : Accepted nowNs records) (lineNo : Nat) :
    ∃ st, replayRecords nowNs lineNo .start records = .ok st ∧ Tracks nowNs records st := by
  induction records using List.reverseRecOn with
  | nil =>
    refine ⟨.start, rfl, fun k => ⟨?_, ?_⟩, fun k _ => ⟨?_, ?_⟩⟩
    · intro found
      cases found
    · rintro ⟨_, _, _, _, inside, _⟩
      cases inside
    · intro inside
      cases inside
    · rintro ⟨_, found, _⟩
      cases found
  | append_singleton records r ih =>
    obtain ⟨mid, before, tracks⟩ := ih accepted.left
    have fits := accepted.1 r (by simp)
    have next : ∃ st, mid.record nowNs (lineNo + records.length) r = .ok st ∧
        Tracks nowNs (records ++ [r]) st := by
      cases r with
      | insert key hash status created expires =>
        exact tracks.insert _ key hash status created expires
      | settle key result =>
        exact tracks.settle _ key result (accepted.2 records key result [] rfl)
    obtain ⟨st, taken, tracks'⟩ := next
    exact ⟨st, replayRecords_snoc_of_ok before fits taken, tracks'⟩

/-- A replay that goes through was of accepted records. -/
theorem accepted_of_replays {lineNo : Nat}
    (done : replayRecords nowNs lineNo .start records = .ok st) : Accepted nowNs records := by
  induction records using List.reverseRecOn generalizing st with
  | nil =>
    refine ⟨?_, ?_⟩
    · intro r inside
      cases inside
    · intro before key result after split
      simp at split
  | append_singleton records r ih =>
    obtain ⟨mid, before, fits, taken⟩ := replayRecords_snoc done
    have accepted := ih before
    refine accepted.snoc fits ?_
    rintro key result rfl
    obtain ⟨mid', before', tracks⟩ := accepted.replays lineNo
    rw [before] at before'
    cases before'
    exact tracks.accepted_of_ok taken

theorem openAt_ok_iff (lawful : serde.Lawful) (order : IterOrder) (records : List Record) :
    (∃ j, FileJournal.openAt serde order (serde.fileOf records) nowNs = .ok j) ↔
      Accepted nowNs records := by
  rw [lawful.openAt_fileOf]
  constructor
  · rintro ⟨j, opened⟩
    cases done : replayRecords nowNs 1 .start records with
    | error e =>
      rw [done] at opened
      cases opened
    | ok st => exact accepted_of_replays done
  · intro accepted
    obtain ⟨st, done, _⟩ := accepted.replays 1
    rw [done]
    exact ⟨_, rfl⟩

/-- After every run of operations that succeed, the file holds a list of
records such that an open at any time reports corruption exactly when these
records are not `Accepted` at that time. -/
theorem openAt_ne_corrupt_iff (lawful : serde.Lawful) {ops : List JournalOp} {j : FileJournal}
    (run : (journalMachine serde).Run (fun _ op => op.fault = none) .new ops j) :
    ∃ records, j.file = serde.fileOf records ∧
      ∀ nowNs order,
        (∀ line, FileJournal.openAt serde order j.file nowNs ≠ .error (.corrupt line)) ↔
          Accepted nowNs records := by
  have traceless := run.weaken fun _ op (clean : op.fault = none) => op.traceless_of_clean clean
  obtain ⟨records, stored⟩ := FileJournal.stored_of_run lawful traceless
  refine ⟨records, stored.file, fun nowNs order => ?_⟩
  rw [stored.file, ← openAt_ok_iff lawful order]
  constructor
  · intro sound
    cases opened : FileJournal.openAt serde order (serde.fileOf records) nowNs with
    | ok j => exact ⟨j, rfl⟩
    | error e =>
      rw [lawful.openAt_fileOf] at opened
      cases done : replayRecords nowNs 1 .start records with
      | ok st =>
        rw [done] at opened
        cases opened
      | error e' =>
        rw [done] at opened
        obtain ⟨n, rfl⟩ := replayRecords_error done
        cases opened
        exact absurd (by rw [lawful.openAt_fileOf, done]; rfl) (sound n)
  · rintro ⟨j, opened⟩ line failed
    rw [opened] at failed
    cases failed

/-! ## A record that is settled twice -/

/-- A key. -/
def startKey : IdempotencyKey := ⟨"line-1", "press-7", "start-42"⟩

/-- A request that was executed. -/
def startSucceeded : ControlResult :=
  settledResult startKey (.done { runBase "press-7" 10 with status := .succeeded }) 20

/-- What `settle_abandoned` writes over it. -/
def startAborted : ControlResult :=
  settledResult startKey
    (.indeterminate "QUEUE_WORKER_ABORTED" "控制队列强制中止，执行结果未知（驱动可能已下发）") 30

/-- The record is inserted and settled; it expires at 500. -/
def settledOnce : List JournalOp :=
  [.tryInsert startKey "hash" 0 500 none, .settle startKey startSucceeded none]

/-- The record is settled a second time. -/
def settledTwice : List JournalOp := settledOnce ++ [.settle startKey startAborted none]

/-- A journal of two records. -/
theorem openAt_ne_corrupt_settledOnce :
    ∃ j, (journalMachine serdeJson).Run (fun _ op => op.fault = none) .new settledOnce j ∧
      ∃ records, j.file = serdeJson.fileOf records ∧
        ∀ nowNs order,
          (∀ line, FileJournal.openAt serdeJson order j.file nowNs ≠ .error (.corrupt line)) ↔
            Accepted nowNs records := by
  have found : ∃ j, (journalMachine serdeJson).Run (fun _ op => op.fault = none) .new
      settledOnce j ∧ True := Machine.Run.of_any (fun _ => True) rfl
  obtain ⟨j, run, _⟩ := found
  exact ⟨j, run, openAt_ne_corrupt_iff serdeJson_strict.toLawful run⟩

/-- Two settles of one record, both successful, and an open after it has
expired. -/
theorem settledTwice_corrupt :
    ∃ j, (journalMachine serdeJson).Run (fun _ op => op.fault = none) .new settledTwice j ∧
      FileJournal.openAt serdeJson .same j.file 1000 = .error (.corrupt 3) := by
  let inserted : Record := .insert startKey "hash" .running 0 500
  let settled : Record := .settle startKey startSucceeded
  let again : Record := .settle startKey startAborted
  have replayed :
      replayRecords 1000 1 .start [inserted, settled, again] = .error (.corrupt 3) := rfl
  refine ⟨⟨[] ++ serdeJson.line inserted ++ serdeJson.line settled ++ serdeJson.line again, _⟩,
    .of_exec rfl, ?_⟩
  have written : [] ++ serdeJson.line inserted ++ serdeJson.line settled ++
      serdeJson.line again = serdeJson.fileOf [inserted, settled, again] := by
    simp [SerdeJson.fileOf]
  rw [written, serdeJson_strict.toLawful.openAt_fileOf, replayed]
  rfl

end ForgeLink.Control
