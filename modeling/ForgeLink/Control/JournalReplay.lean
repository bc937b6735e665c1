import Mathlib.Data.List.Induction
import ForgeLink.Control.Journal

/-!
# Replaying a journal file

A file that the journal wrote without a fault is `SerdeJson.fileOf` of the list
of its records, so replaying its lines is replaying that list
(`replayLines_fileOf`).  `raw` says what a list of records is about, per key and
without a clock: an insert starts an entry and a settle changes it.

`Grown` is what every such list satisfies: an insert never expires before the
one it replaces, and a settle has an insert before it.  Under it the clock
commutes with the replay (`replayRecords_get?`): dropping the expired inserts
while replaying leaves the entries that `raw` builds and the clock keeps.
-/

namespace ForgeLink.Control

open Lib

variable {serde : SerdeJson} {nowNs : TimestampNs}
variable {lineNo : Nat} {st : Replay} {records : List Record}

/-! ## Lines of a written file -/

namespace SerdeJson.Lawful

theorem readLine_bytes (lawful : serde.Lawful) (r : Record) :
    readLine serde (serde.bytes r) = if r.Fits then .record r else .malformed := by
  obtain ⟨body, shape⟩ := lawful.object r
  have text : String.fromUTF8? ⟨(serde.bytes r).toArray⟩ = some (serde.toString r) :=
    Bytes.fromUTF8?_toByteArray (serde.toString r)
  have brace : isWhitespace '\x7b' = false := by decide
  have visible : (serde.toString r).toList.all isWhitespace = false := by
    rw [shape]
    simp [brace]
  rw [readLine, text]
  simp only [visible, Bool.false_eq_true, ↓reduceIte, lawful.fromStr_toString]
  by_cases fits : r.Fits
  · simp only [if_pos fits]
  · simp only [if_neg fits]

theorem stripReturn_bytes (lawful : serde.Lawful) (r : Record) :
    Bytes.stripReturn (serde.bytes r) = serde.bytes r := by
  obtain ⟨body, shape⟩ := lawful.object r
  have last : (serde.bytes r).getLast? = some 125 := by
    rw [SerdeJson.bytes, shape]
    have brace : "\x7d".toByteArray.data.toList = [125] := by decide
    simp [brace]
  exact Bytes.stripReturn_of_getLast? last (by decide)

theorem tail_append_line (lawful : serde.Lawful) (file : Bytes) (r : Record) :
    Bytes.tail (file ++ serde.line r) = [] :=
  Bytes.tail_append_line _ _ (lawful.newline_notMem r)

theorem lines_append_line (lawful : serde.Lawful) {file : Bytes} (closed : Bytes.tail file = [])
    (r : Record) : Bytes.lines (file ++ serde.line r) = Bytes.lines file ++ [serde.bytes r] := by
  rw [SerdeJson.line, Bytes.lines_append_line closed (lawful.newline_notMem r),
    lawful.stripReturn_bytes]

end SerdeJson.Lawful

theorem SerdeJson.fileOf_snoc (serde : SerdeJson) (records : List Record) (r : Record) :
    serde.fileOf (records ++ [r]) = serde.fileOf records ++ serde.line r := by
  simp [SerdeJson.fileOf]

/-- A written file ends with a newline and its lines are its records' texts. -/
theorem SerdeJson.Lawful.lines_fileOf (lawful : serde.Lawful) (records : List Record) :
    Bytes.tail (serde.fileOf records) = [] ∧
      Bytes.lines (serde.fileOf records) = records.map serde.bytes := by
  induction records using List.reverseRecOn with
  | nil => exact ⟨rfl, rfl⟩
  | append_singleton records r ih =>
    rw [SerdeJson.fileOf_snoc]
    refine ⟨lawful.tail_append_line _ r, ?_⟩
    rw [lawful.lines_append_line ih.1, ih.2, List.map_append]
    rfl

/-- Replay a list of records.  A record that nests too deep does not parse. -/
def replayRecords (nowNs : TimestampNs) : Nat → Replay → List Record → Except JournalError Replay
  | _, st, [] => .ok st
  | lineNo, st, r :: rest =>
    if r.Fits then
      match st.record nowNs lineNo r with
      | .error e => .error e
      | .ok st' => replayRecords nowNs (lineNo + 1) st' rest
    else .error (.corrupt lineNo)

theorem SerdeJson.Lawful.replayLines_bytes (lawful : serde.Lawful) (lineNo : Nat) (st : Replay)
    (records : List Record) :
    replayLines serde nowNs lineNo st (records.map serde.bytes) =
      replayRecords nowNs lineNo st records := by
  induction records generalizing lineNo st with
  | nil => rfl
  | cons r records ih =>
    rw [List.map_cons, replayLines, replayRecords, lawful.readLine_bytes]
    by_cases fits : r.Fits
    · rw [if_pos fits, if_pos fits]
      cases taken : st.record nowNs lineNo r with
      | error e => simp only [taken]
      | ok st' => simpa only [taken] using ih (lineNo + 1) st'
    · rw [if_neg fits, if_neg fits]

theorem SerdeJson.Lawful.replayLines_fileOf (lawful : serde.Lawful) (lineNo : Nat) (st : Replay)
    (records : List Record) :
    replayLines serde nowNs lineNo st (Bytes.lines (serde.fileOf records)) =
      replayRecords nowNs lineNo st records := by
  rw [(lawful.lines_fileOf records).2, lawful.replayLines_bytes]

theorem replayRecords_append (lineNo : Nat) (st : Replay) (front back : List Record) :
    replayRecords nowNs lineNo st (front ++ back) =
      (replayRecords nowNs lineNo st front).bind fun st' =>
        replayRecords nowNs (lineNo + front.length) st' back := by
  induction front generalizing lineNo st with
  | nil => rfl
  | cons r front ih =>
    rw [List.cons_append, replayRecords, replayRecords]
    split
    next fits =>
      split
      next => rfl
      next st' taken =>
        rw [ih]
        congr 2
        simp only [List.length_cons]
        funext _
        congr 1
        omega
    next => rfl

/-- A replay only ever fails with corruption. -/
theorem replayRecords_error {e : JournalError}
    (h : replayRecords nowNs lineNo st records = .error e) : ∃ n, e = .corrupt n := by
  induction records generalizing lineNo st with
  | nil => cases h
  | cons r records ih =>
    rw [replayRecords] at h
    split at h
    next fits =>
      split at h
      next failed =>
        cases h
        cases r with
        | insert => simp [Replay.record] at failed; split at failed <;> cases failed
        | settle key result =>
          simp only [Replay.record] at failed
          split at failed
          · cases failed
          · split at failed
            · cases failed
            · cases failed
              exact ⟨_, rfl⟩
      next => exact ih h
    next =>
      cases h
      exact ⟨_, rfl⟩

/-! ## What a list of records says about a key -/

/-- One record, seen from one key. -/
def Record.act (k : IdempotencyKey) (o : Option JournalEntry) : Record → Option JournalEntry
  | .insert key payloadHash status createdAtNs expiresAtNs =>
    if key = k then
      some { key, payloadHash, status, createdAtNs, expiresAtNs, result := none }
    else o
  | .settle key result => if key = k then o.map (JournalEntry.settled result) else o

/-- The entry of a key after these records, whatever the clock says. -/
def raw (records : List Record) (k : IdempotencyKey) : Option JournalEntry :=
  records.foldl (Record.act k) none

@[simp] theorem raw_snoc (records : List Record) (r : Record) (k : IdempotencyKey) :
    raw (records ++ [r]) k = r.act k (raw records k) := by
  simp [raw]

theorem Record.act_of_ne {r : Record} {k : IdempotencyKey} (differ : r.key ≠ k)
    (o : Option JournalEntry) : r.act k o = o := by
  cases r <;> exact if_neg differ

/-- An insert expires no earlier than the entry it replaces, and a settle finds
an entry. -/
def Record.Extends (records : List Record) : Record → Prop
  | .insert key _ _ _ expiresAtNs =>
    ∀ e, raw records key = some e → e.expiresAtNs ≤ expiresAtNs
  | .settle key _ => (raw records key).isSome

/-- Lists of records that a journal writes under a clock that submits agree on. -/
inductive Grown : List Record → Prop where
  | nil : Grown []
  | snoc {records : List Record} {r : Record} :
      Grown records → r.Extends records → Grown (records ++ [r])

/-- Whether the clock keeps an entry. -/
def JournalEntry.alive (nowNs : TimestampNs) (e : JournalEntry) : Bool :=
  Decidable.decide (nowNs ≤ e.expiresAtNs)

theorem filter_alive_settled (result : ControlResult) (o : Option JournalEntry) :
    (o.map (JournalEntry.settled result)).filter (JournalEntry.alive nowNs) =
      (o.filter (JournalEntry.alive nowNs)).map (JournalEntry.settled result) := by
  cases o with
  | none => rfl
  | some e =>
    -- A settle moves neither the key nor the expiry.
    have same : (e.settled result).alive nowNs = e.alive nowNs := rfl
    cases live : e.alive nowNs <;> simp [Option.filter_some, same, live]

/-- One step of a replay keeps it equal to `raw` under the clock. -/
theorem Replay.record_get? {st' : Replay} {r : Record} (grows : r.Extends records)
    (agree : ∀ k, st.entries.get? k = (raw records k).filter (JournalEntry.alive nowNs))
    (taken : st.record nowNs lineNo r = .ok st') (k : IdempotencyKey) :
    st'.entries.get? k = (raw (records ++ [r]) k).filter (JournalEntry.alive nowNs) := by
  rw [raw_snoc]
  by_cases other : r.key = k
  case neg =>
    rw [Record.act_of_ne other, ← agree k]
    cases r with
    | insert key hash status created expires =>
      simp only [Replay.record] at taken
      split at taken
      · cases taken; rfl
      · cases taken; exact (AssocMap.get?_insert ..).trans (if_neg (Ne.symm other))
    | settle key result =>
      simp only [Replay.record] at taken
      split at taken
      · cases taken; exact (AssocMap.get?_modify ..).trans (if_neg (Ne.symm other))
      · split at taken
        · cases taken; rfl
        · cases taken
  subst other
  cases r with
  | insert key hash status created expires =>
    simp only [Record.key, Record.act, ↓reduceIte] at *
    simp only [Replay.record] at taken
    split at taken
    next expired =>
      -- The dropped insert leaves what was there, which expired even earlier.
      cases taken
      rw [agree key, Option.filter_some,
        if_neg (by simpa [JournalEntry.alive] using expired)]
      cases old : raw records key with
      | none => rfl
      | some e =>
        have earlier := grows e old
        have dead : e.alive nowNs = false := by
          simp only [JournalEntry.alive, decide_eq_false_iff_not]
          exact Int.not_le.mpr (Int.lt_of_le_of_lt earlier expired)
        simp [Option.filter_some, dead]
    next live =>
      cases taken
      rw [Option.filter_some, if_pos (by simpa [JournalEntry.alive] using live)]
      simp
  | settle key result =>
    simp only [Record.key, Record.act, ↓reduceIte] at *
    simp only [Replay.record] at taken
    split at taken
    next found =>
      cases taken
      rw [filter_alive_settled, ← agree key]
      simp
    next missing =>
      have gone : (raw records key).filter (JournalEntry.alive nowNs) = none := by
        rw [← agree key]
        simpa using missing
      split at taken
      next known =>
        cases taken
        rw [filter_alive_settled, gone, agree key, gone]
        rfl
      next orphan => cases taken

/-- A replay of one more record, taken apart. -/
theorem replayRecords_snoc {r : Record}
    (done : replayRecords nowNs lineNo .start (records ++ [r]) = .ok st) :
    ∃ mid, replayRecords nowNs lineNo .start records = .ok mid ∧ r.Fits ∧
      mid.record nowNs (lineNo + records.length) r = .ok st := by
  rw [replayRecords_append] at done
  cases before : replayRecords nowNs lineNo .start records with
  | error e =>
    rw [before] at done
    cases done
  | ok mid =>
    rw [before] at done
    change replayRecords nowNs (lineNo + records.length) mid [r] = .ok st at done
    rw [replayRecords] at done
    split at done
    next fits =>
      split at done
      next => cases done
      next st' taken =>
        cases done
        exact ⟨mid, rfl, fits, taken⟩
    next => cases done

/-- Replaying what a journal wrote gives the entries that the clock keeps. -/
theorem replayRecords_get? (grown : Grown records)
    (done : replayRecords nowNs lineNo .start records = .ok st) (k : IdempotencyKey) :
    st.entries.get? k = (raw records k).filter (JournalEntry.alive nowNs) := by
  induction grown generalizing st k with
  | nil =>
    cases done
    rfl
  | snoc _ grows ih =>
    obtain ⟨mid, before, _, taken⟩ := replayRecords_snoc done
    exact Replay.record_get? grows (fun k => ih before k) taken k

end ForgeLink.Control
