import ForgeLink.Control.JournalReplay

/-!
# Compaction and opening

What compaction writes replays to exactly the entries it was given (`raw_compactRecords`), and
opening a written file gives the entries that the clock keeps, each recovered (`openAt_spec`).
An open that drops nothing leaves the file alone, and then the clock keeps every entry the file
has.
-/

namespace ForgeLink.Control

open Lib

variable {serde : SerdeJson} {nowNs : TimestampNs} {order : IterOrder}
variable {es : List JournalEntry}
variable {e : JournalEntry}

/-! ## Entries of a map -/

/-- An entry's status is that of its result, if it has one. -/
def JournalEntry.Coherent (e : JournalEntry) : Prop :=
  ∀ r, e.result = some r → e.status = r.status

/-- Every entry stands under its own key and is coherent. -/
def Entries.Keyed (entries : Entries) : Prop :=
  ∀ k e, entries.get? k = some e → e.key = k ∧ e.Coherent

theorem JournalEntry.settled_coherent (e : JournalEntry) (result : ControlResult) :
    (e.settled result).Coherent := by
  rintro r ⟨⟩
  rfl

theorem JournalEntry.recover_coherent (h : e.Coherent) : (e.recover nowNs).Coherent := by
  rw [JournalEntry.recover]
  split
  · rintro r ⟨⟩
    rfl
  · exact h

theorem JournalEntry.recover_key (e : JournalEntry) : (e.recover nowNs).key = e.key := by
  rw [JournalEntry.recover]
  split <;> rfl

theorem JournalEntry.recover_expiresAtNs (e : JournalEntry) :
    (e.recover nowNs).expiresAtNs = e.expiresAtNs := by
  rw [JournalEntry.recover]
  split <;> rfl

/-- What a record makes of a coherent entry under its key is one again. -/
theorem raw_keyed (records : List Record) {k : IdempotencyKey} (h : raw records k = some e) :
    e.key = k ∧ e.Coherent := by
  induction records using List.reverseRecOn generalizing e with
  | nil => cases h
  | append_singleton records r ih =>
    rw [raw_snoc] at h
    cases r with
    | insert key hash status created expires =>
      rw [Record.act] at h
      split at h
      next same =>
        obtain rfl := Option.some.inj h
        exact ⟨same, fun r settled => absurd settled.symm (Option.some_ne_none r)⟩
      next => exact ih h
    | settle key result =>
      rw [Record.act] at h
      split at h
      next same =>
        obtain ⟨old, before, rfl⟩ := Option.map_eq_some_iff.mp h
        exact ⟨(ih before).1, old.settled_coherent result⟩
      next => exact ih h

/-! ## What compaction writes -/

/-- The records of one entry, or none if it has expired. -/
def JournalEntry.kept (nowNs : TimestampNs) (e : JournalEntry) : List Record :=
  if e.expiresAtNs < nowNs then [] else e.records

theorem JournalEntry.key_of_mem_kept {r : Record} (h : r ∈ e.kept nowNs) : r.key = e.key := by
  rw [JournalEntry.kept] at h
  split at h
  · cases h
  · rw [JournalEntry.records, List.mem_cons, Option.mem_toList, Option.map_eq_some_iff] at h
    rcases h with rfl | ⟨result, _, rfl⟩ <;> rfl

/-- A coherent entry's records rebuild it, whatever was there. -/
theorem JournalEntry.foldl_records (h : e.Coherent) (o : Option JournalEntry) :
    e.records.foldl (Record.act e.key) o = some e := by
  obtain ⟨key, hash, status, created, expires, result⟩ := e
  cases result with
  | none => simp [JournalEntry.records, Record.act]
  | some r =>
    have same : status = r.status := h r rfl
    simp [JournalEntry.records, Record.act, JournalEntry.settled, same]

theorem foldl_act_of_notMem {records : List Record} {k : IdempotencyKey}
    (absent : ∀ r ∈ records, r.key ≠ k) (o : Option JournalEntry) :
    records.foldl (Record.act k) o = o := by
  induction records generalizing o with
  | nil => rfl
  | cons r records ih =>
    rw [List.foldl_cons, Record.act_of_ne (absent r List.mem_cons_self),
      ih fun r' h => absent r' (List.mem_cons_of_mem _ h)]

theorem key_of_mem_flatMap_kept {r : Record} (h : r ∈ es.flatMap (JournalEntry.kept nowNs)) :
    r.key ∈ es.map JournalEntry.key := by
  obtain ⟨e, inside, here⟩ := List.mem_flatMap.mp h
  exact List.mem_map.mpr ⟨e, inside, (JournalEntry.key_of_mem_kept here).symm⟩

theorem fresh_of_nodup_snoc (distinct : ((es ++ [e]).map JournalEntry.key).Nodup) :
    (es.map JournalEntry.key).Nodup ∧ e.key ∉ es.map JournalEntry.key := by
  rw [List.map_append, List.map_singleton] at distinct
  refine ⟨List.Nodup.of_append_left distinct, fun inside => ?_⟩
  exact List.disjoint_of_nodup_append distinct inside (List.mem_singleton.mpr rfl)

/-- The records of a list of entries with distinct keys, seen from one key. -/
theorem raw_flatMap_kept (distinct : (es.map JournalEntry.key).Nodup)
    (coherent : ∀ e ∈ es, e.Coherent) (k : IdempotencyKey) :
    raw (es.flatMap (JournalEntry.kept nowNs)) k =
      (es.find? fun e => e.key = k).filter (JournalEntry.alive nowNs) := by
  induction es using List.reverseRecOn with
  | nil => rfl
  | append_singleton es e ih =>
    obtain ⟨distinct, fresh⟩ := fresh_of_nodup_snoc distinct
    have ih := ih distinct fun e' h => coherent e' (List.mem_append_left _ h)
    rw [List.flatMap_append, List.flatMap_singleton, raw, List.foldl_append, ← raw, ih,
      List.find?_append]
    by_cases same : e.key = k
    case neg =>
      rw [foldl_act_of_notMem fun r h => by
        rw [JournalEntry.key_of_mem_kept h]
        exact same]
      simp [same]
    subst same
    have missing : es.find? (fun e' => e'.key = e.key) = none := by
      rw [List.find?_eq_none]
      intro e' inside eq
      exact fresh (List.mem_map.mpr ⟨e', inside, of_decide_eq_true eq⟩)
    rw [missing, JournalEntry.kept]
    split
    next expired =>
      have dead : e.alive nowNs = false := by
        simpa [JournalEntry.alive] using expired
      simp [Option.filter_some, dead]
    next live =>
      have here : e.alive nowNs = true := by
        simpa [JournalEntry.alive] using live
      rw [JournalEntry.foldl_records (coherent e (by simp))]
      simp [Option.filter_some, here]

/-- A key's insert is its first record there. -/
theorem grown_flatMap_kept (distinct : (es.map JournalEntry.key).Nodup) :
    Grown (es.flatMap (JournalEntry.kept nowNs)) := by
  induction es using List.reverseRecOn with
  | nil => exact .nil
  | append_singleton es e ih =>
    obtain ⟨distinct, fresh⟩ := fresh_of_nodup_snoc distinct
    have before := ih distinct
    have absent : raw (es.flatMap (JournalEntry.kept nowNs)) e.key = none :=
      foldl_act_of_notMem (fun r h (same : r.key = e.key) =>
        fresh (same ▸ key_of_mem_flatMap_kept h)) none
    rw [List.flatMap_append, List.flatMap_singleton, JournalEntry.kept]
    split
    · simpa using before
    · have started := Grown.snoc before (r := .insert e.key e.payloadHash e.status
        e.createdAtNs e.expiresAtNs) fun old found => by
          rw [absent] at found
          cases found
      cases result : e.result with
      | none => simpa [JournalEntry.records, result] using started
      | some r =>
        have settled := Grown.snoc started (r := .settle e.key r) (by
          simp [Record.Extends, Record.act])
        simpa [JournalEntry.records, result] using settled

section Compaction

variable {entries : Entries}

/-- The entries in iteration order: the map's own, each key once. -/
theorem Entries.Keyed.mem_order (keyed : entries.Keyed) :
    e ∈ order.order entries.values ↔ entries.get? e.key = some e := by
  rw [(order.perm _).mem_iff, ← AssocMap.mem_toList_iff]
  simp only [AssocMap.values, List.mem_map, Prod.exists, exists_eq_right]
  constructor
  · rintro ⟨k, inside⟩
    rwa [(keyed k e (AssocMap.mem_toList_iff.mp inside)).1]
  · exact fun inside => ⟨_, inside⟩

theorem Entries.Keyed.nodup_order (keyed : entries.Keyed) :
    ((order.order entries.values).map JournalEntry.key).Nodup := by
  rw [((order.perm _).map _).nodup_iff, AssocMap.values, List.map_map]
  have same : entries.toList.map (JournalEntry.key ∘ Prod.snd) = entries.toList.map Prod.fst := by
    apply List.map_congr_left
    rintro ⟨k, e⟩ inside
    exact (keyed k e (AssocMap.mem_toList_iff.mp inside)).1
  rw [same]
  exact entries.nodup

theorem Entries.Keyed.find?_order (keyed : entries.Keyed) (k : IdempotencyKey) :
    (order.order entries.values).find? (fun e => e.key = k) = entries.get? k := by
  cases found : (order.order entries.values).find? fun e => e.key = k with
  | some e =>
    have same : e.key = k := by simpa using List.find?_some found
    subst same
    exact (keyed.mem_order.mp (List.mem_of_find?_eq_some found)).symm
  | none =>
    cases here : entries.get? k with
    | none => rfl
    | some e =>
      have same := (keyed k e here).1
      subst same
      have := List.find?_eq_none.mp found e (keyed.mem_order.mpr here)
      simp at this

/-- Compaction writes the entries that the clock keeps. -/
theorem raw_compactRecords (keyed : entries.Keyed) (k : IdempotencyKey) :
    raw (FileJournal.compactRecords order entries nowNs) k =
      (entries.get? k).filter (JournalEntry.alive nowNs) := by
  refine (raw_flatMap_kept keyed.nodup_order
    (fun e inside => (keyed e.key e (keyed.mem_order.mp inside)).2) k).trans ?_
  rw [keyed.find?_order]

theorem grown_compactRecords (keyed : entries.Keyed) :
    Grown (FileJournal.compactRecords order entries nowNs) :=
  grown_flatMap_kept keyed.nodup_order

end Compaction

/-! ## What a replay keeps -/

variable {records : List Record} {k : IdempotencyKey}

/-- An entry of a replay: under its key, coherent, unexpired, and of a key that
the records have. -/
structure Replayed (nowNs : TimestampNs) (records : List Record) (k : IdempotencyKey)
    (e : JournalEntry) : Prop where
  key : e.key = k
  coherent : e.Coherent
  alive : e.alive nowNs = true
  found : (raw records k).isSome

theorem Record.act_isSome {r : Record} {o : Option JournalEntry} (h : o.isSome) :
    (r.act k o).isSome := by
  cases r with
  | insert key hash status created expires =>
    rw [Record.act]
    split
    · rfl
    · exact h
  | settle key result =>
    rw [Record.act]
    split
    · simpa using h
    · exact h

/-- Every entry of a replay is one of the records. -/
theorem replayRecords_replayed {lineNo : Nat} {st : Replay}
    (done : replayRecords nowNs lineNo .start records = .ok st) (h : st.entries.get? k = some e) :
    Replayed nowNs records k e := by
  induction records using List.reverseRecOn generalizing st e with
  | nil =>
    cases done
    cases h
  | append_singleton records r ih =>
    obtain ⟨mid, before, _, taken⟩ := replayRecords_snoc done
    -- An entry that was there before the last record stays what it is.
    have old : ∀ e, mid.entries.get? k = some e → Replayed nowNs (records ++ [r]) k e := by
      intro e here
      obtain ⟨key, coherent, alive, found⟩ := ih before here
      refine ⟨key, coherent, alive, ?_⟩
      rw [raw_snoc]
      exact Record.act_isSome found
    cases r with
    | insert key hash status created expires =>
      simp only [Replay.record] at taken
      split at taken
      next expired =>
        cases taken
        exact old e h
      next live =>
        cases taken
        rw [AssocMap.get?_insert] at h
        split at h
        next same =>
          obtain rfl := Option.some.inj h
          subst same
          refine ⟨rfl, fun r settled => absurd settled.symm (Option.some_ne_none r), ?_, ?_⟩
          · simpa [JournalEntry.alive] using live
          · simp [Record.act]
        next => exact old e h
    | settle key result =>
      simp only [Replay.record] at taken
      split at taken
      next found =>
        cases taken
        rw [AssocMap.get?_modify] at h
        split at h
        next same =>
          obtain ⟨prior, here, rfl⟩ := Option.map_eq_some_iff.mp h
          obtain ⟨key, _, alive, found⟩ := old prior here
          exact ⟨key, prior.settled_coherent result, alive, found⟩
        next => exact old e h
      next missing =>
        split at taken
        next known =>
          cases taken
          exact old e h
        next => cases taken

/-- A replay that dropped nothing is `raw`, whatever the clock. -/
theorem replayRecords_of_not_needCompact {lineNo : Nat} {st : Replay}
    (done : replayRecords nowNs lineNo .start records = .ok st) (all : st.needCompact = false)
    (grown : Grown records) (k : IdempotencyKey) :
    st.entries.get? k = raw records k := by
  induction grown generalizing st k with
  | nil =>
    cases done
    rfl
  | @snoc records r _ meets ih =>
    obtain ⟨mid, before, _, taken⟩ := replayRecords_snoc done
    rw [raw_snoc]
    cases r with
    | insert key hash status created expires =>
      simp only [Replay.record] at taken
      split at taken
      next expired =>
        cases taken
        cases all
      next live =>
        cases taken
        rw [AssocMap.get?_insert, Record.act, ih before all k]
        simp only [eq_comm]
    | settle key result =>
      simp only [Replay.record] at taken
      split at taken
      next found =>
        cases taken
        rw [AssocMap.get?_modify, Record.act, ih before all k]
        simp only [eq_comm]
      next missing =>
        split at taken
        next known =>
          cases taken
          rw [Record.Extends, ← ih before all key] at meets
          exact absurd meets missing
        next => cases taken

/-! ## Opening -/

/-- An open succeeds exactly when the replay does. -/
theorem SerdeJson.Lawful.openAt_fileOf (lawful : serde.Lawful) (records : List Record) :
    FileJournal.openAt serde order (serde.fileOf records) nowNs =
      (replayRecords nowNs 1 .start records).map fun st =>
        let j : FileJournal :=
          ⟨serde.fileOf records, st.entries.mapVal fun _ => JournalEntry.recover nowNs⟩
        if st.needCompact then j.compact serde order nowNs else j := by
  rw [FileJournal.openAt, lawful.replayLines_fileOf]
  cases replayRecords nowNs 1 .start records <;> rfl

/-- An open of a written file, taken apart: the replay, the recovered entries,
and the file, which is rewritten if the replay dropped something. -/
theorem SerdeJson.Lawful.openAt_inv (lawful : serde.Lawful) {j : FileJournal}
    (opened : FileJournal.openAt serde order (serde.fileOf records) nowNs = .ok j) :
    ∃ st, replayRecords nowNs 1 .start records = .ok st ∧
      (∀ k, j.entries.get? k = (st.entries.get? k).map (JournalEntry.recover nowNs)) ∧
      (st.needCompact = false ∧ j.file = serde.fileOf records ∨
        j.file = serde.fileOf (FileJournal.compactRecords order j.entries nowNs)) := by
  rw [lawful.openAt_fileOf] at opened
  cases done : replayRecords nowNs 1 .start records with
  | error e =>
    rw [done] at opened
    cases opened
  | ok st =>
    rw [done] at opened
    obtain rfl := Except.ok.inj opened
    refine ⟨st, rfl, fun k => ?_, ?_⟩
    · dsimp only
      split <;> simp [FileJournal.compact]
    · cases needed : st.needCompact with
      | false => exact .inl ⟨rfl, by simp [needed]⟩
      | true => exact .inr (by simp [needed, FileJournal.compact])

/-- The entries an open recovers stand under their keys and are unexpired. -/
theorem SerdeJson.Lawful.openAt_replayed (lawful : serde.Lawful) {j : FileJournal}
    (opened : FileJournal.openAt serde order (serde.fileOf records) nowNs = .ok j)
    (h : j.entries.get? k = some e) : Replayed nowNs records k e := by
  obtain ⟨st, done, entries, _⟩ := lawful.openAt_inv opened
  rw [entries] at h
  obtain ⟨e, here, rfl⟩ := Option.map_eq_some_iff.mp h
  obtain ⟨key, coherent, alive, found⟩ := replayRecords_replayed done here
  refine ⟨e.recover_key.trans key, JournalEntry.recover_coherent coherent, ?_, found⟩
  rwa [JournalEntry.alive, e.recover_expiresAtNs]

end ForgeLink.Control
