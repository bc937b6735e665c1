import Mathlib.Data.String.Basic
import ForgeLink.Buffer.WorkerWindow
import ForgeLink.Buffer.WorkerRecords

/-!
# The bytes that the worker counts

`bytes` is kept up to date by every insert, ack and expiry, and it is what
`capacity_full` compares with `disk_max_bytes`.  As long as the worker runs and
acks are of records in flight, it is the sum of `record_cost` over the table.

`open_db` computes it anew with SQLite's `length()`, which counts the characters
of a text up to a NUL where `record_cost` counts bytes.  The two agree on texts
of one-byte characters other than NUL only (`Plain`).
-/

namespace ForgeLink.Buffer

open Lib

variable {record : MemRecord} {table : Batches} {batch : ObservationBatch}

/-! ## The cost of rows -/

@[simp] theorem totalCost_nil : totalCost [] = 0 := rfl

@[simp] theorem totalCost_cons (record : MemRecord) (records : List MemRecord) :
    totalCost (record :: records) = recordCost record + totalCost records := by
  simp [totalCost]

@[simp] theorem totalCost_append (records records' : List MemRecord) :
    totalCost (records ++ records') = totalCost records + totalCost records' := by
  simp [totalCost]

/-- A total depends on the records only, not on their order. -/
theorem totalCost_perm {records records' : List MemRecord} (h : records.Perm records') :
    totalCost records = totalCost records' :=
  (h.map recordCost).sum_nat

/-- `sent_count` costs nothing. -/
theorem totalCost_touch (t : Batches) (sentCount : UInt64) (localSeq : Int) :
    totalCost (t.touch ((sentCountTo sentCount).only localSeq)).rows = totalCost t.rows := by
  have same : ∀ r, recordCost (((sentCountTo sentCount).only localSeq).apply r) = recordCost r := by
    intro r
    simp only [AutoTable.Touch.only]
    split <;> rfl
  simp [totalCost, Function.comp_def, same]

/-- The rows of a database are too few for the counter to saturate. -/
theorem totalCost_small {records : List MemRecord}
    (small : (records.map storedBytes).sum + storedBytes record ≤ maxDatabaseBytes) :
    totalCost records + recordCost record ≤ 2 ^ 64 - 1 := by
  have each : ∀ r, recordCost r ≤ 512 * storedBytes r := by
    intro r
    rw [recordCost, storedBytes, fixedOverheadPerRecord]
    omega
  have all : totalCost records ≤ 512 * (records.map storedBytes).sum := by
    clear small
    induction records with
    | nil => simp
    | cons r records ih =>
      have := each r
      simp only [totalCost_cons, List.map_cons, List.sum_cons]
      omega
  have := each record
  rw [maxDatabaseBytes] at small
  omega

/-- The rows that a window loses are the records it loses. -/
theorem perm_filter_lost {t : Batches} {lost : List MemRecord} (nodup : lost.Nodup)
    (rows : ∀ r ∈ lost, r ∈ t.rows) (keep : MemRecord → Bool)
    (drops : ∀ r ∈ t.rows, keep r = false ↔ r ∈ lost) :
    ((t.filter keep).rows ++ lost).Perm t.rows := by
  have perm : (t.rows.filter fun r => !keep r).Perm lost := by
    have sorted : t.rows.Nodup := List.Nodup.of_map _ t.distinct
    refine (List.perm_ext_iff_of_nodup (sorted.filter _) nodup).mpr fun r => ?_
    rw [List.mem_filter, Bool.not_eq_true']
    exact ⟨fun ⟨inside, dropped⟩ => (drops r inside).mp dropped,
      fun inside => ⟨rows r inside, (drops r (rows r inside)).mpr inside⟩⟩
  exact (perm.symm.append_left _).trans (List.filter_append_perm keep t.rows)

namespace State

variable {config : LocalBufferConfig} {serde : Serde} {s s' : State} {localSeq : Int}

/-! ## What a step does to the sums -/

/-- The counter, the gauges, the number of rows and their cost. -/
structure Sums where
  bytes : Nat
  gauges : Int × Nat
  rows : Nat
  cost : Nat

/-- The sums of a state. -/
def sums (s : State) : Sums :=
  ⟨s.bytes, s.metrics.gauges, s.table.rows.length, totalCost s.table.rows⟩

/-- Nothing changes, a record that passes `capacity_full` is inserted, or rows are removed. -/
inductive Accounts (config : LocalBufferConfig) (a : Sums) : Sums → Prop where
  | same : Accounts config a a
  | gains {cost : Nat} :
      a.cost + cost ≤ 2 ^ 64 - 1 → saturatingAdd a.bytes cost ≤ config.diskMaxBytes →
      Accounts config a
        ⟨saturatingAdd a.bytes cost, (a.gauges.1 + 1, a.gauges.2 + cost), a.rows + 1,
          a.cost + cost⟩
  | loses {rows cost : Nat} :
      rows ≤ a.rows → cost ≤ a.cost →
      Accounts config a
        ⟨a.bytes - cost, (a.gauges.1 - rows, a.gauges.2 - cost), a.rows - rows, a.cost - cost⟩

theorem Accounts.of_eq {a b : Sums} (h : b = a) : Accounts config a b := h ▸ .same

theorem Accounts.trans_eq {a b c : Sums} (h : Accounts config a b) (eq : c = b) :
    Accounts config a c :=
  eq ▸ h

theorem Answered.sums (h : Answered s s') : s'.sums = s.sums := by
  rw [State.sums, State.sums, h.worker, h.table, h.metrics]

theorem Requeued.sums (h : Requeued s s') : s'.sums = s.sums := by
  rw [State.sums, State.sums, h.bytes, h.table, h.metrics]

theorem sums_handling (s : State) (queue : List Cmd) : (s.handling queue).sums = s.sums :=
  (requeued_checkPendingConfirm { s with queue, pc := .top }).sums

theorem sums_loadMore (s : State) (config : LocalBufferConfig) (fault : Fault) :
    (s.loadMore config fault).sums = s.sums := by
  unfold State.loadMore
  split
  · rfl
  · cases fault <;> rfl

theorem Takes.sums {result : Except LocalBufferError (Option StoredBatch)}
    (takes : Takes serde s s' result) : s'.sums = s.sums := by
  cases takes with
  | none => rfl
  | fails same =>
    rw [State.sums, State.sums]
    dsimp only
    rw [same]
  | takes _ _ same =>
    rw [State.sums, State.sums]
    dsimp only
    rw [same, totalCost_touch, AutoTable.touch_rows, List.length_map]

/-- An insert that passes `capacity_full`; the database is too small for the counter to
saturate. -/
theorem accounts_store {outcome : Except String Nat} {n : Int} (call : CallId) (waited : Bool)
    (room : s.capacityFull config (recordCost record) = false)
    (inserted : s.table.insertRecord record outcome = .ok (n, table)) :
    Accounts config s.sums
      (s.store config call waited { record with localSeq := n } table).sums := by
  obtain ⟨gap, _, rfl, inserted, small⟩ := Batches.insertRecord_ok inserted
  have rows := (AutoTable.insert_eq_some inserted).1
  have stored : (s.store config call waited { record with localSeq := s.table.number gap }
      table).sums = ⟨saturatingAdd s.bytes (recordCost record),
        (s.metrics.inflight + 1, s.metrics.diskBytes + recordCost record),
        s.table.rows.length + 1, totalCost s.table.rows + recordCost record⟩ := by
    rw [State.sums]
    unfold State.store
    dsimp only
    rw [rows, totalCost_append, List.length_append]
    rfl
  rw [capacityFull, decide_eq_false_iff_not, Nat.not_lt] at room
  exact .trans_eq (.gains (totalCost_small small) room) stored

/-- Records leave the table. -/
theorem accounts_loses {lost : List MemRecord} (perm : (s'.table.rows ++ lost).Perm s.table.rows)
    (bytes : s'.bytes = s.bytes - totalCost lost)
    (gauges : s'.metrics.gauges =
      (s.metrics.inflight - lost.length, s.metrics.diskBytes - totalCost lost)) :
    Accounts config s.sums s'.sums := by
  have rows := perm.length_eq
  have total := totalCost_perm perm
  rw [List.length_append] at rows
  rw [totalCost_append] at total
  have fewer : s'.sums = ⟨s.bytes - totalCost lost,
      (s.metrics.inflight - lost.length, s.metrics.diskBytes - totalCost lost),
      s.table.rows.length - lost.length, totalCost s.table.rows - totalCost lost⟩ := by
    rw [State.sums, bytes, gauges, ← rows, ← total, Nat.add_sub_cancel, Nat.add_sub_cancel]
  refine .trans_eq (.loses ?_ ?_) fewer
  · exact Nat.le.intro ((Nat.add_comm ..).trans rows)
  · exact Nat.le.intro ((Nat.add_comm ..).trans total)

/-- The records that expire. -/
def expired (s : State) (cutoffNs : Int) : List MemRecord :=
  s.mem.filter fun r => r.createdAtNs < cutoffNs

/-- What expires waits in `mem`, and is in the table. -/
theorem Fits.perm_expired (fits : s.Fits config) (cutoffNs : Int) :
    ((s.table.filter fun r => r.localSeq ∉ (s.expired cutoffNs).map MemRecord.localSeq).rows ++
      s.expired cutoffNs).Perm s.table.rows := by
  refine perm_filter_lost
    ((fits.sorted.imp fun less eq => by rw [eq] at less; omega).filter _)
    (fun r inside => fits.waiting_rows r (List.mem_of_mem_filter inside)) _ fun r inside => ?_
  rw [decide_eq_false_iff_not, not_not, List.mem_map]
  refine ⟨?_, fun expired => ⟨r, expired, rfl⟩⟩
  rintro ⟨r', expired, same⟩
  have row := fits.waiting_rows r' (List.mem_of_mem_filter expired)
  rwa [AutoTable.eq_of_seq row inside same] at expired

/-- The row of a record in flight. -/
theorem Fits.perm_delete (fits : s.Fits config) (held : record ∈ s.inflight) :
    ((s.table.delete record.localSeq).rows ++ [record]).Perm s.table.rows := by
  have row := fits.out_rows record held
  refine perm_filter_lost (List.nodup_singleton _)
    (fun r one => List.mem_singleton.mp one ▸ row) _ fun r inside => ?_
  rw [decide_eq_false_iff_not, not_not, List.mem_singleton]
  exact ⟨AutoTable.eq_of_seq inside row, fun eq => eq ▸ rfl⟩

theorem Fits.accounts_cleanupExpired (fits : s.Fits config) (cutoffNs : Int) (fault : Fault) :
    Accounts config s.sums (s.cleanupExpired cutoffNs fault).1.sums := by
  have perm := fits.perm_expired cutoffNs
  unfold State.cleanupExpired
  dsimp only
  split
  · exact .same
  · split
    · exact .same
    · exact accounts_loses perm rfl rfl

theorem Flushes.accounts {progress : Bool} {outcome : Except String Nat}
    (flushes : Flushes config s progress outcome s') : Accounts config s.sums s'.sums := by
  cases flushes with
  | leaves => exact .same
  | @stores front rest n table _ room inserted =>
    have stored := accounts_store (s := { s with pendingPush := rest }) front.first true room
      inserted
    exact stored.trans_eq (answered_replyAll _ front.replies (.ok ())).sums
  | @fails front rest e _ _ =>
    exact .of_eq (answered_replyAll { s with pendingPush := rest } front.replies (.error e)).sums

theorem Pushes.accounts {call : CallId} (pushes : Pushes config serde s call batch s') :
    Accounts config s.sums s'.sums := by
  cases pushes with
  | known => exact .of_eq (answered_reply ..).sums
  | @refused metrics e same =>
    refine .of_eq ((answered_reply { s with metrics } call _).sums.trans ?_)
    rw [State.sums, State.sums]
    dsimp only
    rw [same]
  | joins | waits => exact .same
  | stores _ _ room inserted =>
    exact (accounts_store _ _ room inserted).trans_eq (answered_reply ..).sums

/-- The sequence is in flight, or it has no row. -/
def Settles (s : State) (localSeq : Int) : Prop :=
  (∃ r ∈ s.inflight, r.localSeq = localSeq) ∨ ∀ r ∈ s.table.rows, r.localSeq ≠ localSeq

/-- An ack of a record in flight, or of one without a row. -/
theorem Acks.accounts {result : Except LocalBufferError Unit} (acks : Acks s localSeq s' result)
    (fits : s.Fits config) (settles : s.Settles localSeq) : Accounts config s.sums s'.sums := by
  cases acks with
  | fails => exact .same
  | absent none =>
    have rows : (s.table.delete localSeq).rows = s.table.rows :=
      List.filter_eq_self.mpr fun r inside => decide_eq_true (none r inside)
    refine .of_eq ?_
    rw [State.sums, State.sums]
    dsimp only
    rw [rows]
  | @removes row record metrics _ _ held same gauges =>
    subst same gauges
    exact accounts_loses (fits.perm_delete held) rfl rfl
  | @strays row here same apart =>
    rcases settles with ⟨r, inside, same'⟩ | none
    · exact absurd same' (apart r inside)
    · exact absurd same (none row here)

theorem Commands.accounts {cmd : Cmd} (commands : Commands config serde s cmd s')
    (fits : s.Fits config)
    (settles : ∀ call localSeq, cmd = ⟨call, .ack localSeq⟩ → s.Settles localSeq) :
    Accounts config s.sums s'.sums := by
  cases commands with
  | push pushes => exact pushes.accounts
  | next takes => exact .of_eq ((answered_reply ..).sums.trans takes.sums)
  | @delivers call s₁ result localSeq takes =>
    exact .of_eq ((answered_reply s₁ call (.taken result)).sums.trans takes.sums)
  | returns takes => exact .of_eq ((requeued_handleRequeue ..).sums.trans takes.sums)
  | @ack call localSeq s' result acks =>
    exact (acks.accounts fits (settles call localSeq rfl)).trans_eq (answered_reply ..).sums
  | requeue => exact .of_eq ((answered_reply ..).sums.trans (requeued_handleRequeue ..).sums)
  | shutdown => exact .of_eq (answered_shutdown s ‹_›).sums

/-- Acks are of sequences in flight or without a row. -/
def SettlingAcks (s : State) (label : Label) : Prop :=
  ∀ ack ∈ s.acking label, (s.handling ack.2).Settles ack.1

theorem InFlightAcks.settling {label : Label} (h : s.InFlightAcks label) : s.SettlingAcks label :=
  fun ack acked => .inl (h ack acked)

theorem Move.accounts {label : Label} (move : Move config serde s label s') (fits : s.Fits config)
    (settling : s.SettlingAcks label) (goesOn : label.isRestart = false) :
    Accounts config s.sums s'.sums := by
  cases move with
  | send | giveUp | extract | timeout | hangUp => exact .same
  | refused => exact .of_eq (answered_reply ..).sums
  | @round cutoffNs cleanup load _ =>
    have cleaned := fits.checkPendingConfirm.accounts_cleanupExpired cutoffNs cleanup
    rw [(requeued_checkPendingConfirm s).sums] at cleaned
    exact cleaned.trans_eq (sums_loadMore _ config load)
  | flush _ flushes => exact flushes.accounts
  | @receive cmd queue nowNs fault outcome s' _ eq commands =>
    refine sums_handling s queue ▸ commands.accounts (fits.handling queue) ?_
    rintro call localSeq rfl
    exact settling _ (acking_of_queue eq)
  | restart => cases goesOn

/-! ## Counting -/

/-- The worker counts the rows of the table, and they fit. -/
structure Counted (config : LocalBufferConfig) (s : State) : Prop where
  exact : s.bytes = totalCost s.table.rows
  fits : s.bytes ≤ config.diskMaxBytes

/-! A table that was larger than the limit when it was opened stays within its own
size, so `limit` is the configuration or one with a larger limit. -/

variable {limit : LocalBufferConfig}

theorem Accounts.counted {a b : Sums} (h : Accounts config a b)
    (within : config.diskMaxBytes ≤ limit.diskMaxBytes) (exact : a.bytes = a.cost)
    (fits : a.bytes ≤ limit.diskMaxBytes) : b.bytes = b.cost ∧ b.bytes ≤ limit.diskMaxBytes := by
  cases h with
  | same => exact ⟨exact, fits⟩
  | gains small room =>
    refine ⟨?_, Nat.le_trans room within⟩
    dsimp only
    rw [saturatingAdd, exact]
    exact Nat.min_eq_left small
  | loses _ less =>
    dsimp only
    omega

theorem Counted.step {label : Label} (h : s.Counted limit) (fits : s.Fits config)
    (within : config.diskMaxBytes ≤ limit.diskMaxBytes)
    (settling : s.SettlingAcks label) (goesOn : label.isRestart = false)
    (move : Move config serde s label s') : s'.Counted limit := by
  obtain ⟨exact, fits⟩ := (move.accounts fits settling goesOn).counted within h.exact h.fits
  exact ⟨exact, fits⟩

theorem Counted.opened_empty (empty : table.rows = []) : (opened config table).Counted config := by
  have bytes : (opened config table).bytes = 0 := by simp [opened, Batches.sqlBytes, empty]
  exact ⟨by rw [bytes]; simp [opened, empty], by rw [bytes]; exact Nat.zero_le _⟩

/-! ## Within a session -/

/-- The steps of one session whose acks are of sequences in flight. -/
def InSession (s : State) (label : Label) : Prop :=
  s.InFlightAcks label ∧ label.isRestart = false

instance (s : State) (label : Label) : Decidable (s.InSession label) :=
  inferInstanceAs (Decidable (_ ∧ _))

/-- From an empty table on, the counter is the cost of the table and stays
within the limit. -/
theorem bytes_exact {s₀ : State} {labels : List Label} (opened : openDb config table = .ok s₀)
    (empty : table.rows = []) (run : (bufferMachine config serde).Run InSession s₀ labels s) :
    s.bytes = totalCost s.table.rows ∧ s.bytes ≤ config.diskMaxBytes := by
  obtain ⟨pos, rfl⟩ := openDb_ok opened
  obtain ⟨_, counted⟩ := run.invariant (P := fun s => s.Reads config ∧ s.Counted config)
    ⟨.opened pos table, .opened_empty empty⟩ fun t label u ⟨reads, counted⟩
      ⟨inFlight, goesOn⟩ taken =>
      ⟨reads.step pos (inFlight.spared reads.fits) (step_move taken),
        counted.step reads.fits (Nat.le_refl _) inFlight.settling goesOn (step_move taken)⟩
  exact ⟨counted.exact, counted.fits⟩

/-- Two rows of 1400 bytes. -/
theorem bytes_exact_sample :
    ∃ s, (bufferMachine sampleConfig sampleSerde).Run InSession (opened sampleConfig .empty)
        windowLabels s ∧
      (s.table.rows.map MemRecord.localSeq = [2, 3] ∧ s.bytes = 1400) ∧
      s.bytes = totalCost s.table.rows ∧ s.bytes ≤ sampleConfig.diskMaxBytes :=
  Lib.Machine.Run.find (by decide +kernel) fun s run _ => bytes_exact rfl rfl run

end State

/-! ## Across sessions -/

/-- A text of one-byte characters other than NUL. -/
def Plain (text : String) : Prop := ∀ c ∈ text.toList, c.utf8Size = 1 ∧ c ≠ '\x00'

instance (text : String) : Decidable (Plain text) :=
  List.decidableBAll (fun c : Char => c.utf8Size = 1 ∧ c ≠ '\x00') text.toList

/-- Characters up to a NUL are fewer than bytes, unless the text is plain. -/
theorem length_takeWhile_utf8Len (cs : List Char) :
    (cs.takeWhile fun c => c ≠ '\x00').length ≤ String.utf8Len cs ∧
      ((cs.takeWhile fun c => c ≠ '\x00').length = String.utf8Len cs ↔
        ∀ c ∈ cs, c.utf8Size = 1 ∧ c ≠ '\x00') := by
  induction cs with
  | nil => simp [String.utf8Len]
  | cons c cs ih =>
    have pos := c.utf8Size_pos
    obtain ⟨le, iff⟩ := ih
    by_cases nul : c = '\x00'
    · subst nul
      exact ⟨Nat.zero_le _, fun eq => absurd eq (by simp [String.utf8Len]; omega),
        fun plain => absurd rfl (plain _ List.mem_cons_self).2⟩
    · rw [List.takeWhile_cons_of_pos (by simpa using nul), List.forall_mem_cons, ← iff]
      simp only [String.utf8Len, List.length_cons]
      refine ⟨by omega, fun eq => ⟨⟨by omega, nul⟩, by omega⟩, fun ⟨⟨one, _⟩, eq⟩ => by omega⟩

theorem sqlLength_le (text : String) : sqlLength text ≤ text.utf8ByteSize := by
  rw [sqlLength, ← String.utf8Len_toList]
  exact (length_takeWhile_utf8Len text.toList).1

/-- The two ways of measuring a text agree on plain texts only. -/
theorem sqlLength_eq_iff (text : String) : sqlLength text = text.utf8ByteSize ↔ Plain text := by
  rw [sqlLength, ← String.utf8Len_toList]
  exact (length_takeWhile_utf8Len text.toList).2

theorem Plain.append {text text' : String} (h : Plain text) (h' : Plain text') :
    Plain (text ++ text') := by
  intro c inside
  rw [String.toList_append, List.mem_append] at inside
  exact inside.elim (h c) (h' c)

/-- The texts of a record are plain. -/
def MemRecord.Plain (record : MemRecord) : Prop :=
  Buffer.Plain record.topic ∧ Buffer.Plain record.messageId

/-- The two ways of measuring a table agree if all its texts are plain, and in
no other case. -/
theorem sqlBytes_eq_iff (t : Batches) :
    t.sqlBytes = totalCost t.rows ↔ ∀ row ∈ t.rows, row.Plain := by
  have each : ∀ row, row.payload.length + sqlLength row.topic + sqlLength row.messageId +
      fixedOverheadPerRecord ≤ recordCost row ∧
      (row.payload.length + sqlLength row.topic + sqlLength row.messageId +
        fixedOverheadPerRecord = recordCost row ↔ row.Plain) := by
    intro row
    have topic := sqlLength_le row.topic
    have messageId := sqlLength_le row.messageId
    rw [recordCost, MemRecord.Plain, ← sqlLength_eq_iff, ← sqlLength_eq_iff]
    omega
  suffices both : t.sqlBytes ≤ totalCost t.rows ∧
      (t.sqlBytes = totalCost t.rows ↔ ∀ row ∈ t.rows, row.Plain) from both.2
  rw [Batches.sqlBytes]
  induction t.rows with
  | nil => simp
  | cons row rows ih =>
    obtain ⟨le, iff⟩ := each row
    simp only [List.map_cons, List.sum_cons, totalCost_cons, List.forall_mem_cons]
    rw [← iff, ← ih.2]
    omega

/-- The names of a batch are plain. -/
def ObservationBatch.Plain (batch : ObservationBatch) : Prop :=
  Buffer.Plain batch.siteId ∧ Buffer.Plain batch.deviceId ∧ Buffer.Plain batch.messageId

instance (batch : ObservationBatch) : Decidable batch.Plain :=
  inferInstanceAs (Decidable (_ ∧ _))

theorem telemetryTopic_eq {serde : Serde} {topic : String}
    (h : telemetryTopic serde batch = .ok topic) :
    topic = "forgelink/v1/telemetry/" ++ batch.siteId ++ "/" ++ batch.deviceId := by
  simp only [telemetryTopic, bind, Except.bind] at h
  split at h
  · cases h
  · split at h
    · cases h
    · split at h
      · cases h
      · exact (Except.ok.inj h).symm

namespace State

variable {config : LocalBufferConfig} {serde : Serde} {s s' : State}

theorem IsRecord.plain (h : IsRecord serde batch record) (plain : batch.Plain) : record.Plain := by
  obtain ⟨topic, payload, nowNs, valid, _, rfl⟩ := h
  obtain ⟨site, device, message⟩ := plain
  refine ⟨?_, message⟩
  change Plain topic
  rw [telemetryTopic_eq valid]
  exact ((Plain.append (by decide) site).append (by decide)).append device

/-- All records, in the table and on their way to it, are plain. -/
structure Speaks (s : State) : Prop where
  rows : ∀ row ∈ s.table.rows, row.Plain
  pending : ∀ p ∈ s.pendingPush, p.record.Plain
  queue : ∀ cmd ∈ s.queue, ∀ batch, cmd.request = .push batch → batch.Plain

/-- The batch that a label sends. -/
def Label.pushed : Label → Option ObservationBatch
  | .send _ (.push batch) => some batch
  | _ => none

/-- Plain pushes keep all records plain. -/
theorem Speaks.step {label : Label} (h : s.Speaks) (plain : ∀ batch ∈ label.pushed, batch.Plain)
    (move : Move config serde s label s') : s'.Speaks := by
  obtain ⟨asked, new, effect, asks⟩ := move.effect
  have of : ∀ {call batch record}, asked = some (call, batch) → IsRecord serde batch record →
      record.Plain := fun asked of => of.plain (h.queue _ (asks _ _ asked) _ rfl)
  refine ⟨fun row inside => ?_, fun p inside => ?_, fun cmd inside batch eq => ?_⟩
  · cases effect.rows row inside with
    | kept inside₀ same _ =>
      obtain ⟨n, rfl⟩ := same
      have plain := h.rows _ inside₀
      exact plain
    | flushed inside₀ eq _ _ =>
      subst eq
      have plain := h.pending _ inside₀
      exact plain
    | pushed asked' is eq _ _ =>
      subst eq
      have plain := of asked' is
      exact plain
  · cases effect.pending p inside with
    | kept inside₀ continues _ => exact continues.record ▸ h.pending _ inside₀
    | pushed asked' is _ _ => exact of asked' is
  · rcases move.queue cmd inside with before | sent
    · exact h.queue cmd before batch eq
    · refine plain batch ?_
      rw [sent, eq]
      rfl

/-- Only batches with plain names are pushed, and acks are of sequences in
flight. -/
def PlainPushes (s : State) (label : Label) : Prop :=
  s.InFlightAcks label ∧ ∀ batch ∈ label.pushed, batch.Plain

instance (s : State) (label : Label) : Decidable (s.PlainPushes label) :=
  inferInstanceAs (Decidable (_ ∧ _))

/-- The counter of a new session is the cost of the table exactly if all texts
are plain, and in a run with plain names it is exact in every session. -/
theorem recovered_bytes {s₀ : State} (opened : openDb config table = .ok s₀) :
    (s₀.bytes = totalCost s₀.table.rows ↔ ∀ row ∈ table.rows, row.Plain) ∧
      (table.rows = [] → ∀ labels s, (bufferMachine config serde).Run PlainPushes s₀ labels s →
        s.bytes = totalCost s.table.rows ∧ s.bytes ≤ config.diskMaxBytes) := by
  obtain ⟨pos, rfl⟩ := openDb_ok opened
  refine ⟨sqlBytes_eq_iff table, fun empty labels s run => ?_⟩
  have speaks : (State.opened config table).Speaks := by
    refine ⟨fun row inside => ?_, fun p inside => (by cases inside), fun cmd inside =>
      (by cases inside)⟩
    rw [show (State.opened config table).table.rows = [] from empty] at inside
    cases inside
  have keep : ∀ t label u, t.Reads config ∧ t.Counted config ∧ t.Speaks → t.PlainPushes label →
      (bufferMachine config serde).step t label = some u →
      u.Reads config ∧ u.Counted config ∧ u.Speaks := by
    intro t label u ⟨reads, counted, speaks⟩ ⟨inFlight, plain⟩ taken
    refine ⟨reads.step pos (inFlight.spared reads.fits) (step_move taken), ?_,
      speaks.step plain (step_move taken)⟩
    cases goesOn : label.isRestart with
    | false =>
      exact counted.step reads.fits (Nat.le_refl _) inFlight.settling goesOn (step_move taken)
    | true =>
      cases label <;> cases goesOn
      cases taken
      have bytes : (t.restart config).bytes = totalCost t.table.rows :=
        (sqlBytes_eq_iff t.table).mpr speaks.rows
      exact ⟨bytes, by rw [bytes, ← counted.exact]; exact counted.fits⟩
  obtain ⟨_, counted, _⟩ := run.invariant
    (P := fun s => s.Reads config ∧ s.Counted config ∧ s.Speaks)
    ⟨.opened pos table, .opened_empty empty, speaks⟩ keep
  exact ⟨counted.exact, counted.fits⟩

/-- A push, a restart and another push. -/
def restartLabels (batch : String → ObservationBatch) : List Label :=
  served 0 (.push (batch "a")) ++ [.restart] ++ served 1 (.push (batch "b"))

/-- The bytes of both sessions. -/
theorem recovered_bytes_sample :
    ∃ s, (bufferMachine sampleConfig sampleSerde).Run PlainPushes (opened sampleConfig .empty)
        (restartLabels sampleBatch) s ∧
      s.table.rows.map MemRecord.localSeq = [1, 2] ∧
      s.bytes = totalCost s.table.rows ∧ s.bytes ≤ sampleConfig.diskMaxBytes :=
  Lib.Machine.Run.find (by decide +kernel) fun s run _ =>
    (recovered_bytes rfl).2 rfl _ s run

/-- A batch of a site whose name is one character and three bytes. -/
def wideBatch (messageId : String) : ObservationBatch :=
  { sampleBatch messageId with siteId := "厂" }

/-- A database that has room for one such batch. -/
def narrowConfig : LocalBufferConfig := { sampleConfig with diskMaxBytes := 1391 }

/-- After a restart the worker counts two bytes less than the table has, and it
takes a record that does not fit. -/
theorem recovered_bytes_short :
    ∃ s₁ s₂, (bufferMachine narrowConfig sampleSerde).Run InFlightAcks
        (opened narrowConfig .empty) (served 0 (.push (wideBatch "a")) ++ [.restart]) s₁ ∧
      openDb narrowConfig s₁.table = .ok (opened narrowConfig s₁.table) ∧
      (opened narrowConfig s₁.table).bytes + 2 = totalCost s₁.table.rows ∧
      (bufferMachine narrowConfig sampleSerde).Run InFlightAcks
        (opened narrowConfig s₁.table) (served 1 (.push (wideBatch "b"))) s₂ ∧
      narrowConfig.diskMaxBytes < totalCost s₂.table.rows := by
  obtain ⟨s₁, run₁, short, next⟩ := Lib.Machine.Run.of_any
    (fun s₁ : State => (opened narrowConfig s₁.table).bytes + 2 = totalCost s₁.table.rows ∧
      ((bufferMachine narrowConfig sampleSerde).exec InFlightAcks (opened narrowConfig s₁.table)
        (served 1 (.push (wideBatch "b")))).any (fun s₂ =>
          decide (narrowConfig.diskMaxBytes < totalCost s₂.table.rows)) = true)
    (show ((bufferMachine narrowConfig sampleSerde).exec InFlightAcks
      (opened narrowConfig .empty) (served 0 (.push (wideBatch "a")) ++ [.restart])).any _ = true
      by decide +kernel)
  obtain ⟨s₂, run₂, above⟩ := Lib.Machine.Run.of_any _ next
  exact ⟨s₁, s₂, run₁, rfl, short, run₂, above⟩

end State

end ForgeLink.Buffer
