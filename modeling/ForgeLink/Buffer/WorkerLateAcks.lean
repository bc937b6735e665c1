import ForgeLink.Buffer.WorkerCapacity

/-!
# Late acknowledgements

The caller of `next` acknowledges the record by its sequence, and the record may
have moved in the meantime: it may have been put back into `mem`, or a restart
may have left it in the table only.  `handle_ack` deletes the row in any case,
but it removes the record from memory and from the byte count only if it is in
flight.  An ack of a record that was put back leaves it in `mem` and in
`bytes` (`ack_after_requeue`), and one of a record that is only in the table
leaves it in `bytes`.

An ack of a sequence in flight, or of one that has no row any more, leaves no
trace of the record (`ack_settles`).  The byte count is exact as long as the
tables that are opened have plain texts only, which is a matter of `open_db`.
-/

namespace ForgeLink.Buffer

open Lib

instance (record : MemRecord) : Decidable record.Plain := inferInstanceAs (Decidable (_ ∧ _))

namespace State

variable {config : LocalBufferConfig} {serde : Serde} {s s' : State} {localSeq : Int}

instance (s : State) (localSeq : Int) : Decidable (s.Settles localSeq) :=
  inferInstanceAs (Decidable (_ ∨ _))

/-- Acks are of sequences in flight or without a row, and the process is started
again only on tables with plain texts. -/
def Orderly (s : State) (label : Label) : Prop :=
  s.SettlingAcks label ∧ (label.isRestart = true → ∀ row ∈ s.table.rows, row.Plain)

instance (s : State) (label : Label) : Decidable (s.Orderly label) :=
  inferInstanceAs (Decidable ((∀ ack ∈ s.acking label, _) ∧ (_ → _)))

/-- What has no row does not wait, and neither does what is in flight. -/
theorem SettlingAcks.spared {label : Label} (fits : s.Fits config) (h : s.SettlingAcks label) :
    s.Spared label := by
  intro ack acked r waits same
  have fits := fits.handling ack.2
  rcases h ack acked with ⟨r', inside, same'⟩ | none
  · exact fits.apart r waits r' inside (same.trans same'.symm)
  · exact none r (fits.waiting_rows r waits) same

/-- The window and the byte count in every orderly run. -/
theorem counted_of_run {table : Batches} {s₀ : State} {labels : List Label}
    (opened : openDb config table = .ok s₀) (plain : ∀ row ∈ table.rows, row.Plain)
    (run : (bufferMachine config serde).Run Orderly s₀ labels s) :
    s.Reads config ∧ s.bytes = totalCost s.table.rows := by
  obtain ⟨pos, rfl⟩ := openDb_ok opened
  -- The opened table may be larger than the limit allows.
  let limit := { config with diskMaxBytes := max config.diskMaxBytes (totalCost table.rows) }
  have within : config.diskMaxBytes ≤ limit.diskMaxBytes := Nat.le_max_left ..
  have bytes : (State.opened config table).bytes = totalCost table.rows :=
    (sqlBytes_eq_iff table).mpr plain
  have keep : ∀ t label u, t.Reads config ∧ t.Counted limit → t.Orderly label →
      (bufferMachine config serde).step t label = some u → u.Reads config ∧ u.Counted limit := by
    intro t label u ⟨reads, counted⟩ ⟨settling, restarts⟩ taken
    refine ⟨reads.step pos (settling.spared reads.fits) (step_move taken), ?_⟩
    cases goesOn : label.isRestart with
    | false => exact counted.step reads.fits within settling goesOn (step_move taken)
    | true =>
      have plain := restarts goesOn
      cases label <;> cases goesOn
      cases taken
      have bytes : (t.restart config).bytes = totalCost t.table.rows :=
        (sqlBytes_eq_iff t.table).mpr plain
      exact ⟨bytes, by rw [bytes, ← counted.exact]; exact counted.fits⟩
  obtain ⟨reads, counted⟩ := run.invariant (P := fun s => s.Reads config ∧ s.Counted limit)
    ⟨.opened pos table, bytes, by rw [bytes]; exact Nat.le_max_right ..⟩ keep
  exact ⟨reads, counted.exact⟩

/-- A successful ack of a sequence in flight or without a row leaves nothing of it. -/
theorem Acks.nothing_left (acks : Acks s localSeq s' (.ok ())) (fits : s.Fits config)
    (settles : s.Settles localSeq) :
    ∀ r, r ∈ s'.table.rows ∨ r ∈ s'.mem ∨ r ∈ s'.inflight → r.localSeq ≠ localSeq := by
  have deleted : ∀ r ∈ (s.table.delete localSeq).rows, r.localSeq ≠ localSeq :=
    fun r inside => of_decide_eq_true (List.mem_filter.mp inside).2
  cases acks with
  | absent none =>
    rintro r (row | waits | out)
    · exact deleted r row
    · exact none r (fits.waiting_rows r waits)
    · exact none r (fits.out_rows r out)
  | @removes row record metrics here same held same' =>
    rintro r (row | waits | out)
    · exact deleted r row
    · intro eq
      exact fits.apart r waits record held (eq.trans same'.symm)
    · intro eq
      exact of_decide_eq_true (List.mem_filter.mp out).2 (eq.trans same'.symm)
  | @strays row here same apart =>
    rcases settles with ⟨r, inside, eq⟩ | none
    · exact absurd eq (apart r inside)
    · exact absurd same (none row here)

/-- In every orderly run, an ack whose `DELETE` does not fail leaves the record neither in
the table nor in memory, and `bytes` is the cost of the remaining rows. -/
theorem ack_settles {table : Batches} {s₀ : State} {labels : List Label} {call : CallId}
    {queue : List Cmd} {nowNs : Int} {outcome : Except String Nat}
    (opened : openDb config table = .ok s₀) (plain : ∀ row ∈ table.rows, row.Plain)
    (run : (bufferMachine config serde).Run Orderly s₀ labels s)
    (acked : s.queue = ⟨call, .ack localSeq⟩ :: queue)
    (orderly : s.Orderly (.receive nowNs none outcome))
    (taken : (bufferMachine config serde).step s (.receive nowNs none outcome) = some s') :
    (∀ r, r ∈ s'.table.rows ∨ r ∈ s'.mem ∨ r ∈ s'.inflight → r.localSeq ≠ localSeq) ∧
      s'.bytes = totalCost s'.table.rows := by
  obtain ⟨reads, _⟩ := counted_of_run opened plain run
  refine ⟨?_, (counted_of_run opened plain (run.snoc orderly taken)).2⟩
  have settles := orderly.1 _ (acking_of_queue acked)
  simp only [bufferMachine, step] at taken
  split at taken
  next cmd rest waiting eq =>
    obtain ⟨rfl, rfl⟩ := List.cons.inj (acked.symm.trans eq)
    cases taken
    have acks : Acks (s.handling queue) localSeq ((s.handling queue).handleAck localSeq none).1
      (.ok ()) := acks_handleAck
    have nothing := acks.nothing_left (reads.fits.handling queue) settles
    have same := answered_reply ((s.handling queue).handleAck localSeq none).1 call
      (.done (.ok ()))
    intro r
    have mem := congrArg WorkerState.mem same.worker
    have inflight := congrArg WorkerState.inflight same.worker
    have table := same.table
    rw [← mem, ← inflight, ← table] at nothing
    exact nothing r
  · cases taken

/-- A record is pushed and taken; its ack is in the channel. -/
def takenLabels : List Label :=
  served 0 (.push (sampleBatch "a")) ++ served 1 .next ++
    [.extract 1, .send 2 (.ack 1), .round 0 none none, .flush (.ok 0)]

/-- A record that is taken and acknowledged. -/
theorem ack_settles_sample :
    ∃ s s', (bufferMachine sampleConfig sampleSerde).Run Orderly (opened sampleConfig .empty)
        takenLabels s ∧
      (s.table.rows.map MemRecord.localSeq = [1] ∧ s.inflight.map MemRecord.localSeq = [1]) ∧
      (bufferMachine sampleConfig sampleSerde).step s (.receive 0 none (.ok 0)) = some s' ∧
      (∀ r, r ∈ s'.table.rows ∨ r ∈ s'.mem ∨ r ∈ s'.inflight → r.localSeq ≠ 1) ∧
      s'.bytes = totalCost s'.table.rows := by
  obtain ⟨s, run, held, acked, orderly, enabled⟩ := Lib.Machine.Run.of_any
    (fun s : State => (s.table.rows.map MemRecord.localSeq = [1] ∧
        s.inflight.map MemRecord.localSeq = [1]) ∧ s.queue = [⟨2, .ack 1⟩] ∧
      s.Orderly (.receive 0 none (.ok 0)) ∧
      ((bufferMachine sampleConfig sampleSerde).step s (.receive 0 none (.ok 0))).isSome = true)
    (show ((bufferMachine sampleConfig sampleSerde).exec Orderly (opened sampleConfig .empty)
      takenLabels).any _ = true by decide +kernel)
  obtain ⟨s', taken⟩ := Option.isSome_iff_exists.mp enabled
  exact ⟨s, s', run, held, taken, ack_settles rfl (fun _ inside => by cases inside) run acked
    orderly taken⟩

/-- The sender puts the record back, and its acknowledgement comes after that. -/
def lateLabels : List Label :=
  served 0 (.push (sampleBatch "a")) ++ served 1 .next ++ [.extract 1] ++ served 2 (.requeue 1) ++
    served 3 (.ack 1)

/-- The record is gone from the table, and still in `mem` and in `bytes`. -/
theorem ack_after_requeue :
    ∃ s, (bufferMachine sampleConfig sampleSerde).Run Lib.Machine.Always
        (opened sampleConfig .empty) lateLabels s ∧
      s.answers 3 = [.done (.ok ())] ∧ s.table.rows = [] ∧ s.mem.map MemRecord.localSeq = [1] ∧
      s.bytes ≠ totalCost s.table.rows :=
  Lib.Machine.Run.of_any _ (by decide +kernel)

end State

end ForgeLink.Buffer
