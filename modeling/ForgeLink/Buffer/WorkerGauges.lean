import Mathlib.Algebra.Order.BigOperators.Group.List
import ForgeLink.Buffer.WorkerCapacity

/-!
# The gauges of the buffer

`metrics.rs`: the number of records that wait for their acknowledgement, and the bytes they
take.  They are set when the database is opened, and every insert, ack and expiry moves
them together with the table and with `bytes`.  As long as acks are of records in flight,
they show the rows of the table and the worker's own counter, over restarts as well.

After a restart the counter may be too low (`Batches.sqlBytes`).  The gauge is then too low
by the same amount, and both stop at zero.
-/

namespace ForgeLink.Buffer

open Lib

namespace State

variable {config : LocalBufferConfig} {serde : Serde} {s s' : State} {localSeq : Int}

/-- The gauges show the rows and the counter, which never exceeds the cost of the rows. -/
structure Gauged (s : State) : Prop where
  inflight : s.metrics.inflight = s.table.rows.length
  diskBytes : s.metrics.diskBytes = s.bytes
  low : s.bytes ≤ totalCost s.table.rows

theorem Gauged.opened (config : LocalBufferConfig) (table : Batches) :
    (State.opened config table).Gauged := by
  refine ⟨rfl, rfl, List.sum_le_sum fun r _ => ?_⟩
  have topic := sqlLength_le r.topic
  have messageId := sqlLength_le r.messageId
  rw [recordCost]
  omega

/-- A sum that the database has room for does not saturate, and a counter that is too low goes to
zero together with its gauge. -/
theorem Accounts.gauged {a b : Sums} (h : Accounts config a b) (inflight : a.gauges.1 = a.rows)
    (diskBytes : a.gauges.2 = a.bytes) (low : a.bytes ≤ a.cost) :
    b.gauges.1 = b.rows ∧ b.gauges.2 = b.bytes ∧ b.bytes ≤ b.cost := by
  cases h with
  | same => exact ⟨inflight, diskBytes, low⟩
  | @gains cost small room =>
    have sum : saturatingAdd a.bytes cost = a.bytes + cost := Nat.min_eq_left (by omega)
    dsimp only
    omega
  | loses rows cost =>
    dsimp only
    omega

theorem Gauged.step {label : Label} (h : s.Gauged) (fits : s.Fits config)
    (inFlight : s.InFlightAcks label) (move : Move config serde s label s') : s'.Gauged := by
  cases goesOn : label.isRestart with
  | false =>
    obtain ⟨inflight, diskBytes, low⟩ := (move.accounts fits inFlight.settling goesOn).gauged
      h.inflight h.diskBytes h.low
    exact ⟨inflight, diskBytes, low⟩
  | true =>
    cases move <;> cases goesOn
    have gauged := Gauged.opened config s.table
    exact ⟨gauged.inflight, gauged.diskBytes, gauged.low⟩

/-- In every run in which acks are of records in flight, over pushes, expiries, failed
statements and restarts, the gauges show the rows of the table and the worker's counter. -/
theorem gauges_exact {table : Batches} {s₀ : State} {labels : List Label}
    (opened : openDb config table = .ok s₀)
    (run : (bufferMachine config serde).Run InFlightAcks s₀ labels s) :
    s.metrics.inflight = s.table.rows.length ∧ s.metrics.diskBytes = s.bytes := by
  obtain ⟨pos, rfl⟩ := openDb_ok opened
  obtain ⟨_, gauged⟩ := run.invariant (P := fun s => s.Reads config ∧ s.Gauged)
    ⟨.opened pos table, .opened config table⟩ fun t label u ⟨reads, gauged⟩ inFlight taken =>
      ⟨reads.step pos (inFlight.spared reads.fits) (step_move taken),
        gauged.step reads.fits inFlight (step_move taken)⟩
  exact ⟨gauged.inflight, gauged.diskBytes⟩

/-- The gauges after a restart. -/
theorem gauges_exact_sample :
    ∃ s, (bufferMachine sampleConfig sampleSerde).Run InFlightAcks (opened sampleConfig .empty)
        (windowLabels ++ [.restart]) s ∧
      (s.table.rows.map MemRecord.localSeq = [2, 3] ∧ s.bytes = 1400) ∧
      s.metrics.inflight = s.table.rows.length ∧ s.metrics.diskBytes = s.bytes :=
  Lib.Machine.Run.find (by decide +kernel) fun s run _ => gauges_exact rfl run

end State

end ForgeLink.Buffer
