import ForgeLink.Pipeline.Model

/-!
# Nothing is lost, reordered or renumbered in the pipeline

`Sound` is the invariant of the pipeline.  For each device, the observations of
its batches, then those that wait for a batch, then those in the channel are
what was ingested for it, in order (`order`); its batches carry the numbers from
0 on (`numbers`); a batch holds observations of its own device, at least one
and at most `max_batch_size`, and `ObservationBatch::new` made it (`batches`); and
the counters count.

An observation moves along one path, and each move has one lemma: it arrives
(`Sound.send`), it is collected (`Sound.aggregate`), its device's observations
are cut into batches (`Sound.release`, for a full batch and for a flush), and
its batch is sent (`Sound.emit`) or dropped (`Sound.dropOutbox`).
-/

namespace ForgeLink.Pipeline

open Lib

variable {rest : List ObservationBatch} {batch : ObservationBatch} {deviceIds : List String}
  {config : PipelineConfig} {s : State}

/-! ## What belongs to a device -/

/-- The observations of a device among some. -/
def ofDevice (d : String) (os : List Observation) : List Observation :=
  os.filter fun o => decide (o.deviceId = d)

/-- The batches of a device among some. -/
def batchesOf (d : String) (bs : List ObservationBatch) : List ObservationBatch :=
  bs.filter fun b => decide (b.deviceId = d)

/-- The observations in the batches of a device. -/
def observationsOf (d : String) (bs : List ObservationBatch) : List Observation :=
  (batchesOf d bs).flatMap ObservationBatch.observations

/-- The numbers of the batches of a device. -/
def sequencesOf (d : String) (bs : List ObservationBatch) : List Nat :=
  (batchesOf d bs).map ObservationBatch.sequence

section

variable (d : String)

@[simp] theorem ofDevice_append (os os' : List Observation) :
    ofDevice d (os ++ os') = ofDevice d os ++ ofDevice d os' := List.filter_append ..

@[simp] theorem batchesOf_append (bs bs' : List ObservationBatch) :
    batchesOf d (bs ++ bs') = batchesOf d bs ++ batchesOf d bs' := List.filter_append ..

@[simp] theorem observationsOf_append (bs bs' : List ObservationBatch) :
    observationsOf d (bs ++ bs') = observationsOf d bs ++ observationsOf d bs' := by
  simp [observationsOf]

@[simp] theorem sequencesOf_append (bs bs' : List ObservationBatch) :
    sequencesOf d (bs ++ bs') = sequencesOf d bs ++ sequencesOf d bs' := by
  simp [sequencesOf]

@[simp] theorem countOf_append (bs bs' : List ObservationBatch) :
    countOf (bs ++ bs') = countOf bs + countOf bs' := by
  simp [countOf]

@[simp] theorem countOf_singleton (b : ObservationBatch) :
    countOf [b] = b.observations.length := by simp [countOf]

theorem countOf_cons (b : ObservationBatch) (bs : List ObservationBatch) :
    countOf (b :: bs) = b.observations.length + countOf bs := by simp [countOf]

theorem countOf_eq_length (bs : List ObservationBatch) :
    countOf bs = (bs.flatMap ObservationBatch.observations).length := by
  simp [countOf, List.length_flatMap]

end

/-! ## Batches made of the observations of a device -/

/-- `ObservationBatch::new` made the batch, of what it carries. -/
def ObservationBatch.Made (config : PipelineConfig) (b : ObservationBatch) : Prop :=
  b = .new config.siteId config.collectorSessionId b.deviceId b.sequence b.observations

/-- `bs` are well made batches of the device `d` that carry `os` and are numbered
from `n` on. -/
structure Cut (config : PipelineConfig) (d : String) (n : Nat) (os : List Observation)
    (bs : List ObservationBatch) : Prop where
  made : ∀ b ∈ bs, b.Made config
  device : ∀ b ∈ bs, b.deviceId = d
  size : ∀ b ∈ bs, 1 ≤ b.observations.length ∧ b.observations.length ≤ config.maxBatchSize
  carried : bs.flatMap ObservationBatch.observations = os
  numbered : bs.map ObservationBatch.sequence = List.range' n bs.length

namespace Cut

variable {d e : String} {n : Nat} {os : List Observation} {bs : List ObservationBatch}

theorem batchesOf_self (cut : Cut config d n os bs) : batchesOf d bs = bs :=
  List.filter_eq_self.mpr fun b inside => decide_eq_true (cut.device b inside)

theorem batchesOf_ne (cut : Cut config d n os bs) (differ : e ≠ d) : batchesOf e bs = [] := by
  refine List.filter_eq_nil_iff.mpr fun b inside => ?_
  rw [cut.device b inside, decide_eq_true_iff]
  exact differ.symm

theorem observationsOf_eq (cut : Cut config d n os bs) :
    observationsOf e bs = if e = d then os else [] := by
  unfold observationsOf
  split
  next same => rw [same, cut.batchesOf_self, cut.carried]
  next differ => rw [cut.batchesOf_ne differ, List.flatMap_nil]

theorem sequencesOf_eq (cut : Cut config d n os bs) :
    sequencesOf e bs = if e = d then List.range' n bs.length else [] := by
  unfold sequencesOf
  split
  next same => rw [same, cut.batchesOf_self, cut.numbered]
  next differ => rw [cut.batchesOf_ne differ, List.map_nil]

theorem countOf_eq (cut : Cut config d n os bs) : countOf bs = os.length := by
  rw [countOf_eq_length, cut.carried]

/-- Nothing to cut. -/
theorem nil : Cut config d n [] [] := ⟨by simp, by simp, by simp, rfl, rfl⟩

/-- A batch that is full or partial. -/
theorem single (size : 1 ≤ os.length ∧ os.length ≤ config.maxBatchSize) :
    Cut config d n os [.new config.siteId config.collectorSessionId d n os] where
  made := List.forall_mem_singleton.mpr rfl
  device := by simp [ObservationBatch.new]
  size := by simpa [ObservationBatch.new] using size
  carried := by simp [ObservationBatch.new]
  numbered := by simp [ObservationBatch.new]

/-- One batch before others. -/
theorem cons {first rest : List Observation}
    (size : 1 ≤ first.length ∧ first.length ≤ config.maxBatchSize)
    (cut : Cut config d (n + 1) rest bs) :
    Cut config d n (first ++ rest)
      (.new config.siteId config.collectorSessionId d n first :: bs) where
  made := List.forall_mem_cons.mpr ⟨rfl, cut.made⟩
  device := by simpa [ObservationBatch.new] using cut.device
  size := List.forall_mem_cons.mpr ⟨size, cut.size⟩
  carried := by simp [ObservationBatch.new, cut.carried]
  numbered := by simp [ObservationBatch.new, cut.numbered, List.range'_succ]

/-- The loop of `flush_pending_to_outbox` cuts the observations of a device. -/
theorem split (pos : 0 < config.maxBatchSize) (turns n : Nat) (os : List Observation)
    (enough : os.length ≤ turns) :
    Cut config d n os (State.split config d turns n os).1 ∧
      (State.split config d turns n os).2 = n + (State.split config d turns n os).1.length := by
  -- Each turn takes at least one observation, so the rest fits the turns that are left.
  induction turns generalizing n os with
  | zero =>
    obtain rfl := List.length_eq_zero_iff.mp (Nat.le_zero.mp enough)
    exact ⟨nil, rfl⟩
  | succ turns ih =>
    cases os with
    | nil => exact ⟨nil, rfl⟩
    | cons o os =>
      have take_pos : 1 ≤ min (o :: os).length config.maxBatchSize := by
        simp only [List.length_cons]
        omega
      obtain ⟨cut, next⟩ := ih (n + 1)
        ((o :: os).drop (min (o :: os).length config.maxBatchSize))
        (by rw [List.length_drop]; omega)
      have first : 1 ≤ ((o :: os).take (min (o :: os).length config.maxBatchSize)).length ∧
          ((o :: os).take (min (o :: os).length config.maxBatchSize)).length ≤
            config.maxBatchSize := by
        rw [List.length_take]
        omega
      have whole := cut.cons (n := n) first
      rw [List.take_append_drop] at whole
      refine ⟨whole, ?_⟩
      show (State.split config d turns (n + 1) _).2 = _
      rw [next]
      simp only [State.split, List.length_cons]
      omega

end Cut

/-! ## The invariant -/

namespace State

/-- The observations of a device that wait for a batch. -/
def pendingOf (s : State) (d : String) : List Observation :=
  ((s.pending.get? d).map PendingBatch.observations).getD []

/-- The number of the next batch of a device. -/
def sequenceOf (s : State) (d : String) : Nat := (s.deviceSequence.get? d).getD 0

/-- All batches, in the order they were made. -/
def batches (s : State) : List ObservationBatch := s.emitted ++ s.dropped ++ s.outbox

/-- The number of observations in `pending` and `outbox`. -/
def cached (s : State) : Nat :=
  s.pending.total (fun p => p.observations.length) + countOf s.outbox

end State

/-- A batch of one device within the size. -/
def WellMade (config : PipelineConfig) (b : ObservationBatch) : Prop :=
  (∀ o ∈ b.observations, o.deviceId = b.deviceId) ∧
    1 ≤ b.observations.length ∧ b.observations.length ≤ config.maxBatchSize

/-- What a pending batch of the device `d` is. -/
structure Collected (sequences : AssocMap String Nat) (d : String) (p : PendingBatch) :
    Prop where
  device : ∀ o ∈ p.observations, o.deviceId = d
  nonempty : p.observations ≠ []
  number : sequences.get? d = some p.sequence

/-- What holds of the observations and the batches at every point of a run. -/
structure Sound (config : PipelineConfig) (s : State) : Prop where
  batches : ∀ b ∈ s.batches, WellMade config b ∧ b.Made config
  numbers : ∀ d, sequencesOf d s.batches = List.range (s.sequenceOf d)
  pending : ∀ d p, s.pending.get? d = some p → Collected s.deviceSequence d p
  order : ∀ d, observationsOf d s.batches ++ s.pendingOf d ++ ofDevice d s.queue =
    ofDevice d s.ingested
  counted : countOf s.emitted + countOf s.dropped + s.cached + s.queue.length = s.ingested.length
  emitted : s.stats.observationsEmitted = countOf s.emitted
  dropped : s.stats.observationsDropped = countOf s.dropped

namespace Sound

theorem start (config : PipelineConfig) : Sound config .start where
  batches := by simp [State.batches, State.start]
  numbers := by simp [State.batches, State.start, State.sequenceOf, sequencesOf, batchesOf]
  pending := by simp [State.start]
  order := by
    simp [State.batches, State.start, State.pendingOf, observationsOf, batchesOf, ofDevice]
  counted := by simp [State.start, State.cached, countOf]
  emitted := rfl
  dropped := rfl

/-! ### Arriving and collecting -/

theorem send (sound : Sound config s) (o : Observation) (permits : Nat) :
    Sound config { s with
      permits := permits, queue := s.queue ++ [o], ingested := s.ingested ++ [o] } where
  batches := sound.batches
  numbers := sound.numbers
  pending := sound.pending
  order d := by
    show observationsOf d s.batches ++ s.pendingOf d ++ ofDevice d (s.queue ++ [o]) =
      ofDevice d (s.ingested ++ [o])
    rw [ofDevice_append, ofDevice_append, ← sound.order d, List.append_assoc _ _ (ofDevice d [o])]
  counted := by
    have counted := sound.counted
    simp only [List.length_append, List.length_singleton]
    show countOf s.emitted + countOf s.dropped + s.cached + (s.queue.length + 1) = _
    omega
  emitted := sound.emitted
  dropped := sound.dropped

/-- The observations that wait are those of the entry, if there is one, and the
rest of the map is the map without it. -/
theorem total_pending (s : State) (d : String) :
    s.pending.total (fun p => p.observations.length) =
      (s.pendingOf d).length + (s.pending.erase d).total fun p => p.observations.length := by
  unfold State.pendingOf
  cases found : s.pending.get? d with
  | none => simp [AssocMap.total_of_get?_none found]
  | some p => simpa using AssocMap.total_of_get? found _

/-- Collecting does not look at the channel. -/
theorem aggregateObservation_queue (s : State) (queue : List Observation) (o : Observation) :
    { s with queue := queue }.aggregateObservation o =
      { s.aggregateObservation o with queue := queue } := by
  unfold State.aggregateObservation
  cases s.pending.get? o.deviceId with
  | some p => rfl
  | none => cases s.deviceSequence.get? o.deviceId <;> rfl

/-- Collecting changes the two maps only. -/
theorem aggregateObservation_frame (s : State) (o : Observation) :
    ∃ pending sequences, s.aggregateObservation o =
      { s with pending := pending, deviceSequence := sequences } := by
  unfold State.aggregateObservation
  cases s.pending.get? o.deviceId with
  | some p => exact ⟨_, s.deviceSequence, rfl⟩
  | none =>
    cases s.deviceSequence.get? o.deviceId with
    | some n => exact ⟨_, s.deviceSequence, rfl⟩
    | none => exact ⟨_, _, rfl⟩

theorem foldl_aggregate_frame (os : List Observation) (s : State) :
    ∃ pending sequences, os.foldl State.aggregateObservation s =
      { s with pending := pending, deviceSequence := sequences } := by
  induction os generalizing s with
  | nil => exact ⟨s.pending, s.deviceSequence, rfl⟩
  | cons o os ih =>
    obtain ⟨pending, sequences, eq⟩ := aggregateObservation_frame s o
    rw [List.foldl_cons, eq]
    exact ih _

/-- An observation joins those that wait for the next batch of its device. -/
theorem aggregateObservation_eq
    (numbered : ∀ d p, s.pending.get? d = some p → s.deviceSequence.get? d = some p.sequence)
    (o : Observation) :
    ∃ sequences : AssocMap String Nat,
      s.aggregateObservation o =
        { s with
          pending := s.pending.insert o.deviceId
            ⟨s.sequenceOf o.deviceId, s.pendingOf o.deviceId ++ [o]⟩
          deviceSequence := sequences } ∧
      ∀ d, sequences.get? d =
        if d = o.deviceId then some (s.sequenceOf d) else s.deviceSequence.get? d := by
  unfold State.aggregateObservation
  cases found : s.pending.get? o.deviceId with
  | some p =>
    have number := numbered _ _ found
    refine ⟨s.deviceSequence, by simp [State.pendingOf, State.sequenceOf, found, number], ?_⟩
    intro d
    split
    next same => simp [same, State.sequenceOf, number]
    next => rfl
  | none =>
    cases number : s.deviceSequence.get? o.deviceId with
    | some n =>
      refine ⟨s.deviceSequence, by simp [State.pendingOf, State.sequenceOf, found, number], ?_⟩
      intro d
      split
      next same => simp [same, State.sequenceOf, number]
      next => rfl
    | none =>
      refine ⟨s.deviceSequence.insert o.deviceId 0,
        by simp [State.pendingOf, State.sequenceOf, found, number], ?_⟩
      intro d
      rw [AssocMap.get?_insert]
      split
      next same => simp [same, State.sequenceOf, number]
      next => rfl

/-- The oldest observation of the channel is collected. -/
theorem aggregate {o : Observation} {rest : List Observation}
    (sound : Sound config { s with queue := o :: rest }) :
    Sound config ({ s with queue := rest }.aggregateObservation o) := by
  obtain ⟨sequences, eq, next⟩ := aggregateObservation_eq (s := s)
    (fun d p found => (sound.pending d p found).number) o
  rw [aggregateObservation_queue, eq]
  have sequenceOf_eq : ∀ d, (sequences.get? d).getD 0 = s.sequenceOf d := by
    intro d
    rw [next]
    split
    · rfl
    · rfl
  refine ⟨sound.batches, fun d => ?_, fun d p found => ?_, fun d => ?_, ?_, sound.emitted,
    sound.dropped⟩
  · exact (sound.numbers d).trans (congrArg List.range (sequenceOf_eq d).symm)
  · replace found : (s.pending.insert o.deviceId
      ⟨s.sequenceOf o.deviceId, s.pendingOf o.deviceId ++ [o]⟩).get? d = some p := found
    rw [AssocMap.get?_insert] at found
    split at found
    next same =>
      cases found
      subst same
      refine ⟨?_, by simp, by simp [next]⟩
      intro x inside
      rcases List.mem_append.mp inside with before | last
      · cases had : s.pending.get? o.deviceId with
        | none => simp [State.pendingOf, had] at before
        | some q =>
          rw [State.pendingOf, had] at before
          exact (sound.pending _ q had).device x before
      · rw [List.mem_singleton.mp last]
    next differ =>
      have old := sound.pending d p found
      exact ⟨old.device, old.nonempty, by
        rw [show sequences.get? d = _ from next d, if_neg differ]
        exact old.number⟩
  · have order := sound.order d
    show observationsOf d s.batches ++ _ ++ ofDevice d rest = ofDevice d s.ingested
    rw [← show _ = ofDevice d s.ingested from order]
    show observationsOf d s.batches ++ (((s.pending.insert o.deviceId _).get? d).map
      PendingBatch.observations).getD [] ++ ofDevice d rest =
        observationsOf d s.batches ++ s.pendingOf d ++ ofDevice d (o :: rest)
    rw [AssocMap.get?_insert]
    split
    next same => simp [same, ofDevice]
    next differ => simp [State.pendingOf, ofDevice, Ne.symm differ]
  · have counted := sound.counted
    have total := total_pending s o.deviceId
    simp only [State.cached, List.length_cons] at counted ⊢
    rw [AssocMap.total_insert]
    simp only [List.length_append, List.length_singleton]
    omega

/-- Collecting everything in the channel. -/
theorem foldl_aggregate {os : List Observation} (sound : Sound config { s with queue := os }) :
    Sound config (os.foldl State.aggregateObservation { s with queue := [] }) := by
  induction os generalizing s with
  | nil => exact sound
  | cons o os ih =>
    have one := sound.aggregate
    rw [aggregateObservation_queue] at one
    rw [List.foldl_cons, aggregateObservation_queue]
    exact ih one

/-! ### Making batches -/

/-- What waits for a batch is cut into batches. -/
theorem release (sound : Sound config s) {d : String} {p : PendingBatch}
    (found : s.pending.get? d = some p) {bs : List ObservationBatch}
    (cut : Cut config d p.sequence p.observations bs) {f : Nat → Nat}
    (next : f p.sequence = p.sequence + bs.length) :
    Sound config { s with
      pending := s.pending.erase d
      outbox := s.outbox ++ bs
      deviceSequence := s.deviceSequence.modify d f } := by
  have collected := sound.pending d p found
  have batches_eq : State.batches { s with
      pending := s.pending.erase d
      outbox := s.outbox ++ bs
      deviceSequence := s.deviceSequence.modify d f } = s.batches ++ bs := by
    simp [State.batches]
  refine ⟨fun b inside => ?_, fun e => ?_, fun e q had => ?_, fun e => ?_, ?_, sound.emitted,
    sound.dropped⟩
  · rw [batches_eq] at inside
    rcases List.mem_append.mp inside with before | made
    · exact sound.batches b before
    · refine ⟨⟨fun o here => ?_, cut.size b made⟩, cut.made b made⟩
      rw [cut.device b made]
      exact collected.device o (cut.carried ▸ List.mem_flatMap.mpr ⟨b, made, here⟩)
  · rw [batches_eq, sequencesOf_append, sound.numbers, cut.sequencesOf_eq, State.sequenceOf]
    show _ = List.range (((s.deviceSequence.modify d f).get? e).getD 0)
    rw [AssocMap.get?_modify]
    split
    next same =>
      subst same
      rw [collected.number, Option.map_some, Option.getD_some, Option.getD_some, next,
        List.range_eq_range', List.range_eq_range', ← List.range'_append_1, Nat.zero_add]
    next differ => rw [List.append_nil]
  · replace had : (s.pending.erase d).get? e = some q := had
    rw [AssocMap.get?_erase] at had
    split at had
    next => cases had
    next differ =>
      have other := sound.pending e q had
      refine ⟨other.device, other.nonempty, ?_⟩
      show (s.deviceSequence.modify d f).get? e = _
      rw [AssocMap.get?_modify, if_neg differ]
      exact other.number
  · rw [batches_eq, observationsOf_append, cut.observationsOf_eq]
    show _ ++ (((s.pending.erase d).get? e).map PendingBatch.observations).getD [] ++
      ofDevice e s.queue = ofDevice e s.ingested
    rw [← sound.order e, AssocMap.get?_erase, State.pendingOf]
    split
    next same => simp [same, found]
    next differ => simp
  · have counted := sound.counted
    have total := total_pending s d
    have waiting : s.pendingOf d = p.observations := by simp [State.pendingOf, found]
    have made := cut.countOf_eq
    rw [waiting] at total
    simp only [State.cached] at counted ⊢
    rw [countOf_append]
    omega

/-! ### Sending and dropping -/

/-- The first batch of the outbox is sent; nothing has been dropped yet. -/
theorem emit (sound : Sound config s) (outbox : s.outbox = batch :: rest) (none : s.dropped = []) :
      Sound config (s.emit batch rest) := by
  have batches_eq : (s.emit batch rest).batches = s.batches := by
    simp [State.batches, State.emit, outbox, none]
  refine ⟨?_, ?_, sound.pending, fun d => ?_, ?_, ?_, sound.dropped⟩
  · rw [batches_eq]
    exact sound.batches
  · rw [batches_eq]
    exact sound.numbers
  · rw [batches_eq]
    exact sound.order d
  · have counted := sound.counted
    simp only [State.cached, outbox, countOf_cons] at counted
    simp only [State.emit, State.cached, countOf_append, countOf_singleton]
    omega
  · have emitted := sound.emitted
    simp only [State.emit, countOf_append, countOf_singleton]
    omega

theorem dropOutbox (sound : Sound config s) : Sound config s.dropOutbox := by
  have batches_eq : s.dropOutbox.batches = s.batches := by simp [State.batches, State.dropOutbox]
  refine ⟨?_, ?_, sound.pending, fun d => ?_, ?_, sound.emitted, ?_⟩
  · rw [batches_eq]
    exact sound.batches
  · rw [batches_eq]
    exact sound.numbers
  · rw [batches_eq]
    exact sound.order d
  · have counted := sound.counted
    simp only [State.cached] at counted
    simp only [State.dropOutbox, State.cached, countOf_append]
    have none : countOf [] = 0 := rfl
    omega
  · have dropped := sound.dropped
    simp only [State.dropOutbox, countOf_append]
    omega

/-- A change of what the invariant does not speak of. -/
theorem frame (sound : Sound config s) (permits buffered : Nat)
    (closed alive signalled outputOpen : Bool) (phase : Phase) :
    Sound config { s with
      permits := permits, buffered := buffered, closed := closed, alive := alive
      signalled := signalled, outputOpen := outputOpen, phase := phase } :=
  ⟨sound.batches, sound.numbers, sound.pending, sound.order, sound.counted, sound.emitted,
    sound.dropped⟩

/-! ### Flushing -/

/-- A flush moves one device to the outbox. -/
theorem flushDevice (pos : 0 < config.maxBatchSize) (sound : Sound config s) {d : String}
    {p : PendingBatch} (found : s.pending.get? d = some p) :
    Sound config (s.flushDevice config d) ∧
      ∃ outbox sequences, s.flushDevice config d =
        { s with pending := s.pending.erase d, outbox := outbox, deviceSequence := sequences } := by
  have eq : s.flushDevice config d =
      { s with
        pending := s.pending.erase d
        outbox := s.outbox ++
          (State.split config d p.observations.length p.sequence p.observations).1
        deviceSequence := s.deviceSequence.modify d fun _ =>
          (State.split config d p.observations.length p.sequence p.observations).2 } := by
    rw [State.flushDevice, found]
  obtain ⟨cut, next⟩ := Cut.split (d := d) pos p.observations.length p.sequence p.observations
    (Nat.le_refl _)
  exact ⟨eq ▸ sound.release found cut next, _, _, eq⟩

/-- `flush_pending_to_outbox` leaves nothing that waits for a batch. -/
theorem flushPendingToOutbox (pos : 0 < config.maxBatchSize) (sound : Sound config s)
    (visits : s.Visits deviceIds) :
    Sound config (s.flushPendingToOutbox config deviceIds) ∧
      ∃ pending outbox sequences, s.flushPendingToOutbox config deviceIds =
        { s with pending := pending, outbox := outbox, deviceSequence := sequences } ∧
        pending.toList = [] := by
  -- The devices still to visit are always the keys of what still waits.
  induction deviceIds generalizing s with
  | nil => exact ⟨sound, s.pending, s.outbox, s.deviceSequence, rfl,
      List.map_eq_nil_iff.mp (List.nil_perm.mp visits)⟩
  | cons d rest ih =>
    obtain ⟨⟨e, p⟩, inside, (rfl : e = d)⟩ :=
      List.mem_map.mp (visits.subset List.mem_cons_self)
    have found := AssocMap.mem_toList_iff.mp inside
    obtain ⟨one, outbox, sequences, eq⟩ := sound.flushDevice pos found
    have later : (s.flushDevice config e).Visits rest := by
      rw [eq]
      exact (visits.trans ((AssocMap.perm_of_get? found).map Prod.fst)).cons_inv
    obtain ⟨all, pending, outbox', sequences', eq', empty⟩ := ih one later
    refine ⟨all, pending, outbox', sequences', ?_, empty⟩
    rw [State.flushPendingToOutbox, List.foldl_cons]
    exact eq'.trans (by rw [eq])

end Sound

/-! ## Every step keeps the invariant -/

/-- What a phase adds. -/
def State.InPhase (config : PipelineConfig) (s : State) : Phase → Prop
  | .running =>
    s.buffered = s.cached ∧ s.buffered ≤ config.bufferLimit ∧ s.dropped = [] ∧
      ∀ d p, s.pending.get? d = some p → p.observations.length < config.maxBatchSize
  | .terminating => s.closed = true ∧ s.dropped = []
  | .draining =>
    s.queue = [] ∧ s.pending.toList = [] ∧ s.permits = 0 ∧ s.signalled = true ∧ s.dropped = []
  | .ended .cancelled => True
  | .ended _ =>
    s.queue = [] ∧ s.pending.toList = [] ∧ s.outbox = [] ∧ s.permits = 0 ∧ s.closed = true
  | .panicked => False

theorem State.InPhase.of {phase : Phase} (eq : s.phase = phase) (holds : s.InPhase config phase) :
    s.InPhase config s.phase :=
  eq ▸ holds

/-- The invariant of the pipeline. -/
structure Inv (config : PipelineConfig) (s : State) : Prop extends Sound config s where
  /-- After `shutdown` or a drop of the pipeline no `ingest` is in progress. -/
  quiet : s.signalled = true ∨ s.alive = false → s.permits = 0
  inPhase : s.InPhase config s.phase

namespace Inv

variable {t : State}

theorem start (config : PipelineConfig) : Inv config .start :=
  { Sound.start config with
    quiet := by simp [State.start]
    inPhase := by simp [State.InPhase, State.start, State.cached, countOf] }

theorem running (inv : Inv config s) (phase : s.phase = .running) :
    s.InPhase config .running := phase ▸ inv.inPhase

theorem draining (inv : Inv config s) (phase : s.phase = .draining) :
    s.InPhase config .draining := phase ▸ inv.inPhase

/-- What is cached follows from the other counts. -/
theorem cached_eq (sound : Sound config s) (sound' : Sound config t)
    (emitted : t.emitted = s.emitted) (dropped : t.dropped = s.dropped) (queue : t.queue = s.queue)
    (ingested : t.ingested = s.ingested) : t.cached = s.cached := by
  have before := sound.counted
  have after := sound'.counted
  rw [emitted, dropped, queue, ingested] at after
  omega

theorem tick (pos : 0 < config.maxBatchSize) (inv : Inv config s) (running : s.phase = .running)
    (visits : s.Visits deviceIds) : Inv config (s.flushPendingToOutbox config deviceIds) := by
  obtain ⟨sound, pending, outbox, sequences, eq, empty⟩ :=
    inv.toSound.flushPendingToOutbox pos visits
  obtain ⟨buffered, limit, undropped, _⟩ := inv.running running
  rw [eq] at sound ⊢
  have cached := cached_eq inv.toSound sound rfl rfl rfl rfl
  refine { sound with quiet := inv.quiet, inPhase := ?_ }
  refine .of running ?_
  refine ⟨buffered.trans cached.symm, limit, undropped, fun d p found => ?_⟩
  rw [AssocMap.get?_of_toList_nil empty] at found
  cases found

/-- The arm of `recv` that takes an observation. -/
theorem recv (pos : 0 < config.maxBatchSize) (inv : Inv config s) {o : Observation}
    {rest : List Observation} (running : s.phase = .running) (queue : s.queue = o :: rest)
    (room : s.buffered < config.bufferLimit) :
    Inv config ({ s with queue := rest, buffered := s.buffered + 1 }.aggregateObservation o
      |>.pushFull config o.deviceId) := by
  obtain ⟨buffered, limit, undropped, partials⟩ := inv.running running
  have before : Sound config { { s with buffered := s.buffered + 1 } with queue := o :: rest } := by
    rw [← queue]
    exact inv.toSound.frame ..
  have sound := before.aggregate
  obtain ⟨sequences, eq, _⟩ := Sound.aggregateObservation_eq
    (s := { s with queue := rest, buffered := s.buffered + 1 })
    (fun d p found => (inv.pending d p found).number) o
  replace eq : { s with queue := rest, buffered := s.buffered + 1 }.aggregateObservation o =
      { s with
        queue := rest
        buffered := s.buffered + 1
        pending := s.pending.insert o.deviceId
          ⟨s.sequenceOf o.deviceId, s.pendingOf o.deviceId ++ [o]⟩
        deviceSequence := sequences } := eq
  rw [eq] at sound ⊢
  have found : ∀ e, (s.pending.insert o.deviceId
      ⟨s.sequenceOf o.deviceId, s.pendingOf o.deviceId ++ [o]⟩).get? e =
        if e = o.deviceId then some ⟨s.sequenceOf o.deviceId, s.pendingOf o.deviceId ++ [o]⟩
        else s.pending.get? e := fun e => AssocMap.get?_insert ..
  have short : (s.pendingOf o.deviceId).length < config.maxBatchSize := by
    unfold State.pendingOf
    cases had : s.pending.get? o.deviceId with
    | none => exact pos
    | some p => exact partials _ p had
  -- One more is cached, and one less is in the channel.
  have cached : s.buffered + 1 + (countOf s.emitted + countOf s.dropped + rest.length) =
      s.ingested.length := by
    have counted := inv.counted
    rw [queue, List.length_cons] at counted
    omega
  unfold State.pushFull
  dsimp only
  rw [found, if_pos rfl]
  dsimp only
  split
  next full =>
    have size : 1 ≤ (s.pendingOf o.deviceId ++ [o]).length ∧
        (s.pendingOf o.deviceId ++ [o]).length ≤ config.maxBatchSize := by
      rw [List.length_append, List.length_singleton]
      omega
    have released := sound.release (f := (· + 1)) ((found o.deviceId).trans (if_pos rfl))
      (Cut.single size) rfl
    refine { released with quiet := inv.quiet, inPhase := ?_ }
    have counted := released.counted
    dsimp only at counted
    refine .of running ?_
    refine ⟨by dsimp only; omega, by dsimp only; omega, undropped, fun d p had => ?_⟩
    rw [AssocMap.get?_erase] at had
    split at had
    next => cases had
    next differ =>
      rw [found, if_neg differ] at had
      exact partials d p had
  next partly =>
    refine { sound with quiet := inv.quiet, inPhase := ?_ }
    have counted := sound.counted
    dsimp only at counted
    refine .of running ?_
    refine ⟨by dsimp only; omega, by dsimp only; omega, undropped, fun d p had => ?_⟩
    rw [found] at had
    split at had
    next =>
      cases had
      exact Nat.lt_of_not_le partly
    next => exact partials d p had

/-- A permit while the loop runs. -/
theorem permit (inv : Inv config s) (running : s.phase = .running)
    (outbox : s.outbox = batch :: rest) :
    batch.observations.length ≤ s.buffered ∧
      Inv config ({ s with buffered := s.buffered - batch.observations.length }.emit
        batch rest) := by
  obtain ⟨buffered, limit, undropped, partials⟩ := inv.running running
  have inside : batch.observations.length ≤ s.buffered := by
    rw [buffered, State.cached, outbox, countOf_cons]
    omega
  have sound := (inv.toSound.frame s.permits (s.buffered - batch.observations.length) s.closed
    s.alive s.signalled s.outputOpen s.phase).emit outbox undropped
  refine ⟨inside, { sound with quiet := inv.quiet, inPhase := ?_ }⟩
  have cached : s.cached = batch.observations.length +
      State.cached ({ s with buffered := s.buffered - batch.observations.length }.emit
        batch rest) := by
    simp only [State.cached, outbox, countOf_cons, State.emit]
    omega
  refine .of running ⟨?_, ?_, undropped, partials⟩
  · show s.buffered - batch.observations.length = _
    omega
  · show s.buffered - batch.observations.length ≤ _
    omega

/-- `run` returns after it has settled everything. -/
theorem finish (sound : Sound config s) (quiet : s.signalled = true ∨ s.alive = false →
    s.permits = 0) {how : Ending} (settled : how ≠ .cancelled → s.queue = [] ∧
      s.pending.toList = [] ∧ s.outbox = [] ∧ s.permits = 0) : Inv config (s.finish how) := by
  refine { sound.frame s.permits s.buffered true s.alive s.signalled s.outputOpen (.ended how) with
    quiet := quiet, inPhase := ?_ }
  cases how with
  | cancelled => trivial
  | shutdown | outputClosed =>
    obtain ⟨queue, pending, outbox, permits⟩ := settled (by decide)
    exact ⟨queue, pending, outbox, permits, rfl⟩

/-- The arm of `shutdown_rx.changed` after the signal. -/
theorem drain (pos : 0 < config.maxBatchSize) (inv : Inv config s) (running : s.phase = .running)
    (signalled : s.signalled = true)
    (visits : (s.queue.foldl State.aggregateObservation { s with queue := [] }).Visits deviceIds) :
    ∃ flushed, (s.queue.foldl State.aggregateObservation
        { s with queue := [] }).flushPendingToOutbox config deviceIds = flushed ∧
      flushed.phase ≠ .panicked ∧ Inv config { flushed with phase := .draining } := by
  obtain ⟨_, _, undropped, _⟩ := inv.running running
  have filled : Sound config (s.queue.foldl State.aggregateObservation { s with queue := [] }) :=
    inv.toSound.foldl_aggregate
  obtain ⟨pending, sequences, eq⟩ := Sound.foldl_aggregate_frame s.queue { s with queue := [] }
  rw [eq] at visits filled ⊢
  obtain ⟨sound, pending', outbox, sequences', eq', empty⟩ := filled.flushPendingToOutbox pos visits
  rw [eq'] at sound ⊢
  refine ⟨_, rfl, by dsimp only; rw [running]; decide, ?_⟩
  exact { sound.frame s.permits s.buffered s.closed s.alive s.signalled s.outputOpen .draining with
    quiet := inv.quiet
    inPhase := ⟨rfl, empty, inv.quiet (.inl signalled), signalled, undropped⟩ }

/-- The end of `terminate_on_output_closed`. -/
theorem terminate (pos : 0 < config.maxBatchSize) (inv : Inv config s)
    (terminating : s.phase = .terminating) (queue : s.queue = []) (permits : s.permits = 0)
    (visits : s.Visits deviceIds) :
    (s.flushPendingToOutbox config deviceIds).phase ≠ .panicked ∧
      Inv config ((s.flushPendingToOutbox config deviceIds).dropOutbox.finish .outputClosed) := by
  obtain ⟨sound, pending, outbox, sequences, eq, empty⟩ :=
    inv.toSound.flushPendingToOutbox pos visits
  rw [eq] at sound ⊢
  refine ⟨by dsimp only; rw [terminating]; decide, ?_⟩
  exact finish sound.dropOutbox inv.quiet fun _ => ⟨queue, empty, rfl, permits⟩

/-- The steps of callers and of the consumer that put nothing in.  A permit is
given only while the pipeline takes input. -/
theorem environment (inv : Inv config s) {permits : Nat} {alive signalled outputOpen : Bool}
    (given : permits ≤ s.permits ∨ s.signalled = false ∧ s.closed = false)
    (stays : s.signalled = true → signalled = true)
    (quiet : signalled = true ∨ alive = false → permits = 0) :
    Inv config { s with
      permits := permits, alive := alive, signalled := signalled, outputOpen := outputOpen } := by
  refine { inv.toSound.frame permits s.buffered s.closed alive signalled outputOpen s.phase with
    quiet := quiet, inPhase := ?_ }
  have before := inv.inPhase
  dsimp only
  cases phase : s.phase with
  | running | terminating | panicked =>
    rw [phase] at before
    exact before
  | draining =>
    obtain ⟨queue, pending, none, signal, undropped⟩ := inv.draining phase
    have no_permit : permits = 0 := by
      rcases given with fewer | ⟨unsignalled, _⟩
      · omega
      · rw [signal] at unsignalled
        cases unsignalled
    exact ⟨queue, pending, no_permit, stays signal, undropped⟩
  | ended how =>
    rw [phase] at before
    have settled : ∀ {p : Prop}, p ∧ s.permits = 0 ∧ s.closed = true →
        p ∧ permits = 0 ∧ s.closed = true := by
      rintro p ⟨rest, none, closed⟩
      refine ⟨rest, ?_, closed⟩
      rcases given with fewer | ⟨_, opened⟩
      · omega
      · rw [closed] at opened
        cases opened
    cases how with
    | cancelled => trivial
    | shutdown | outputClosed =>
      obtain ⟨queue, pending, outbox, rest⟩ := before
      exact ⟨queue, pending, settled ⟨outbox, rest⟩⟩

/-- An observation arrives; the phases that are past the input have no permit. -/
theorem send (inv : Inv config s) (o : Observation) (held : 0 < s.permits) :
    Inv config { s with
      permits := s.permits - 1, queue := s.queue ++ [o], ingested := s.ingested ++ [o] } := by
  refine { inv.toSound.send o (s.permits - 1) with
    quiet := fun h => by have none := inv.quiet h; dsimp only; omega
    inPhase := ?_ }
  have before := inv.inPhase
  dsimp only
  cases phase : s.phase with
  | running | terminating | panicked =>
    rw [phase] at before
    exact before
  | draining => exact absurd (inv.draining phase).2.2.1 (Nat.ne_of_gt held)
  | ended how =>
    rw [phase] at before
    cases how with
    | cancelled => trivial
    | shutdown | outputClosed => exact absurd before.2.2.2.1 (Nat.ne_of_gt held)

/-- A permit in `drain_outbox`. -/
theorem drainPermit (inv : Inv config s) (draining : s.phase = .draining)
    (outbox : s.outbox = batch :: rest) : Inv config (s.emit batch rest) := by
  obtain ⟨queue, pending, permits, signalled, undropped⟩ := inv.draining draining
  refine { inv.toSound.emit outbox undropped with quiet := inv.quiet, inPhase := ?_ }
  exact .of draining ⟨queue, pending, permits, signalled, undropped⟩

/-- `drain_outbox` gives up, or has nothing left. -/
theorem drained (inv : Inv config s) (draining : s.phase = .draining) :
    Inv config (s.dropOutbox.finish .shutdown) := by
  obtain ⟨queue, pending, permits, _⟩ := inv.draining draining
  exact finish inv.toSound.dropOutbox inv.quiet fun _ => ⟨queue, pending, rfl, permits⟩

/-- No step loses or doubles an observation. -/
theorem step (pos : 0 < config.maxBatchSize) (inv : Inv config s) {label : Label}
    (taken : s.step config label = some t) : Inv config t := by
  cases label with
  | acquire =>
    obtain ⟨⟨alive, unsignalled, opened, _⟩, ⟨⟩⟩ := Option.ite_none_right_eq_some.mp taken
    simp only [Bool.not_eq_true] at unsignalled opened
    refine inv.environment (.inr ⟨unsignalled, opened⟩) id ?_
    simp [unsignalled, alive]
  | release =>
    obtain ⟨held, ⟨⟩⟩ := Option.ite_none_right_eq_some.mp taken
    refine inv.environment (.inl (Nat.sub_le _ _)) id fun h => ?_
    have none := inv.quiet h
    omega
  | send o =>
    obtain ⟨held, ⟨⟩⟩ := Option.ite_none_right_eq_some.mp taken
    exact inv.send o held
  | shutdown =>
    obtain ⟨⟨_, _, none⟩, ⟨⟩⟩ := Option.ite_none_right_eq_some.mp taken
    exact inv.environment (.inl (Nat.le_refl _)) (fun _ => rfl) fun _ => none
  | dropHandle =>
    obtain ⟨⟨_, none⟩, ⟨⟩⟩ := Option.ite_none_right_eq_some.mp taken
    exact inv.environment (.inl (Nat.le_refl _)) id fun _ => none
  | closeOutput =>
    cases taken
    exact inv.environment (.inl (Nat.le_refl _)) id inv.quiet
  | tick deviceIds =>
    obtain ⟨⟨running, visits⟩, ⟨⟩⟩ := Option.ite_none_right_eq_some.mp taken
    exact inv.tick pos running visits
  | recv =>
    replace taken : s.recv config = some t := taken
    unfold State.recv at taken
    split at taken
    next o rest running queue =>
      obtain ⟨room, ⟨⟩⟩ := Option.ite_none_right_eq_some.mp taken
      exact inv.recv pos running queue room
    next running queue =>
      obtain ⟨_, ⟨⟩⟩ := Option.ite_none_right_eq_some.mp taken
      exact finish inv.toSound inv.quiet fun differ => absurd rfl differ
    next o rest terminating queue =>
      cases taken
      have before := inv.inPhase
      rw [terminating] at before
      have sound : Sound config ({ s with queue := rest }.aggregateObservation o) :=
        Sound.aggregate (queue ▸ inv.toSound)
      obtain ⟨pending, sequences, eq⟩ :=
        Sound.aggregateObservation_frame { s with queue := rest } o
      rw [eq] at sound ⊢
      refine { sound with quiet := inv.quiet, inPhase := ?_ }
      exact .of terminating before
    next => cases taken
  | permit =>
    replace taken : s.permit = some t := taken
    unfold State.permit at taken
    split at taken
    next batch rest running outbox =>
      obtain ⟨inside, kept⟩ := inv.permit running outbox
      obtain ⟨_, taken⟩ := Option.ite_none_right_eq_some.mp taken
      dsimp only at taken
      rw [if_pos inside] at taken
      cases taken
      exact kept
    next batch rest draining outbox =>
      obtain ⟨_, ⟨⟩⟩ := Option.ite_none_right_eq_some.mp taken
      exact inv.drainPermit draining outbox
    next => cases taken
  | outputClosed =>
    obtain ⟨⟨running, _⟩, ⟨⟩⟩ := Option.ite_none_right_eq_some.mp taken
    obtain ⟨_, _, undropped, _⟩ := inv.running running
    exact { inv.toSound.frame s.permits s.buffered true s.alive s.signalled s.outputOpen
      .terminating with quiet := inv.quiet, inPhase := ⟨rfl, undropped⟩ }
  | terminate deviceIds =>
    obtain ⟨⟨terminating, queue, permits, visits⟩, taken⟩ :=
      Option.ite_none_right_eq_some.mp taken
    obtain ⟨calm, ended⟩ := inv.terminate pos terminating queue permits visits
    rw [if_neg calm] at taken
    cases taken
    exact ended
  | changed deviceIds =>
    replace taken : s.changed config deviceIds = some t := taken
    obtain ⟨running, taken⟩ := Option.ite_none_right_eq_some.mp taken
    split at taken
    next signalled =>
      dsimp only at taken
      obtain ⟨visits, taken⟩ := Option.ite_none_right_eq_some.mp taken
      obtain ⟨flushed, eq, calm, drains⟩ := inv.drain pos running signalled visits
      rw [eq, if_neg calm] at taken
      cases taken
      exact drains
    next =>
      obtain ⟨_, ⟨⟩⟩ := Option.ite_none_right_eq_some.mp taken
      exact finish inv.toSound inv.quiet fun differ => absurd rfl differ
  | deadline =>
    obtain ⟨⟨draining, _⟩, ⟨⟩⟩ := Option.ite_none_right_eq_some.mp taken
    exact inv.drained draining
  | drainClosed =>
    obtain ⟨⟨draining, _, _⟩, ⟨⟩⟩ := Option.ite_none_right_eq_some.mp taken
    exact inv.drained draining
  | drained =>
    obtain ⟨⟨draining, empty⟩, ⟨⟩⟩ := Option.ite_none_right_eq_some.mp taken
    obtain ⟨queue, pending, permits, _⟩ := inv.draining draining
    exact finish inv.toSound inv.quiet fun _ => ⟨queue, pending, empty, permits⟩

end Inv

/-! ## Whole runs -/

theorem PipelineConfig.maxBatchSize_pos (valid : config.validate = .ok ()) :
    0 < config.maxBatchSize := by
  refine Nat.pos_of_ne_zero fun zero => ?_
  rw [PipelineConfig.validate, zero] at valid
  split at valid
  · cases valid
  · split at valid <;> cases valid

theorem spawnInner_eq_ok : spawnInner config = .ok s ↔ config.validate = .ok () ∧ s = .start := by
  unfold spawnInner
  cases config.validate with
  | error reason => simp
  | ok u => simp [eq_comm]

/-- The invariant holds in every state of a run. -/
theorem Inv.of_run {t : State} {labels : List Label} (started : spawnInner config = .ok s)
    (run : (machine config).Run Machine.Always s labels t) : Inv config t := by
  obtain ⟨valid, rfl⟩ := spawnInner_eq_ok.mp started
  exact run.invariant (Inv.start config) fun _ _ _ inv _ taken =>
    inv.step (PipelineConfig.maxBatchSize_pos valid) taken

/-- At the end by `shutdown` or by a closed output nothing is left inside. -/
theorem Inv.settled (inv : Inv config s)
    (ended : s.phase = .ended .shutdown ∨ s.phase = .ended .outputClosed) :
    s.queue = [] ∧ s.pending.toList = [] ∧ s.outbox = [] := by
  have settled := inv.inPhase
  rcases ended with ended | ended
  · rw [ended] at settled
    exact ⟨settled.1, settled.2.1, settled.2.2.1⟩
  · rw [ended] at settled
    exact ⟨settled.1, settled.2.1, settled.2.2.1⟩

/-- What a pipeline started with a valid configuration keeps at every point of every
run: per device, what was sent, what was dropped and what is still inside are
what was ingested, in order; the batches of a device are numbered from 0; a
batch is of one device and within the size; `buffered` counts what is cached, up
to the limit, and never goes below zero; and what went in is sent or dropped
when the pipeline ends by itself. -/
theorem run_conserves {t : State} {labels : List Label} (started : spawnInner config = .ok s)
    (run : (machine config).Run Machine.Always s labels t) :
    (∀ d, observationsOf d t.emitted ++ observationsOf d t.dropped ++ observationsOf d t.outbox ++
      t.pendingOf d ++ ofDevice d t.queue = ofDevice d t.ingested) ∧
    (∀ d, sequencesOf d t.emitted ++ sequencesOf d t.dropped ++ sequencesOf d t.outbox =
      List.range (t.sequenceOf d)) ∧
    (∀ b ∈ t.emitted ++ t.dropped ++ t.outbox, WellMade config b) ∧
    (t.phase = .running → t.buffered = t.cached ∧ t.buffered ≤ 16 * config.maxBatchSize) ∧
    t.phase ≠ .panicked ∧
    (t.phase = .ended .shutdown ∨ t.phase = .ended .outputClosed →
      t.stats.observationsEmitted + t.stats.observationsDropped = t.ingested.length ∧
      ∀ d, observationsOf d t.emitted ++ observationsOf d t.dropped = ofDevice d t.ingested) := by
  have inv := Inv.of_run started run
  have order : ∀ d, observationsOf d t.emitted ++ observationsOf d t.dropped ++
      observationsOf d t.outbox ++ t.pendingOf d ++ ofDevice d t.queue = ofDevice d t.ingested := by
    intro d
    rw [← inv.order d, State.batches, observationsOf_append, observationsOf_append]
  refine ⟨order, fun d => ?_, fun b inside => (inv.batches b inside).1, fun running => ?_,
    fun panicked => ?_, fun ended => ?_⟩
  · rw [← inv.numbers d, State.batches, sequencesOf_append, sequencesOf_append]
  · obtain ⟨buffered, limit, _⟩ := inv.running running
    rw [PipelineConfig.bufferLimit, bufferBatchMultiplier, Nat.mul_comm] at limit
    exact ⟨buffered, limit⟩
  · have impossible := inv.inPhase
    rw [panicked] at impossible
    exact impossible
  · obtain ⟨queue, pending, outbox⟩ := inv.settled ended
    have waiting : ∀ d, t.pendingOf d = [] := by
      intro d
      rw [State.pendingOf, AssocMap.get?_of_toList_nil pending]
      rfl
    refine ⟨?_, fun d => ?_⟩
    · have counted := inv.counted
      rw [State.cached, AssocMap.total, pending, outbox, queue] at counted
      rw [inv.emitted, inv.dropped, ← counted]
      rfl
    · rw [← order d, waiting, queue, outbox]
      simp [observationsOf, batchesOf, ofDevice]

/-- A configuration with batches of two. -/
def sampleConfig : PipelineConfig := ⟨"session", "plant", 2, 1, 4, 1⟩

/-- The first device fills a batch; the rest is flushed at shutdown, and the deadline
comes before the batch of the second device is sent. -/
def sampleLabels : List Label :=
  [.acquire, .send ⟨"a", 1⟩, .acquire, .send ⟨"b", 2⟩, .acquire, .send ⟨"a", 3⟩,
    .recv, .recv, .recv,
    .permit, .acquire, .send ⟨"a", 4⟩, .shutdown, .changed ["a", "b"], .permit, .deadline]

/-- Two batches are emitted, one is dropped. -/
theorem run_conserves_sample :
    ∃ t, (machine sampleConfig).Run Machine.Always .start sampleLabels t ∧
      (t.phase = .ended .shutdown ∧ t.emitted.map (·.sequence) = [0, 1] ∧
        t.dropped.map (·.deviceId) = ["b"]) ∧
      t.stats.observationsEmitted + t.stats.observationsDropped = t.ingested.length := by
  have started : spawnInner sampleConfig = .ok .start := spawnInner_eq_ok.mpr ⟨rfl, rfl⟩
  exact Machine.Run.find (by decide) fun t run seen =>
    ((run_conserves started run).2.2.2.2.2 (.inl seen.1)).1

end ForgeLink.Pipeline
