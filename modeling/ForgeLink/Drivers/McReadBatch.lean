import ForgeLink.Drivers.McDevice

/-!
# What an MC batch read returns

The chunks of a batch hold every item once and keep to the limits, and a plan
reaches to the furthest end of its items.  So words are read in a batch as they
are read alone, for every memory (`readBatch_words_alone`).

Of a plan of bits, an item is given the byte that holds its point, but is
decoded from the lowest bit of that byte, whichever point it asked for.  A batch
read of bits is right, for every memory, just if every item stands a multiple of
eight points after the first item of its chunk (`readBatch_points_iff`).
-/

namespace ForgeLink.Drivers.MitsubishiMc

open Lib

variable {entries chunk : List ReadEntry} {kind : DeviceKind} {e : ReadEntry} {s : Session Unit}
  {items : List DriverReadItem} {config : ReadConfig}

/-! ## Widths -/

theorem wordWidth_cases (t : Option DataType) :
    wordWidth t = 1 ∨ wordWidth t = 2 ∨ wordWidth t = 4 := by
  cases t with
  | none => exact .inl rfl
  | some t => cases t <;> simp [wordWidth, wordLayout]

theorem ReadEntry.points_cases (e : ReadEntry) : e.points = 1 ∨ e.points = 2 ∨ e.points = 4 := by
  unfold ReadEntry.points
  split
  · exact .inl rfl
  · exact wordWidth_cases _

theorem ReadEntry.start_lt (e : ReadEntry) : e.start < 2 ^ 24 := by
  have le := e.address.number_le
  unfold ReadEntry.start
  omega

/-! ## Chunks -/

/-- What every chunk of a batch is. -/
structure IsChunk (limit : Nat) (gap : UInt32) (entries : List ReadEntry) (kind : DeviceKind)
    (chunk : List ReadEntry) : Prop where
  nonempty : chunk ≠ []
  sorted : chunk.Pairwise fun a b => a.start ≤ b.start
  entry : ∀ e ∈ chunk, e ∈ entries ∧ e.address.kind = kind
  joined : Chained (joins limit gap) chunk

section

variable {maxWord maxBit : UInt16} {gap : UInt32}

theorem isChunk (inside : (kind, chunk) ∈ chunksOf maxWord maxBit gap entries) :
    IsChunk (unitLimit maxWord maxBit kind) gap entries kind chunk := by
  obtain ⟨group, _, cut⟩ := mem_batches.mp inside
  exact
    { nonempty := ne_nil_of_mem_runs cut
      sorted := pairwise_of_mem_runs (sortByKey_sorted ReadEntry.start group) cut
      entry := fun e here => key_of_mem_batches (fun _ _ => flatten_runs _ _) inside here
      joined := chained_of_mem_runs cut }

variable (maxWord maxBit gap)

theorem chunksOf_perm (entries : List ReadEntry) :
    ((chunksOf maxWord maxBit gap entries).flatMap Prod.snd).Perm entries :=
  batches_perm (fun _ _ => flatten_runs _ _) entries

theorem chunksOf_singleton (e : ReadEntry) :
    chunksOf maxWord maxBit gap [e] = [(e.address.kind, [e])] := by
  simp [chunksOf, batches, groups, sortByKey, runs, runsFrom]

end

theorem stop_le_chunkEnd (here : e ∈ chunk) : e.stop ≤ chunkEnd chunk :=
  (le_foldl_max (chunk.map ReadEntry.stop) 0).2 _ (List.mem_map_of_mem here)

theorem chunkEnd_le {n : Nat} (all : ∀ e ∈ chunk, e.stop ≤ n) : chunkEnd chunk ≤ n := by
  rcases foldl_max_mem (chunk.map ReadEntry.stop) 0 with none | inside
  · rw [chunkEnd, none]
    exact Nat.zero_le n
  · obtain ⟨e, here, eq⟩ := List.mem_map.mp inside
    rw [chunkEnd, ← eq]
    exact all e here

/-- The planned item of an entry, in a chunk that starts at `start`. -/
def ReadEntry.planned (start : Nat) (e : ReadEntry) : PlannedItem :=
  ⟨e.itemId, e.expected, e.start - start⟩

theorem flushRead_cons (kind : DeviceKind) (first : ReadEntry) (rest : List ReadEntry) :
    flushRead kind (first :: rest) =
      { kind, startNumber := first.start
        points := UInt16.ofNat (chunkEnd (first :: rest) - first.start)
        items := (first :: rest).map (ReadEntry.planned first.start) } := rfl

namespace IsChunk

variable {limit : Nat} {gap : UInt32} {first : ReadEntry} {rest : List ReadEntry}

theorem first_le (h : IsChunk limit gap entries kind (first :: rest)) (here : e ∈ first :: rest) :
    first.start ≤ e.start := by
  exact head_le_of_sorted h.sorted here

/-- An entry that joined keeps to the limit; the first one may be wider. -/
theorem stop_le (h : IsChunk limit gap entries kind (first :: rest)) (here : e ∈ first :: rest) :
    e.stop ≤ first.start + max limit first.points := by
  obtain ⟨front, back, split⟩ := List.append_of_mem here
  cases front with
  | nil =>
    cases split
    exact Nat.add_le_add_left (Nat.le_max_right _ _) _
  | cons f front =>
    cases split
    have joined := h.joined (first :: front) e back rfl (by simp)
    simp only [joins, List.head?_cons, Option.map_some, Option.getD_some, decide_eq_true_eq,
      not_or] at joined
    have le := Nat.le_max_left limit first.points
    omega

theorem chunkEnd_bounds (h : IsChunk limit gap entries kind (first :: rest)) :
    first.stop ≤ chunkEnd (first :: rest) ∧
      chunkEnd (first :: rest) ≤ first.start + max limit first.points :=
  ⟨stop_le_chunkEnd List.mem_cons_self, chunkEnd_le fun _ here => h.stop_le here⟩

/-- The points of a plan, without the cut to 16 bits. -/
theorem points_eq (h : IsChunk limit gap entries kind (first :: rest)) (small : limit ≤ 960) :
    (flushRead kind (first :: rest)).points.toNat = chunkEnd (first :: rest) - first.start ∧
      chunkEnd (first :: rest) - first.start ≤ 960 := by
  have bounds := h.chunkEnd_bounds
  have width := first.points_cases
  have le : chunkEnd (first :: rest) - first.start ≤ 960 := by omega
  refine ⟨?_, le⟩
  rw [flushRead_cons]
  simp only [UInt16.toNat_ofNat']
  omega

/-- Where no entry of a chunk lies is a gap of at most `gap` points. -/
theorem gap_le (h : IsChunk limit gap entries kind (first :: rest)) (lo hi : Nat)
    (after : first.start ≤ lo) (before : hi ≤ chunkEnd (first :: rest))
    (free : ∀ n, lo ≤ n → n < hi → ∀ e ∈ first :: rest, ¬(e.start ≤ n ∧ n < e.stop)) :
    hi - lo ≤ gap.toNat := by
  by_cases empty : hi ≤ lo
  · omega
  -- the entries up to the gap, and what follows them
  have ended : ∀ e ∈ first :: rest, e.start ≤ lo → e.stop ≤ lo := by
    intro e here low
    have out := free lo (Nat.le_refl _) (by omega) e here
    omega
  have split := List.takeWhile_append_dropWhile (p := fun e : ReadEntry => decide (e.start ≤ lo))
    (l := first :: rest)
  have low : ∀ e ∈ (first :: rest).takeWhile fun e => decide (e.start ≤ lo), e.stop ≤ lo := by
    intro e here
    have started := List.all_eq_true.mp List.all_takeWhile e here
    exact ended e ((List.takeWhile_prefix _).subset here) (by simpa using started)
  cases later : (first :: rest).dropWhile fun e => decide (e.start ≤ lo) with
  | nil =>
    rw [later, List.append_nil] at split
    rw [split] at low
    have le := chunkEnd_le low
    omega
  | cons e back =>
    rw [later] at split
    have high : lo < e.start := by
      have head := List.head?_dropWhile_not (fun e : ReadEntry => decide (e.start ≤ lo))
        (first :: rest)
      rw [later] at head
      simpa using head
    have some_front : ((first :: rest).takeWhile fun e => decide (e.start ≤ lo)) ≠ [] := by
      simp [after]
    have joined := h.joined _ e back split.symm some_front
    simp only [joins, decide_eq_true_eq, not_or, Decidable.not_not] at joined
    have le := chunkEnd_le low
    have cut := Nat.mod_le
      (chunkEnd ((first :: rest).takeWhile fun e => decide (e.start ≤ lo)) + gap.toNat) (2 ^ 32)
    -- the next entry starts after the gap
    have e_mem : e ∈ first :: rest := by
      rw [← split]
      simp
    have width := e.points_cases
    have out : hi ≤ e.start := by
      by_contra inside
      refine free e.start (by omega) (by omega) e e_mem ⟨Nat.le_refl _, ?_⟩
      unfold ReadEntry.stop
      omega
    omega

end IsChunk

/-! ## Runs of the driver -/

/-- The results of a plan, from a memory. -/
def ReadPlan.results (memory : Memory) (fmt : DebugFmt) (plan : ReadPlan) : List RawReadResult :=
  plan.items.map
    (assembleRead fmt plan.kind.isBit
      (memory.answer plan.kind plan.startNumber plan.points.toNat))

section

variable {peer : Peer} (fmt : DebugFmt) {memory : Memory} {idle : Session Unit → Prop}
  (serves : Serves peer config memory idle)

include serves

/-- The results of all plans, in their order. -/
theorem readPlans_returns {plans : List ReadPlan}
    (allowed : ∀ plan ∈ plans, plan.startNumber < 2 ^ 24 ∧ plan.points.toNat ≤ 960)
    (results : List RawReadResult) (quiet : idle s) (connected : s.stream = true) :
    Returns (readPlans peer fmt config plans results)
      (fun r _ => r = results ++ plans.flatMap (ReadPlan.results memory fmt)) s := by
  induction plans generalizing results s with
  | nil => exact (List.append_nil results).symm
  | cons plan plans ih =>
    obtain ⟨start_lt, small⟩ := allowed plan List.mem_cons_self
    have read := serves.reads s plan.kind _ _ quiet connected start_lt small
    rw [UInt16.ofNat_toNat] at read
    unfold readPlans executeReadPlan
    refine .bind read ?_
    rintro ⟨_, _⟩ t ⟨rfl, rfl, quiet, connected⟩
    refine (ih (fun p later => allowed p (List.mem_cons_of_mem _ later)) _ quiet connected).mono
      ?_
    rintro _ _ rfl
    rw [List.flatMap_cons, List.append_assoc]
    rfl

theorem readBatch_returns {plans : List ReadPlan}
    (admitted : planReadBatch items config.maxWordPointsPerAccess config.maxBitPointsPerAccess
      config.maxMergeGapPoints = .ok plans)
    (allowed : ∀ plan ∈ plans, plan.startNumber < 2 ^ 24 ∧ plan.points.toNat ≤ 960)
    (quiet : idle s) :
    ∃ t, readBatch peer fmt config items s =
      .ok (sortByKey RawReadResult.itemId (plans.flatMap (ReadPlan.results memory fmt))) t := by
  refine Returns.run ?_
  unfold readBatch
  refine .bind (serves.connects s quiet) ?_
  rintro _ t ⟨quiet, connected⟩
  refine returns_liftExcept_bind _ admitted ?_
  refine .bind (readPlans_returns fmt serves allowed [] quiet connected) ?_
  rintro _ u rfl
  rfl

end

/-! ## Items and entries -/

theorem parseItem_eq_ok {item : DriverReadItem} (parsed : parseItem item = .ok e) :
    ∃ a, parse item.address = .ok a ∧ e = ⟨item.id, item.expectedType, a⟩ := by
  unfold parseItem at parsed
  split at parsed
  next a address =>
    cases parsed
    exact ⟨a, address, rfl⟩
  next => cases parsed

/-- The chunks of a batch; none if an item has no address. -/
def chunks (config : ReadConfig) (items : List DriverReadItem) :
    List (DeviceKind × List ReadEntry) :=
  match items.mapM parseItem with
  | .ok entries =>
    chunksOf config.maxWordPointsPerAccess config.maxBitPointsPerAccess config.maxMergeGapPoints
      entries
  | .error _ => []

/-- The plans of a batch. -/
def plansOf (config : ReadConfig) (items : List DriverReadItem) : Except Stop (List ReadPlan) :=
  planReadBatch items config.maxWordPointsPerAccess config.maxBitPointsPerAccess
    config.maxMergeGapPoints

section

variable (parsed : List.Forall₂ (fun item e => parseItem item = .ok e) items entries)

include parsed

theorem chunks_eq :
    chunks config items = chunksOf config.maxWordPointsPerAccess config.maxBitPointsPerAccess
      config.maxMergeGapPoints entries := by
  rw [chunks, mapM_of_forall₂ parsed]

theorem plansOf_eq :
    plansOf config items = .ok ((chunks config items).map fun c => flushRead c.1 c.2) := by
  rw [plansOf, planReadBatch, mapM_of_forall₂ parsed, chunks_eq parsed]
  rfl

end

theorem unitLimit_le (valid : config.Valid) (kind : DeviceKind) :
    unitLimit config.maxWordPointsPerAccess config.maxBitPointsPerAccess kind ≤ 960 := by
  obtain ⟨⟨_, word⟩, _, bit⟩ := valid
  unfold unitLimit
  split <;> omega

theorem flushRead_allowed {limit : Nat} {gap : UInt32} (h : IsChunk limit gap entries kind chunk)
    (small : limit ≤ 960) :
    (flushRead kind chunk).startNumber < 2 ^ 24 ∧ (flushRead kind chunk).points.toNat ≤ 960 := by
  cases chunk with
  | nil => exact absurd rfl h.nonempty
  | cons first rest =>
    obtain ⟨eq, le⟩ := h.points_eq small
    exact ⟨first.start_lt, eq ▸ le⟩

/-- What a batch read returns, from the chunks of the batch. -/
theorem readBatch_chunks {peer : Peer} (fmt : DebugFmt) {memory : Memory}
    {idle : Session Unit → Prop} (serves : Serves peer config memory idle) (valid : config.Valid)
    (parsed : List.Forall₂ (fun item e => parseItem item = .ok e) items entries) (quiet : idle s) :
    ∃ t, readBatch peer fmt config items s =
      .ok (sortByKey RawReadResult.itemId
        ((chunks config items).flatMap fun c => (flushRead c.1 c.2).results memory fmt)) t := by
  obtain ⟨t, run⟩ := readBatch_returns fmt serves (plansOf_eq parsed) (fun _ planned => by
    obtain ⟨⟨kind, chunk⟩, here, rfl⟩ := List.mem_map.mp planned
    rw [chunks_eq parsed] at here
    exact flushRead_allowed (isChunk here) (unitLimit_le valid kind)) quiet
  rw [List.flatMap_map] at run
  exact ⟨t, run⟩

/-! ## Words -/

section

variable (memory : Memory) (kind : DeviceKind) {start points : Nat}

theorem slice_answer (words : kind.isBit = false) {off width : Nat}
    (inside : off + width ≤ points) :
    ((memory.answer kind start points).drop (off * 2)).take (width * 2) =
      memory.answer kind (start + off) width := by
  simp only [Memory.answer, words, Bool.false_eq_true, if_false]
  rw [slice_flatMap_range (by simp) inside]
  simp only [Nat.add_assoc]

/-- The result of an item of words, from the words that it asks for. -/
def wordResult (fmt : DebugFmt) (itemId : Nat) (t : Option DataType) (number : Nat) :
    RawReadResult :=
  readResult itemId (decodeRead fmt .d t (memory.answer kind number (wordWidth t)))

theorem assembleRead_words (fmt : DebugFmt) (words : kind.isBit = false) {i : PlannedItem}
    (inside : i.offsetInPoints + wordWidth i.expected ≤ points) :
    assembleRead fmt false (memory.answer kind start points) i =
      wordResult memory kind fmt i.itemId i.expected (start + i.offsetInPoints) := by
  have len : (memory.answer kind start points).length = points * 2 := by
    simp [Memory.answer, words]
  rw [assembleRead, wordResult, ← slice_answer memory kind words inside]
  simp only [Bool.false_eq_true, if_false]
  rw [if_pos (by rw [len]; omega)]

end

/-- The result of an entry of words. -/
def ReadEntry.wordResult (memory : Memory) (fmt : DebugFmt) (e : ReadEntry) : RawReadResult :=
  MitsubishiMc.wordResult memory e.address.kind fmt e.itemId e.expected e.start

section

variable {limit : Nat} {gap : UInt32} {first : ReadEntry} {rest : List ReadEntry}

/-- The plan of a chunk has room for its items. -/
theorem IsChunk.inside (h : IsChunk limit gap entries kind (first :: rest)) (small : limit ≤ 960)
    (here : e ∈ first :: rest) :
    e.start - first.start + e.points ≤ (flushRead kind (first :: rest)).points.toNat := by
  have le := h.first_le here
  have stop : e.start + e.points ≤ chunkEnd (first :: rest) := stop_le_chunkEnd here
  rw [(h.points_eq small).1]
  omega

theorem ReadEntry.points_words (words : e.address.kind.isBit = false) :
    e.points = wordWidth e.expected := by
  simp [ReadEntry.points, words]

/-- A plan of words reads each item by itself. -/
theorem results_words (memory : Memory) (fmt : DebugFmt)
    (h : IsChunk limit gap entries kind (first :: rest)) (small : limit ≤ 960)
    (words : kind.isBit = false) :
    (flushRead kind (first :: rest)).results memory fmt =
      (first :: rest).map (ReadEntry.wordResult memory fmt) := by
  have inside := fun e (here : e ∈ first :: rest) => h.inside small here
  rw [flushRead_cons] at inside ⊢
  rw [ReadPlan.results, List.map_map, words]
  refine List.map_congr_left fun e here => ?_
  obtain ⟨_, e_kind⟩ := h.entry e here
  have le := h.first_le here
  have sum : first.start + (e.start - first.start) = e.start := by omega
  have room := inside e here
  rw [ReadEntry.points_words (e_kind ▸ words)] at room
  have whole : assembleRead fmt false (memory.answer kind first.start _) (e.planned first.start) =
      _ := assembleRead_words memory kind fmt words room
  rw [Function.comp, whole, ReadEntry.wordResult, e_kind]
  show MitsubishiMc.wordResult memory kind fmt e.itemId e.expected
    (first.start + (e.start - first.start)) = _
  rw [sum]

end

/-- Where an item is read. -/
structure Place where
  kind : DeviceKind
  number : Nat
  itemId : Nat
  expectedType : Option DataType

/-- The places of the items of a plan. -/
def ReadPlan.places (plan : ReadPlan) : List Place :=
  plan.items.map fun i => ⟨plan.kind, plan.startNumber + i.offsetInPoints, i.itemId, i.expected⟩

/-- The place of an item, from its address. -/
def place (item : DriverReadItem) : Option Place :=
  (parse item.address).toOption.map fun a => ⟨a.kind, a.number, item.id, item.expectedType⟩

/-- The place of an entry. -/
def ReadEntry.place (e : ReadEntry) : Place := ⟨e.address.kind, e.start, e.itemId, e.expected⟩

theorem IsChunk.places_eq {limit : Nat} {gap : UInt32} (h : IsChunk limit gap entries kind chunk) :
    (flushRead kind chunk).places = chunk.map ReadEntry.place := by
  cases chunk with
  | nil => exact absurd rfl h.nonempty
  | cons first rest =>
    rw [flushRead_cons, ReadPlan.places, List.map_map]
    refine List.map_congr_left fun e here => ?_
    have le := h.first_le here
    have sum : first.start + (e.start - first.start) = e.start := by omega
    simp only [Function.comp, ReadEntry.planned, ReadEntry.place, sum, (h.entry e here).2]

theorem map_place (parsed : List.Forall₂ (fun item e => parseItem item = .ok e) items entries) :
    items.map place = (entries.map ReadEntry.place).map some := by
  refine map_of_forall₂ parsed fun item e parsed => ?_
  obtain ⟨a, address, rfl⟩ := parseItem_eq_ok parsed
  simp only [place, address, Except.toOption, Option.map_some, ReadEntry.place, ReadEntry.start]

/-- The point `n` of a plan is asked for by one of its items. -/
def ReadPlan.Requested (plan : ReadPlan) (n : Nat) : Prop :=
  ∃ i ∈ plan.items, i.offsetInPoints ≤ n ∧ n < i.offsetInPoints + wordWidth i.expected

/-- What a plan of words keeps to: it has room for all of its items; its points are at most
the limit, or the width of the widest item; and what no item asks for is at most the gap. -/
structure ReadPlan.Keeps (plan : ReadPlan) (limit gap : Nat) : Prop where
  room : ∀ i ∈ plan.items, i.offsetInPoints + wordWidth i.expected ≤ plan.points.toNat
  limit : ∃ widest ∈ plan.items,
    (∀ i ∈ plan.items, wordWidth i.expected ≤ wordWidth widest.expected) ∧
    plan.points.toNat ≤ max limit (wordWidth widest.expected)
  gap : ∀ lo hi, hi ≤ plan.points.toNat → (∀ n, lo ≤ n → n < hi → ¬plan.Requested n) →
    hi - lo ≤ gap

/-- A plan keeps the limits of the protocol. -/
theorem IsChunk.keeps {limit : Nat} {gap : UInt32} (h : IsChunk limit gap entries kind chunk)
    (small : limit ≤ 960) (words : kind.isBit = false) :
    (flushRead kind chunk).Keeps limit gap.toNat := by
  cases chunk with
  | nil => exact absurd rfl h.nonempty
  | cons first rest =>
    have bounds := h.chunkEnd_bounds
    have points := h.points_eq small
    have width : ∀ e ∈ first :: rest, e.points = wordWidth e.expected := fun e here =>
      ReadEntry.points_words ((h.entry e here).2 ▸ words)
    refine ⟨?_, ?_, ?_⟩
    · intro i inside
      obtain ⟨e, here, rfl⟩ := List.mem_map.mp inside
      have room := h.inside small here
      rwa [width e here] at room
    · obtain ⟨widest, here, le⟩ := exists_max (fun i : PlannedItem => wordWidth i.expected)
        (flushRead kind (first :: rest)).items (by simp [flushRead_cons])
      have first_le := le (first.planned first.start) List.mem_cons_self
      have first_width := width first List.mem_cons_self
      have same : (first.planned first.start).expected = first.expected := rfl
      refine ⟨widest, here, le, ?_⟩
      rw [same] at first_le
      omega
    · intro lo hi before free
      rw [points.1] at before
      have shifted := h.gap_le (first.start + lo) (first.start + hi) (by omega)
        (by unfold ReadEntry.stop at bounds; omega) ?_
      · omega
      · rintro n low high e here ⟨started, running⟩
        refine free (n - first.start) (by omega) (by omega)
          ⟨e.planned first.start, List.mem_map_of_mem here, ?_⟩
        have le := h.first_le here
        unfold ReadEntry.stop at running
        rw [width e here] at running
        simp only [ReadEntry.planned]
        omega

/-- What reading one item of words returns. -/
theorem readBatch_word {peer : Peer} {fmt : DebugFmt} {memory : Memory}
    {idle : Session Unit → Prop} (serves : Serves peer config memory idle) (valid : config.Valid)
    {item : DriverReadItem} (parsed : parseItem item = .ok e)
    (words : e.address.kind.isBit = false) (quiet : idle s) :
    ∃ t, readBatch peer fmt config [item] s = .ok [e.wordResult memory fmt] t := by
  obtain ⟨t, run⟩ := readBatch_chunks fmt serves valid (.cons parsed .nil) quiet
  refine ⟨t, run.trans ?_⟩
  have alone := chunksOf_singleton config.maxWordPointsPerAccess config.maxBitPointsPerAccess
    config.maxMergeGapPoints e
  have chunk := isChunk (alone ▸ List.mem_singleton_self _)
  rw [chunks_eq (.cons parsed .nil), alone]
  simp [results_words memory fmt chunk (unitLimit_le valid _) words, sortByKey]

/-- A batch of words: every item is in one plan, at its own number; every plan has room for
its items, keeps to the limit and spans no gap that is too wide; and for every memory
the batch read returns for every item what reading it alone returns. -/
theorem readBatch_words_alone (fmt : DebugFmt) (config : ReadConfig) (valid : config.Valid)
    (items : List DriverReadItem)
    (words : ∀ item ∈ items, ∃ a, parse item.address = .ok a ∧ a.kind.isBit = false) :
    ∃ plans, plansOf config items = .ok plans ∧
      ((plans.flatMap ReadPlan.places).map some).Perm (items.map place) ∧
      (∀ plan ∈ plans,
        plan.Keeps config.maxWordPointsPerAccess.toNat config.maxMergeGapPoints.toNat) ∧
      ∀ peer memory idle s, Serves peer config memory idle → idle s →
        ∃ results alone t, readBatch peer fmt config items s = .ok results t ∧
          List.Forall₂ (fun item r => ∃ t, readBatch peer fmt config [item] s = .ok [r] t)
            items alone ∧
          results.Perm alone := by
  obtain ⟨entries, parsed_words⟩ := exists_forall₂
    (R := fun item (e : ReadEntry) => parseItem item = .ok e ∧ e.address.kind.isBit = false)
    fun item inside => by
      obtain ⟨a, address, word⟩ := words item inside
      exact ⟨⟨item.id, item.expectedType, a⟩, by rw [parseItem, address], word⟩
  have parsed := parsed_words.imp fun _ _ h => h.1
  have chunk_words : ∀ c ∈ chunks config items, c.1.isBit = false := by
    rintro ⟨kind, chunk⟩ here
    rw [chunks_eq parsed] at here
    have h := isChunk here
    obtain ⟨e, inside⟩ := List.exists_mem_of_ne_nil chunk h.nonempty
    obtain ⟨e_mem, rfl⟩ := h.entry e inside
    obtain ⟨_, _, _, word⟩ := exists_left_of_forall₂ parsed_words e_mem
    exact word
  refine ⟨_, plansOf_eq parsed, ?_, ?_, ?_⟩
  · rw [map_place parsed, List.flatMap_map, chunks_eq parsed]
    exact (flatMap_perm_map (chunksOf_perm _ _ _ entries) fun c here =>
      (isChunk here).places_eq).map _
  · intro _ planned
    obtain ⟨⟨kind, chunk⟩, here, rfl⟩ := List.mem_map.mp planned
    have word := chunk_words _ here
    rw [chunks_eq parsed] at here
    have keeps := (isChunk here).keeps (unitLimit_le valid kind) word
    rwa [unitLimit, if_neg (by simpa using word)] at keeps
  · intro peer memory idle s serves quiet
    obtain ⟨t, run⟩ := readBatch_chunks fmt serves valid parsed quiet
    refine ⟨_, entries.map (ReadEntry.wordResult memory fmt), t, run, ?_, ?_⟩
    · rw [List.forall₂_map_right_iff]
      exact parsed_words.imp fun item e h => readBatch_word serves valid h.1 h.2 quiet
    · rw [chunks_eq parsed] at chunk_words ⊢
      refine (sortByKey_perm _ _).trans (flatMap_perm_map (chunksOf_perm _ _ _ entries) ?_)
      rintro ⟨kind, chunk⟩ here
      have h := isChunk here
      cases chunk with
      | nil => exact absurd rfl h.nonempty
      | cons first rest =>
        exact results_words memory fmt h (unitLimit_le valid kind) (chunk_words _ here)

/-- A driver with the default limits. -/
def plcConfig : ReadConfig where
  host := "plc"
  port := 6006
  routing := ⟨0, 0, 0x03FF, 0⟩
  monitoringTimer := 2000
  maxWordPointsPerAccess := 960
  maxBitPointsPerAccess := 720
  maxMergeGapPoints := 8

/-- Four words, one of them again, and one after a gap: one plan. -/
theorem readBatch_words_overlapping :
    let memory : Memory := ⟨fun _ _ => false, fun _ n => UInt16.ofNat n⟩
    let items : List DriverReadItem := [⟨1, "D10", some .u64⟩, ⟨2, "D11", some .u16⟩,
      ⟨3, "D20", some .f32⟩]
    ∃ results alone t, readBatch (replying memory.plc) plainDebug plcConfig items ⟨false, [], ()⟩ =
        .ok results t ∧
      List.Forall₂ (fun item r => ∃ t, readBatch (replying memory.plc) plainDebug plcConfig [item]
        ⟨false, [], ()⟩ = .ok [r] t) items alone ∧
      results.Perm alone := by
  intro memory items
  obtain ⟨_, _, _, _, read⟩ := readBatch_words_alone plainDebug plcConfig (by decide) items (by
    simp only [items, List.forall_mem_cons]
    exact ⟨⟨_, rfl, rfl⟩, ⟨_, rfl, rfl⟩, ⟨_, rfl, rfl⟩, nofun⟩)
  exact read _ memory _ _ (plc_serves memory plcConfig) rfl

/-! ## Points -/

/-- The point that an entry is answered with, in a chunk that starts at `start`: the one in
the lowest place of its byte. -/
def ReadEntry.seen (start : Nat) (e : ReadEntry) : Nat := start + 8 * ((e.start - start) / 8)

/-- Every item of a chunk stands a multiple of eight points after the first one. -/
def aligned : List ReadEntry → Bool
  | [] => true
  | first :: rest => rest.all fun e => (e.start - first.start) % 8 = 0

theorem aligned_iff {first : ReadEntry} {rest : List ReadEntry} :
    aligned (first :: rest) = true ↔ ∀ e ∈ first :: rest, (e.start - first.start) % 8 = 0 := by
  simp [aligned]

section

variable (memory : Memory) (kind : DeviceKind) {start points : Nat} (bits : kind.isBit = true)
  (fmt : DebugFmt) {i : PlannedItem} (inside : i.offsetInPoints < points)

include bits inside

/-- A bit is taken from the first of its eight. -/
theorem assembleRead_bits :
    assembleRead fmt true (memory.answer kind start points) i =
      readResult i.itemId (decodeBit fmt i.expected
        [if memory.bit kind (start + 8 * (i.offsetInPoints / 8)) then 1 else 0]) := by
  have lowest : 8 * (i.offsetInPoints / 8) <
      ((List.range points).map fun n => memory.bit kind (start + n)).length := by
    simp only [List.length_map, List.length_range]
    omega
  obtain ⟨byte, found, bit⟩ := bit_packBits lowest
  have index : 8 * (i.offsetInPoints / 8) / 8 = i.offsetInPoints / 8 := by omega
  have zero : 8 * (i.offsetInPoints / 8) % 8 = 0 := by omega
  rw [index] at found
  simp only [zero, List.getElem_map, List.getElem_range] at bit
  have value : bitOf byte 0 = decide (byte &&& 1 ≠ 0) := by simp [bitOf]
  have same : decide ((if bitOf byte 0 then (1 : UInt8) else 0) &&& 1 ≠ 0) =
      decide (byte &&& 1 ≠ 0) := by
    rw [value]
    by_cases set : byte &&& 1 = 0 <;> simp [set]
  have isBit : DeviceKind.m.isBit = true := rfl
  rw [assembleRead, if_pos rfl, Memory.answer, if_pos bits, found, ← bit]
  simp only [decodeRead, isBit, if_true, decodeBit, same]

theorem assembleRead_good (bitType : BitType i.expected) :
    assembleRead fmt true (memory.answer kind start points) i =
      .good i.itemId (.bool (memory.bit kind (start + 8 * (i.offsetInPoints / 8)))) := by
  have value : ∀ bit : Bool, decide ((if bit then (1 : UInt8) else 0) &&& 1 ≠ 0) = bit := by
    decide
  rw [assembleRead_bits memory kind bits fmt inside]
  rcases bitType with t | t
  · simp only [t, decodeBit, readResult, value]
  · simp only [t, decodeBit, readResult, value]

theorem bitType_of_isSome
    (isSome : (assembleRead fmt true (memory.answer kind start points) i).value.isSome = true) :
    BitType i.expected := by
  rw [assembleRead_bits memory kind bits fmt inside] at isSome
  cases t : i.expected with
  | none => exact .inl rfl
  | some t' =>
    cases t'
    case bool => exact .inr rfl
    all_goals simp [t, decodeBit, readResult, RawReadResult.failed] at isSome

end

/-- The result that an item should have. -/
def ownPoint (memory : Memory) (item : DriverReadItem) : Option RawReadResult :=
  (parse item.address).toOption.map fun a => .good item.id (.bool (memory.bit a.kind a.number))

/-- The result of an entry that is answered with the point `n`. -/
def ReadEntry.bitResult (memory : Memory) (e : ReadEntry) (n : Nat) : RawReadResult :=
  .good e.itemId (.bool (memory.bit e.address.kind n))

theorem map_ownPoint (memory : Memory)
    (parsed : List.Forall₂ (fun item e => parseItem item = .ok e) items entries) :
    items.map (ownPoint memory) = (entries.map fun e => e.bitResult memory e.start).map some := by
  refine map_of_forall₂ parsed fun item e parsed => ?_
  obtain ⟨a, address, rfl⟩ := parseItem_eq_ok parsed
  simp only [ownPoint, address, Except.toOption, Option.map_some, ReadEntry.bitResult,
    ReadEntry.start]

section

variable {limit : Nat} {gap : UInt32} {first : ReadEntry} {rest : List ReadEntry} (memory : Memory)
  (fmt : DebugFmt) (h : IsChunk limit gap entries kind (first :: rest)) (small : limit ≤ 960)

include h small

theorem IsChunk.offset_lt (here : e ∈ first :: rest) :
    (e.planned first.start).offsetInPoints < (flushRead kind (first :: rest)).points.toNat := by
  have room := h.inside small here
  have width := e.points_cases
  show e.start - first.start < _
  omega

variable (bits : kind.isBit = true)

include bits

theorem bitTypes_of_results
    (valued : ∀ r ∈ (flushRead kind (first :: rest)).results memory fmt, r.value.isSome = true) :
    ∀ e ∈ first :: rest, BitType e.expected := by
  intro e here
  have inside := h.offset_lt small here
  rw [flushRead_cons] at inside valued
  have some_value := valued _ (List.mem_map_of_mem (List.mem_map_of_mem here))
  rw [bits] at some_value
  exact bitType_of_isSome memory kind bits fmt inside some_value

theorem results_bits (bitTypes : ∀ e ∈ first :: rest, BitType e.expected) :
    (flushRead kind (first :: rest)).results memory fmt =
      (first :: rest).map fun e => e.bitResult memory (e.seen first.start) := by
  have offset_lt := fun e (here : e ∈ first :: rest) => h.offset_lt small here
  rw [flushRead_cons] at offset_lt ⊢
  rw [ReadPlan.results, List.map_map, bits]
  refine List.map_congr_left fun e here => ?_
  rw [Function.comp, assembleRead_good memory kind bits fmt (offset_lt e here) (bitTypes e here)]
  rw [ReadEntry.bitResult, (h.entry e here).2]
  rfl

end

section

variable {maxWord maxBit : UInt16} {gap : UInt32}
  (small : ∀ kind, unitLimit maxWord maxBit kind ≤ 960)
  (bits : ∀ e ∈ entries, e.address.kind.isBit = true)

include bits

theorem isBit_of_mem (inside : (kind, chunk) ∈ chunksOf maxWord maxBit gap entries) :
    kind.isBit = true := by
  have h := isChunk inside
  obtain ⟨e, here⟩ := List.exists_mem_of_ne_nil chunk h.nonempty
  obtain ⟨e_mem, rfl⟩ := h.entry e here
  exact bits e e_mem

include small

/-- The results of all chunks, if every entry is to be read as a bit. -/
theorem results_seen (memory : Memory) (fmt : DebugFmt)
    (bitTypes : ∀ e ∈ entries, BitType e.expected) :
    ((chunksOf maxWord maxBit gap entries).flatMap fun c =>
        (flushRead c.1 c.2).results memory fmt) =
      (withFirst ReadEntry.start (chunksOf maxWord maxBit gap entries)).map fun p =>
        p.1.bitResult memory (p.1.seen p.2) := by
  rw [withFirst, List.map_flatMap]
  refine List.flatMap_congr ?_
  rintro ⟨kind, chunk⟩ here
  have h := isChunk here
  have bit := isBit_of_mem bits here
  cases chunk with
  | nil => exact absurd rfl h.nonempty
  | cons first rest =>
    rw [results_bits memory fmt h (small kind) bit fun e inside =>
      bitTypes e (h.entry e inside).1,
      List.map_map]
    rfl

/-- If all results have values, every entry is to be read as a bit. -/
theorem bitTypes_of_valued (memory : Memory) (fmt : DebugFmt)
    (valued : ∀ c ∈ chunksOf maxWord maxBit gap entries,
      ∀ r ∈ (flushRead c.1 c.2).results memory fmt, r.value.isSome = true) :
    ∀ e ∈ entries, BitType e.expected := by
  intro e inside
  obtain ⟨⟨kind, chunk⟩, here, e_mem⟩ :=
    List.mem_flatMap.mp ((chunksOf_perm maxWord maxBit gap entries).mem_iff.mpr inside)
  have h := isChunk here
  cases chunk with
  | nil => cases e_mem
  | cons first rest =>
    exact bitTypes_of_results memory fmt h (small kind) (isBit_of_mem bits here)
      (valued _ here) e e_mem

omit small bits in
theorem aligned_iff_seen :
    (∀ c ∈ chunksOf maxWord maxBit gap entries, aligned c.2 = true) ↔
      ∀ p ∈ withFirst ReadEntry.start (chunksOf maxWord maxBit gap entries),
        p.1.seen p.2 = p.1.start := by
  constructor
  · rintro all ⟨e, start⟩ inside
    obtain ⟨kind, first, rest, here, e_mem, rfl⟩ := (mem_withFirst _).mp inside
    have le := (isChunk here).first_le e_mem
    have whole := aligned_iff.mp (all _ here) e e_mem
    show first.start + 8 * ((e.start - first.start) / 8) = e.start
    omega
  · rintro all ⟨kind, chunk⟩ here
    cases chunk with
    | nil => rfl
    | cons first rest =>
      refine aligned_iff.mpr fun e e_mem => ?_
      have le := (isChunk here).first_le e_mem
      have seen : first.start + 8 * ((e.start - first.start) / 8) = e.start :=
        all (e, first.start) ((mem_withFirst _).mpr ⟨kind, first, rest, here, e_mem, rfl⟩)
      omega

/-- If the results are right for every memory, every entry is answered with its own point. -/
theorem aligned_of_results (fmt : DebugFmt)
    (right : ∀ memory : Memory,
      ((chunksOf maxWord maxBit gap entries).flatMap fun c =>
        (flushRead c.1 c.2).results memory fmt).Perm
        (entries.map fun e => e.bitResult memory e.start)) :
    (∀ e ∈ entries, BitType e.expected) ∧
      ∀ c ∈ chunksOf maxWord maxBit gap entries, aligned c.2 = true := by
  have bitTypes : ∀ e ∈ entries, BitType e.expected := by
    refine @bitTypes_of_valued _ _ _ gap small bits ⟨fun _ _ => false, fun _ _ => 0⟩ fmt ?_
    intro c here r inside
    have own := (right _).mem_iff.mp (List.mem_flatMap.mpr ⟨c, here, inside⟩)
    obtain ⟨e, _, rfl⟩ := List.mem_map.mp own
    rfl
  refine ⟨bitTypes, aligned_iff_seen.mpr fun p inside => ?_⟩
  have places := perm_places (fun p : ReadEntry × Nat => p.1.itemId)
    (fun p => p.1.address.kind.rank * 2 ^ 24 + p.1.start)
    (fun p => p.1.address.kind.rank * 2 ^ 24 + p.1.seen p.2)
    (withFirst ReadEntry.start (chunksOf maxWord maxBit gap entries)) ?before ?perm p inside
  case before =>
    rintro ⟨e, start⟩ inside
    obtain ⟨kind, first, rest, here, e_mem, rfl⟩ := (mem_withFirst _).mp inside
    have le := (isChunk here).first_le e_mem
    show _ + (first.start + 8 * ((e.start - first.start) / 8)) ≤ _ + e.start
    omega
  case perm =>
    intro mem
    let memory : Memory := ⟨fun kind n => mem (kind.rank * 2 ^ 24 + n), fun _ _ => 0⟩
    have answers := (right memory).map fun r => (r.itemId, r.bit)
    rw [results_seen small bits memory fmt bitTypes, List.map_map, List.map_map] at answers
    have whole := withFirst_perm ReadEntry.start (chunksOf_perm maxWord maxBit gap entries)
    refine answers.trans ((whole.symm.map _).trans ?_)
    rw [List.map_map]
    exact .refl _
  omega

end

/-- A batch read of bits returns for every item the value of its own point, for every memory:
this holds just if every item is to be read as a bit, and stands a multiple of eight
points after the first item of its chunk. -/
theorem readBatch_points_iff (fmt : DebugFmt) (config : ReadConfig) (valid : config.Valid)
    (items : List DriverReadItem)
    (bits : ∀ item ∈ items, ∃ a, parse item.address = .ok a ∧ a.kind.isBit = true) :
    (∀ peer memory idle s, Serves peer config memory idle → idle s →
      ∃ results t, readBatch peer fmt config items s = .ok results t ∧
        (results.map some).Perm (items.map (ownPoint memory))) ↔
    (∀ item ∈ items, BitType item.expectedType) ∧
      ∀ c ∈ chunks config items, aligned c.2 = true := by
  obtain ⟨entries, parsed_bits⟩ := exists_forall₂
    (R := fun item (e : ReadEntry) => parseItem item = .ok e ∧ e.address.kind.isBit = true)
    fun item inside => by
      obtain ⟨a, address, bit⟩ := bits item inside
      exact ⟨⟨item.id, item.expectedType, a⟩, by rw [parseItem, address], bit⟩
  have parsed := parsed_bits.imp fun _ _ h => h.1
  have entries_bits : ∀ e ∈ entries, e.address.kind.isBit = true := by
    intro e here
    obtain ⟨_, _, _, bit⟩ := exists_left_of_forall₂ parsed_bits here
    exact bit
  have types : (∀ item ∈ items, BitType item.expectedType) ↔ ∀ e ∈ entries, BitType e.expected := by
    refine forall_mem_iff_of_forall₂ parsed fun item e parsed => ?_
    obtain ⟨a, _, rfl⟩ := parseItem_eq_ok parsed
    rfl
  have small := unitLimit_le valid
  rw [types]
  constructor
  · intro right
    rw [chunks_eq parsed]
    refine aligned_of_results small entries_bits fmt fun memory => ?_
    have served := plc_serves memory config
    obtain ⟨t, run⟩ := readBatch_chunks fmt served valid parsed (s := ⟨false, [], ()⟩) rfl
    obtain ⟨results, t', run', perm⟩ := right _ memory _ ⟨false, [], ()⟩ served rfl
    rw [run] at run'
    cases run'
    rw [map_ownPoint memory parsed, List.map_perm_map_iff (Option.some_injective _),
      chunks_eq parsed] at perm
    exact (sortByKey_perm _ _).symm.trans perm
  · rintro ⟨bitTypes, whole⟩ peer memory idle s serves quiet
    obtain ⟨t, run⟩ := readBatch_chunks fmt serves valid parsed quiet
    refine ⟨_, t, run, ?_⟩
    rw [map_ownPoint memory parsed]
    refine List.Perm.map _ ((sortByKey_perm _ _).trans ?_)
    rw [chunks_eq parsed] at whole ⊢
    rw [results_seen small entries_bits memory fmt bitTypes]
    rw [List.map_congr_left fun p inside => by rw [aligned_iff_seen.mp whole p inside]]
    have own := (withFirst_perm ReadEntry.start (chunksOf_perm config.maxWordPointsPerAccess
      config.maxBitPointsPerAccess config.maxMergeGapPoints entries)).map
        fun e => e.bitResult memory e.start
    rwa [List.map_map] at own

/-- Two points with fifteen between them, and one far away. -/
theorem readBatch_points_apart :
    let memory : Memory := ⟨fun _ n => n = 16, fun _ _ => 0⟩
    let items : List DriverReadItem := [⟨1, "M0", none⟩, ⟨2, "M16", some .bool⟩, ⟨3, "M101", none⟩]
    ∃ results t, readBatch (replying memory.plc) plainDebug
      { plcConfig with maxMergeGapPoints := 15 }
        items ⟨false, [], ()⟩ = .ok results t ∧
      (results.map some).Perm (items.map (ownPoint memory)) := by
  intro memory items
  exact (readBatch_points_iff plainDebug { plcConfig with maxMergeGapPoints := 15 }
    (by decide) items
    (by
      simp only [items, List.forall_mem_cons]
      exact ⟨⟨_, rfl, rfl⟩, ⟨_, rfl, rfl⟩, ⟨_, rfl, rfl⟩, nofun⟩)).mpr
    ⟨by simp [items, BitType], by decide⟩ _ memory _ _ (plc_serves memory _) rfl

/-- Two neighbouring points, of which the second is set: both are answered with the first. -/
theorem readBatch_repeats_point :
    let memory : Memory := ⟨fun _ n => n = 1, fun _ _ => 0⟩
    (match readBatch (replying memory.plc) plainDebug plcConfig [⟨1, "M0", none⟩, ⟨2, "M1", none⟩]
        ⟨false, [], ()⟩ with
      | .ok results _ => results.map fun r => (r.itemId, r.bit)
      | .error _ _ => []) = [(1, false), (2, false)] := by
  decide

end ForgeLink.Drivers.MitsubishiMc
