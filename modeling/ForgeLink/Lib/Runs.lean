import Mathlib.Algebra.Ring.Nat
import Mathlib.Data.List.Chain
import Mathlib.Data.List.Dedup
import Mathlib.Data.List.Perm.Basic
import Mathlib.Data.List.Sort

/-!
# Cutting a batch into runs

What a planner of requests does with a batch: it groups the entries by a key, in
the order of the keys; it sorts each group by address, entries of one address in
the order they came; and it cuts the sorted group into runs.

`runs` is the cutting loop.  An entry joins the run that is open, or closes it
and opens the next one; `joins` is told the open run.  Cutting loses nothing and
adds nothing (`flatten_runs`), so all the runs of a batch together are a
permutation of it (`batches_perm`).

A planner asks for what lies before the furthest end of a run, which is a
maximum.  The last section is about answers.  If every entry of a batch is answered with
what stands at some place, then the answers are the right ones, as a bag and for
every memory, only if every place is the right one (`perm_places`).
-/

namespace ForgeLink.Lib

variable {α β κ : Type*}
variable {run : List α} {x : α} {k : κ}

/-! ## Runs -/

/-- The cutting loop, with the run that is open. -/
def runsFrom (joins : List α → α → Bool) : List α → List α → List (List α)
  | run, [] => [run]
  | run, x :: xs =>
    if joins run x then runsFrom joins (run ++ [x]) xs else run :: runsFrom joins [x] xs

/-- Cut a list into runs. -/
def runs (joins : List α → α → Bool) : List α → List (List α)
  | [] => []
  | x :: xs => runsFrom joins [x] xs

/-- Every entry but the first joined the run before it. -/
def Chained (joins : List α → α → Bool) (run : List α) : Prop :=
  ∀ front x back, run = front ++ x :: back → front ≠ [] → joins front x = true

section

variable {joins : List α → α → Bool}
variable {xs r : List α} {R : α → α → Prop}

theorem chained_singleton (x : α) : Chained joins [x] := by
  intro front y back eq front_ne
  cases front with
  | nil => exact absurd rfl front_ne
  | cons z front => simp at eq

theorem Chained.snoc (h : Chained joins run) (joined : joins run x = true) :
    Chained joins (run ++ [x]) := by
  intro front y back eq front_ne
  rcases List.eq_nil_or_concat back with rfl | ⟨back', z, rfl⟩
  · obtain ⟨rfl, eq'⟩ := List.append_inj' eq rfl
    cases eq'
    exact joined
  · have eq' : run ++ [x] = (front ++ y :: back') ++ [z] := by simpa using eq
    exact h front y back' (List.append_inj' eq' rfl).1 front_ne

theorem flatten_runsFrom (run xs : List α) : (runsFrom joins run xs).flatten = run ++ xs := by
  induction xs generalizing run with
  | nil => simp [runsFrom]
  | cons x xs ih =>
    rw [runsFrom]
    split
    · simp [ih]
    · simp [ih]

theorem runsFrom_spec (nonempty : run ≠ []) (chained : Chained joins run) :
    ∀ r ∈ runsFrom joins run xs, r ≠ [] ∧ Chained joins r := by
  induction xs generalizing run with
  | nil =>
    intro r inside
    rw [runsFrom, List.mem_singleton] at inside
    subst inside
    exact ⟨nonempty, chained⟩
  | cons x xs ih =>
    intro r inside
    rw [runsFrom] at inside
    split at inside
    next joined => exact ih (by simp) (chained.snoc joined) r inside
    next =>
      rcases List.mem_cons.mp inside with rfl | later
      · exact ⟨nonempty, chained⟩
      · exact ih (by simp) (chained_singleton x) r later

/-- Cutting loses nothing, adds nothing and keeps the order. -/
@[simp] theorem flatten_runs (joins : List α → α → Bool) (xs : List α) :
    (runs joins xs).flatten = xs := by
  cases xs with
  | nil => rfl
  | cons x xs => exact flatten_runsFrom [x] xs

/-- Nor does cutting pieces again. -/
@[simp] theorem flatten_flatMap_runs (joins : List α → α → Bool) (pieces : List (List α)) :
    (pieces.flatMap (runs joins)).flatten = pieces.flatten := by
  rw [List.flatMap_def, List.flatten_flatten, List.map_map]
  simp [Function.comp_def]

theorem ne_nil_of_mem_runs (inside : r ∈ runs joins xs) : r ≠ [] := by
  cases xs with
  | nil => cases inside
  | cons x xs => exact (runsFrom_spec (by simp) (chained_singleton x) r inside).1

theorem chained_of_mem_runs (inside : r ∈ runs joins xs) : Chained joins r := by
  cases xs with
  | nil => cases inside
  | cons x xs => exact (runsFrom_spec (by simp) (chained_singleton x) r inside).2

/-- If joining depends on the last entry only, a run is a chain. -/
theorem isChain_of_mem_runs (inside : r ∈ runs joins xs)
    (related : ∀ front x y, joins (front ++ [x]) y = true → R x y) : List.IsChain R r := by
  refine List.isChain_iff_forall_rel_of_append_cons_cons.mpr fun {x y front back} eq => ?_
  refine related front x y (chained_of_mem_runs inside (front ++ [x]) y back ?_ (by simp))
  rw [eq, List.append_assoc, List.singleton_append]

/-- If joining depends on the last entry only, a piece of a run is a chain too. -/
theorem isChain_of_mem_pieces {joins' : List α → α → Bool} (outer : run ∈ runs joins xs)
    (inside : r ∈ runs joins' run) (related : ∀ front x y, joins (front ++ [x]) y = true → R x y) :
    List.IsChain R r := by
  have chain := isChain_of_mem_runs outer related
  have piece := List.infix_of_mem_flatten inside
  rw [flatten_runs] at piece
  exact List.IsChain.infix chain piece

/-- What holds between the entries of a list holds between those of a run. -/
theorem pairwise_of_mem_runs (h : xs.Pairwise R) (inside : r ∈ runs joins xs) : r.Pairwise R := by
  rw [← flatten_runs joins xs] at h
  exact (List.pairwise_flatten.mp h).1 r inside

theorem mem_of_mem_runs (inside : r ∈ runs joins xs) (here : x ∈ r) : x ∈ xs := by
  rw [← flatten_runs joins xs]
  exact List.mem_flatten.mpr ⟨r, inside, here⟩

/-- The open run is the start of the first run. -/
theorem exists_extension_mem_runsFrom (joins : List α → α → Bool) (run xs : List α) :
    ∃ back, run ++ back ∈ runsFrom joins run xs := by
  induction xs generalizing run with
  | nil => exact ⟨[], by simp [runsFrom]⟩
  | cons z xs ih =>
    rw [runsFrom]
    split
    · obtain ⟨back, inside⟩ := ih (run ++ [z])
      exact ⟨z :: back, by simpa using inside⟩
    · exact ⟨[], by simp⟩

/-- If every run has one entry, no entry joins the one before it. -/
theorem isChain_of_singletons (single : ∀ r ∈ runs joins xs, r.length = 1) :
    List.IsChain (fun x y => joins [x] y = false) xs := by
  induction xs with
  | nil => exact .nil
  | cons x xs ih =>
    cases xs with
    | nil => exact .singleton x
    | cons y xs =>
      rw [runs, runsFrom] at single
      split at single
      next joined =>
        obtain ⟨back, inside⟩ := exists_extension_mem_runsFrom joins ([x] ++ [y]) xs
        have long := single _ inside
        simp at long
      next apart =>
        refine List.isChain_cons_cons.mpr ⟨by simpa using apart, ih fun r inside => ?_⟩
        exact single r (List.mem_cons_of_mem _ inside)

/-- Entries that stand next to each other and join are in one run. -/
theorem exists_run_of_consecutive {y : α} (joined : ∀ run, joins (run ++ [x]) y = true)
    {front back : List α} (run xs : List α) (split : run ++ xs = front ++ x :: y :: back) :
    ∃ r ∈ runsFrom joins run xs, ∃ f b, r = f ++ x :: y :: b := by
  induction xs generalizing run front with
  | nil => exact ⟨run, by simp [runsFrom], front, back, by simpa using split⟩
  | cons z xs ih =>
    rw [runsFrom]
    split
    next => exact ih (run ++ [z]) (by simpa using split)
    next apart =>
      rcases List.append_eq_append_iff.mp split with ⟨mid, rfl, later⟩ | ⟨mid, rfl, later⟩
      · -- the pair stands in what is to come
        obtain ⟨r, inside, found⟩ := ih [z] (by simpa using later)
        exact ⟨r, List.mem_cons_of_mem _ inside, found⟩
      · match mid, later with
        | [], later =>
          obtain ⟨r, inside, found⟩ :=
            ih [z] (show [z] ++ xs = [] ++ _ by simpa using later.symm)
          exact ⟨r, List.mem_cons_of_mem _ inside, found⟩
        | [x'], later =>
          obtain ⟨rfl, rfl, rfl⟩ : x = x' ∧ y = z ∧ back = xs := by simpa using later
          exact absurd (joined front) apart
        | x' :: y' :: mid, later =>
          obtain ⟨rfl, rfl, rfl⟩ : x = x' ∧ y = y' ∧
            back = mid ++ z :: xs := by simpa using later
          exact ⟨_, List.mem_cons_self, front, mid, rfl⟩

end

/-! ## Groups -/

section

variable [DecidableEq κ]
variable {xs : List α}

/-- The groups of a list by key, in the order of the keys; each group in the
order of the list. -/
def groups (le : κ → κ → Bool) (key : α → κ) (xs : List α) : List (κ × List α) :=
  ((xs.map key).dedup.insertionSort fun k l => le k l).map fun k =>
    (k, xs.filter fun x => key x = k)

/-- Grouping by a key loses nothing. -/
theorem perm_flatMap_filter (key : α → κ) (keys : List κ) (xs : List α) (distinct : keys.Nodup)
    (all : ∀ x ∈ xs, key x ∈ keys) :
    (keys.flatMap fun k => xs.filter fun x => key x = k).Perm xs := by
  induction keys generalizing xs with
  | nil =>
    cases xs with
    | nil => exact .nil
    | cons x xs => exact absurd (all x List.mem_cons_self) List.not_mem_nil
  | cons k keys ih =>
    obtain ⟨fresh, distinct⟩ := List.nodup_cons.mp distinct
    have rest : (keys.flatMap fun k' => xs.filter fun x => key x = k') =
        keys.flatMap fun k' => (xs.filter fun x => ¬key x = k).filter fun x => key x = k' := by
      refine List.flatMap_congr fun k' inside => ?_
      rw [List.filter_filter]
      refine List.filter_congr fun x _ => ?_
      have other : key x = k' → key x ≠ k := fun eq eq' => fresh (eq' ▸ eq ▸ inside)
      by_cases eq : key x = k' <;> simp [eq]
      exact fun eq' => other eq (eq.trans eq')
    have split := List.filter_append_perm (fun x => decide (key x = k)) xs
    rw [List.flatMap_cons, rest]
    refine .trans (.append_left _ (ih _ distinct fun x inside => ?_)) (by simpa using split)
    obtain ⟨inside, other⟩ := List.mem_filter.mp inside
    exact (List.mem_cons.mp (all x inside)).resolve_left (by simpa using other)

variable (le : κ → κ → Bool) (key : α → κ)

theorem groups_perm (xs : List α) : ((groups le key xs).flatMap Prod.snd).Perm xs := by
  rw [groups, List.flatMap_map]
  refine perm_flatMap_filter key _ xs ?_ fun x inside => ?_
  · exact (List.perm_insertionSort _ _).nodup_iff.mpr (List.nodup_dedup _)
  · rw [List.mem_insertionSort, List.mem_dedup]
    exact List.mem_map_of_mem inside

theorem mem_groups {group : List α} (inside : (k, group) ∈ groups le key xs) :
    group = xs.filter fun x => key x = k := by
  obtain ⟨k', _, eq⟩ := List.mem_map.mp inside
  cases eq
  rfl

theorem exists_group (inside : x ∈ xs) :
    (key x, xs.filter fun y => key y = key x) ∈ groups le key xs := by
  refine List.mem_map.mpr ⟨key x, ?_, rfl⟩
  rw [List.mem_insertionSort, List.mem_dedup]
  exact List.mem_map_of_mem inside

/-! ## Batches -/

variable (address : α → ℕ) (cut : κ → List α → List (List α))

/-- `sort_by_key`, which is stable. -/
def sortByKey (xs : List α) : List α := xs.insertionSort fun x y => address x ≤ address y

/-- Group, sort, cut. -/
def batches (xs : List α) : List (κ × List α) :=
  (groups le key xs).flatMap fun g => (cut g.1 (sortByKey address g.2)).map (g.1, ·)

theorem sortByKey_perm (xs : List α) : (sortByKey address xs).Perm xs :=
  List.perm_insertionSort _ _

theorem sortByKey_sorted (xs : List α) :
    (sortByKey address xs).Pairwise fun x y => address x ≤ address y := by
  have : Std.Total fun x y : α => address x ≤ address y := ⟨fun x y => Nat.le_total _ _⟩
  have : IsTrans α fun x y => address x ≤ address y := ⟨fun _ _ _ => Nat.le_trans⟩
  exact List.pairwise_insertionSort _ xs

variable {le key address cut}

/-- All the runs of a batch, one behind the other, are its sorted groups. -/
theorem flatMap_batches (whole : ∀ k xs, (cut k xs).flatten = xs) (xs : List α) :
    (batches le key address cut xs).flatMap Prod.snd =
      (groups le key xs).flatMap fun g => sortByKey address g.2 := by
  rw [batches, List.flatMap_assoc]
  refine List.flatMap_congr fun g _ => ?_
  rw [List.flatMap_map]
  exact List.flatMap_id.trans (whole _ _)

/-- All the runs of a batch together are a permutation of it. -/
theorem batches_perm (whole : ∀ k xs, (cut k xs).flatten = xs) (xs : List α) :
    ((batches le key address cut xs).flatMap Prod.snd).Perm xs := by
  rw [flatMap_batches whole]
  refine .trans ?_ (groups_perm le key xs)
  exact List.Perm.flatMap_left _ fun g _ => sortByKey_perm address g.2

theorem mem_batches :
    (k, run) ∈ batches le key address cut xs ↔
      ∃ group, (k, group) ∈ groups le key xs ∧ run ∈ cut k (sortByKey address group) := by
  simp only [batches, List.mem_flatMap, List.mem_map, Prod.exists, Prod.mk.injEq]
  constructor
  · rintro ⟨k', group, here, run', inside, rfl, rfl⟩
    exact ⟨group, here, inside⟩
  · rintro ⟨group, here, inside⟩
    exact ⟨k, group, here, run, inside, rfl, rfl⟩

/-- The key of a run is that of some entry. -/
theorem exists_of_mem_batches (inside : (k, run) ∈ batches le key address cut xs) :
    ∃ x ∈ xs, key x = k := by
  obtain ⟨group, grouped, _⟩ := mem_batches.mp inside
  obtain ⟨k', here, eq⟩ := List.mem_map.mp grouped
  cases eq
  rw [List.mem_insertionSort, List.mem_dedup] at here
  exact List.mem_map.mp here

/-- The entries of a run have its key. -/
theorem key_of_mem_batches (whole : ∀ k xs, (cut k xs).flatten = xs)
    (inside : (k, run) ∈ batches le key address cut xs) (here : x ∈ run) : x ∈ xs ∧ key x = k := by
  obtain ⟨group, grouped, cutOff⟩ := mem_batches.mp inside
  have sorted : x ∈ sortByKey address group := by
    rw [← whole k (sortByKey address group)]
    exact List.mem_flatten.mpr ⟨run, cutOff, here⟩
  rw [(sortByKey_perm address group).mem_iff, mem_groups le key grouped] at sorted
  simpa using List.mem_filter.mp sorted

end

/-- In a list that is sorted by number, two numbers that follow each other stand next to
each other somewhere. -/
theorem exists_consecutive (number : α → ℕ) {xs : List α}
    (sorted : xs.Pairwise fun x y => number x ≤ number y) {y : α} (x_mem : x ∈ xs)
    (y_mem : y ∈ xs) (next : number x + 1 = number y) :
    ∃ front x' y' back, xs = front ++ x' :: y' :: back ∧ number x' = number x ∧
      number y' = number y := by
  induction xs generalizing x with
  | nil => cases x_mem
  | cons a xs ih =>
    obtain ⟨above, rest_sorted⟩ := List.pairwise_cons.mp sorted
    have y_later : y ∈ xs := by
      rcases List.mem_cons.mp y_mem with rfl | later
      · rcases List.mem_cons.mp x_mem with rfl | x_later
        · omega
        · have le := above x x_later
          omega
      · exact later
    have found : ∀ x, x ∈ xs → number x + 1 = number y →
        ∃ front x' y' back, a :: xs = front ++ x' :: y' :: back ∧ number x' = number x ∧
          number y' = number y := by
      intro x later next
      obtain ⟨front, x', y', back, eq, x_eq, y_eq⟩ := ih rest_sorted later y_later next
      exact ⟨a :: front, x', y', back, by rw [eq]; rfl, x_eq, y_eq⟩
    rcases List.mem_cons.mp x_mem with rfl | later
    · cases xs with
      | nil => cases y_later
      | cons b xs =>
        have low := above b List.mem_cons_self
        have high : number b ≤ number y := by
          rcases List.mem_cons.mp y_later with rfl | y_later
          · exact Nat.le_refl _
          · exact (List.pairwise_cons.mp rest_sorted).1 y y_later
        by_cases same : number b = number x
        · obtain ⟨front, x', y', back, eq, x_eq, y_eq⟩ :=
            found b List.mem_cons_self (by omega)
          exact ⟨front, x', y', back, eq, x_eq.trans same, y_eq⟩
        · exact ⟨[], x, b, xs, rfl, rfl, by omega⟩
    · exact found x later next

/-! ## Pieces -/

section

variable {pieces : List (κ × List α)} {xs : List α} (address : α → ℕ)

/-- If every piece gives one thing for each of its entries, then all of them together do. -/
theorem flatMap_perm_map (whole : (pieces.flatMap Prod.snd).Perm xs) {f : κ × List α → List β}
    {g : α → β} (each : ∀ c ∈ pieces, f c = c.2.map g) : (pieces.flatMap f).Perm (xs.map g) := by
  rw [List.flatMap_congr each, ← List.map_flatMap]
  exact whole.map g

/-- The entries of all pieces, each with the address at which its piece starts. -/
def withFirst (pieces : List (κ × List α)) : List (α × ℕ) :=
  pieces.flatMap fun c => c.2.map (·, (c.2.head?.map address).getD 0)

theorem withFirst_perm (whole : (pieces.flatMap Prod.snd).Perm xs) :
    ((withFirst address pieces).map Prod.fst).Perm xs := by
  refine .trans ?_ whole
  simp [withFirst, List.map_flatMap, Function.comp_def]

theorem mem_withFirst {start : ℕ} :
    (x, start) ∈ withFirst address pieces ↔
      ∃ k first rest, (k, first :: rest) ∈ pieces ∧ x ∈ first :: rest ∧ start = address first := by
  constructor
  · intro inside
    obtain ⟨⟨k, piece⟩, here, there⟩ := List.mem_flatMap.mp inside
    obtain ⟨_, x_mem, eq⟩ := List.mem_map.mp there
    cases eq
    cases piece with
    | nil => cases x_mem
    | cons first rest => exact ⟨k, first, rest, here, x_mem, rfl⟩
  · rintro ⟨k, first, rest, here, x_mem, rfl⟩
    exact List.mem_flatMap.mpr ⟨_, here, List.mem_map_of_mem x_mem⟩

theorem head_le_of_sorted {address : α → ℕ} {first : α} {rest : List α}
    (sorted : (first :: rest).Pairwise fun x y => address x ≤ address y)
    (here : x ∈ first :: rest) : address first ≤ address x := by
  rcases List.mem_cons.mp here with rfl | later
  · exact Nat.le_refl _
  · exact (List.pairwise_cons.mp sorted).1 x later

/-- A part of a sequence of words that are written one behind the other. -/
theorem slice_flatMap_range {f : ℕ → List β} {size : ℕ} (sized : ∀ i, (f i).length = size)
    {off width n : ℕ} (inside : off + width ≤ n) :
    (((List.range n).flatMap f).drop (off * size)).take (width * size) =
      (List.range width).flatMap fun i => f (off + i) := by
  obtain ⟨rest, rfl⟩ := Nat.exists_eq_add_of_le inside
  rw [List.range_add, List.range_add, List.flatMap_append, List.flatMap_append, List.append_assoc,
    List.drop_left' (by simp [sized]), List.take_left' (by simp [sized, Function.comp_def]),
    List.flatMap_map]

end

/-! ## The furthest end -/

theorem le_foldl_max (xs : List Nat) (start : Nat) :
    start ≤ xs.foldl max start ∧ ∀ x ∈ xs, x ≤ xs.foldl max start := by
  induction xs generalizing start with
  | nil => simp
  | cons y xs ih =>
    obtain ⟨le, all⟩ := ih (max start y)
    rw [List.foldl_cons]
    refine ⟨by omega, fun x inside => ?_⟩
    rcases List.mem_cons.mp inside with rfl | later
    · omega
    · exact all x later

theorem foldl_max_mem (xs : List Nat) (start : Nat) :
    xs.foldl max start = start ∨ xs.foldl max start ∈ xs := by
  induction xs generalizing start with
  | nil => exact .inl rfl
  | cons y xs ih =>
    rw [List.foldl_cons]
    rcases ih (max start y) with eq | inside
    · rw [eq]
      rcases Nat.le_total start y with le | le
      · exact .inr (by simp [Nat.max_eq_right le])
      · exact .inl (Nat.max_eq_left le)
    · exact .inr (List.mem_cons_of_mem y inside)

/-- One of the entries has the largest number. -/
theorem exists_max (number : α → ℕ) (xs : List α) (nonempty : xs ≠ []) :
    ∃ x ∈ xs, ∀ y ∈ xs, number y ≤ number x := by
  induction xs with
  | nil => exact absurd rfl nonempty
  | cons x xs ih =>
    by_cases single : xs = []
    · subst single
      exact ⟨x, by simp, by simp⟩
    · obtain ⟨y, inside, largest⟩ := ih single
      rcases Nat.le_total (number x) (number y) with le | le
      · refine ⟨y, List.mem_cons_of_mem x inside, fun z here => ?_⟩
        rcases List.mem_cons.mp here with rfl | later
        · exact le
        · exact largest z later
      · refine ⟨x, List.mem_cons_self, fun z here => ?_⟩
        rcases List.mem_cons.mp here with rfl | later
        · exact Nat.le_refl _
        · exact (largest z later).trans le

/-! ## Answers -/

/-- Answers that are lost are missed: if every answer is the right one, or no
value where the right one is a value, then the answers are the right ones as a
bag only if each of them is. -/
theorem eq_of_perm_of_lost (value : β → Bool) (answer single : α → β) (xs : List α)
    (lost : ∀ x ∈ xs, answer x = single x ∨ (value (answer x) = false ∧ value (single x) = true))
    (perm : (xs.map answer).Perm (xs.map single)) : ∀ x ∈ xs, answer x = single x := by
  have fewer : ∀ ys : List α, (∀ x ∈ ys, x ∈ xs) →
      (ys.map answer).countP value ≤ (ys.map single).countP value ∧
        ((ys.map answer).countP value = (ys.map single).countP value →
          ∀ x ∈ ys, answer x = single x) := by
    intro ys
    induction ys with
    | nil => simp
    | cons y ys ih =>
      intro inside
      obtain ⟨le, eq⟩ := ih fun x here => inside x (List.mem_cons_of_mem y here)
      simp only [List.map_cons, List.countP_cons]
      rcases lost y (inside y List.mem_cons_self) with right | ⟨no, yes⟩
      · rw [right]
        refine ⟨by omega, fun same x here => ?_⟩
        rcases List.mem_cons.mp here with rfl | later
        · exact right
        · exact eq (by omega) x later
      · rw [no, yes]
        simp only [Bool.false_eq_true, if_false, if_true]
        exact ⟨by omega, fun same => by omega⟩
  exact (fewer xs fun _ => id).2 (perm.countP_eq value)

/-- If every entry is answered with what stands at or before its own place, and
the answers are right for every memory, then every entry is answered with what
stands at its own place. -/
theorem perm_places (id own seen : α → ℕ) (xs : List α) (before : ∀ x ∈ xs, seen x ≤ own x)
    (perm : ∀ mem : ℕ → Bool,
      (xs.map fun x => (id x, mem (seen x))).Perm (xs.map fun x => (id x, mem (own x)))) :
    ∀ x ∈ xs, seen x = own x := by
  intro x inside
  by_contra other
  -- in the memory that is set from the place of `x` on, `x` gets a wrong answer
  -- and no entry gets a wrong one that makes up for it
  let mem : ℕ → Bool := fun n => decide (own x ≤ n)
  have lost : ∀ y ∈ xs, (id y, mem (seen y)) = (id y, mem (own y)) ∨
      ((id y, mem (seen y)).2 = false ∧ (id y, mem (own y)).2 = true) := by
    intro y here
    have le := before y here
    by_cases up : own x ≤ seen y
    · left
      have up' : own x ≤ own y := by omega
      simp [mem, up, up']
    · by_cases up' : own x ≤ own y
      · right
        simp [mem, up, up']
      · left
        simp [mem, up, up']
  have right := eq_of_perm_of_lost Prod.snd _ _ xs lost (perm mem) x inside
  have le := before x inside
  have down : ¬own x ≤ seen x := by omega
  simp [mem, down] at right

end ForgeLink.Lib
