import ForgeLink.Lib.Runs
import Mathlib.Algebra.Ring.Nat

/-!
# Arithmetic with overflow checks

A program that is built with overflow checks stops at an addition, a subtraction
or a narrowing cast whose result is not a value of the type.  Here such a program
is a function into `Option`, and `none` is the stop.

The last section is the cutting loop of `runs` with such a test.  If the test looks
at the last entry of the open run only, that entry is always the one before in the
list, so the loop stops exactly if the test of two neighbours does
(`tryRuns_last_isSome`).
-/

namespace ForgeLink.Lib

/-! ## Operations -/

/-- `a + b` in an unsigned type of that many bits. -/
def checkedAdd (bits a b : Nat) : Option Nat := if a + b < 2 ^ bits then some (a + b) else none

/-- `a - b` in an unsigned type. -/
def checkedSub (a b : Nat) : Option Nat := if b ≤ a then some (a - b) else none

/-- A cast that must not lose anything. -/
def checkedCast (bits n : Nat) : Option Nat := if n < 2 ^ bits then some n else none

theorem checkedAdd_of_lt {bits a b : Nat} (small : a + b < 2 ^ bits) :
    checkedAdd bits a b = some (a + b) := if_pos small

theorem isSome_checkedAdd {bits a b : Nat} :
    (checkedAdd bits a b).isSome ↔ a + b < 2 ^ bits := by
  unfold checkedAdd
  split
  next small => simp [small]
  next large => simp [large]

theorem checkedSub_of_le {a b : Nat} (le : b ≤ a) : checkedSub a b = some (a - b) := if_pos le

theorem checkedCast_of_lt {bits n : Nat} (small : n < 2 ^ bits) : checkedCast bits n = some n :=
  if_pos small

/-- The sum that a loop adds up. -/
def checkedSum (bits : Nat) (ns : List Nat) : Option Nat := ns.foldlM (checkedAdd bits) 0

theorem foldlM_checkedAdd {bits start : Nat} {ns : List Nat} (small : start + ns.sum < 2 ^ bits) :
    ns.foldlM (checkedAdd bits) start = some (start + ns.sum) := by
  induction ns generalizing start with
  | nil => rfl
  | cons n ns ih =>
    rw [List.sum_cons] at small ⊢
    rw [List.foldlM_cons, checkedAdd_of_lt (by omega), Option.bind_eq_bind, Option.bind_some,
      ih (by omega), Nat.add_assoc]

theorem checkedSum_of_lt {bits : Nat} {ns : List Nat} (small : ns.sum < 2 ^ bits) :
    checkedSum bits ns = some ns.sum := by
  rw [checkedSum, foldlM_checkedAdd (by omega), Nat.zero_add]

/-! ## Loops -/

section

variable {α β ε : Type}

/-- A loop that ends at the first error, or stops. -/
def tryMapM (f : α → Option (Except ε β)) : List α → Option (Except ε (List β))
  | [] => some (.ok [])
  | x :: xs =>
    match f x with
    | none => none
    | some (.error e) => some (.error e)
    | some (.ok y) => (tryMapM f xs).map (Except.map (y :: ·))

theorem tryMapM_eq {f : α → Option (Except ε β)} {g : α → Except ε β} (same : ∀ x, f x = some (g x))
    (xs : List α) : tryMapM f xs = some (xs.mapM g) := by
  induction xs with
  | nil => rfl
  | cons x xs ih =>
    rw [tryMapM, same, List.mapM_cons]
    cases g x with
    | error e => rfl
    | ok y =>
      rw [ih]
      cases xs.mapM g <;> rfl

theorem mapM_eq_some {f : α → Option β} {g : α → β} {xs : List α}
    (same : ∀ x ∈ xs, f x = some (g x)) : xs.mapM f = some (xs.map g) := by
  induction xs with
  | nil => rfl
  | cons x xs ih =>
    obtain ⟨first, rest⟩ := List.forall_mem_cons.mp same
    rw [List.mapM_cons, first, ih rest]
    rfl

theorem isSome_of_mapM {f : α → Option β} {xs : List α} (all : (xs.mapM f).isSome) :
    ∀ x ∈ xs, (f x).isSome := by
  induction xs with
  | nil => simp
  | cons x xs ih =>
    rw [List.mapM_cons] at all
    cases first : f x with
    | none => simp [first] at all
    | some y =>
      refine List.forall_mem_cons.mpr ⟨by rw [first]; rfl, ih ?_⟩
      cases rest : xs.mapM f with
      | none => simp [first, rest] at all
      | some ys => rfl

end

/-! ## The cutting loop -/

variable {α β : Type*}

theorem isChain_left_iff {P : α → Prop} {xs : List α} :
    List.IsChain (fun x _ => P x) xs ↔ ∀ x ∈ xs.dropLast, P x := by
  induction xs with
  | nil => simp
  | cons x xs ih =>
    cases xs with
    | nil => simp
    | cons y xs => rw [List.isChain_cons_cons, ih, List.dropLast_cons_cons, List.forall_mem_cons]

/-- `runsFrom` with a test that can stop. -/
def tryRunsFrom (joins : List α → α → Option Bool) : List α → List α → Option (List (List α))
  | run, [] => some [run]
  | run, x :: xs =>
    match joins run x with
    | none => none
    | some true => tryRunsFrom joins (run ++ [x]) xs
    | some false => (tryRunsFrom joins [x] xs).map (run :: ·)

/-- `runs` with a test that can stop. -/
def tryRuns (joins : List α → α → Option Bool) : List α → Option (List (List α))
  | [] => some []
  | x :: xs => tryRunsFrom joins [x] xs

/-- A test that looks at the last entry of the run. -/
def byLast (test : α → α → β) (empty : β) (run : List α) (x : α) : β :=
  match run.getLast? with
  | some last => test last x
  | none => empty

theorem byLast_append (test : α → α → β) (empty : β) (run : List α) (last x : α) :
    byLast test empty (run ++ [last]) x = test last x := by
  rw [byLast, List.getLast?_concat]

/-- If the test never stops while the run keeps an invariant, the loop does not. -/
theorem tryRunsFrom_eq {joins : List α → α → Option Bool} {joins' : List α → α → Bool}
    {Inv : List α → Prop} {run xs : List α} (here : Inv run)
    (single : ∀ x ∈ xs, Inv [x])
    (test : ∀ run, Inv run → ∀ x ∈ xs, joins run x = some (joins' run x))
    (grows : ∀ run, Inv run → ∀ x ∈ xs, joins' run x = true → Inv (run ++ [x])) :
    tryRunsFrom joins run xs = some (runsFrom joins' run xs) := by
  induction xs generalizing run with
  | nil => rfl
  | cons x xs ih =>
    have later : ∀ {run}, Inv run → tryRunsFrom joins run xs = some (runsFrom joins' run xs) :=
      fun here => ih here (fun y inside => single y (List.mem_cons_of_mem x inside))
        (fun run here y inside => test run here y (List.mem_cons_of_mem x inside))
        fun run here y inside => grows run here y (List.mem_cons_of_mem x inside)
    rw [tryRunsFrom, runsFrom, test run here x List.mem_cons_self]
    cases joined : joins' run x with
    | true => exact later (grows run here x List.mem_cons_self joined)
    | false =>
      rw [later (single x List.mem_cons_self)]
      rfl

theorem tryRuns_eq {joins : List α → α → Option Bool} {joins' : List α → α → Bool}
    (Inv : List α → Prop) {xs : List α} (single : ∀ x ∈ xs, Inv [x])
    (test : ∀ run, Inv run → ∀ x ∈ xs, joins run x = some (joins' run x))
    (grows : ∀ run, Inv run → ∀ x ∈ xs, joins' run x = true → Inv (run ++ [x])) :
    tryRuns joins xs = some (runs joins' xs) := by
  cases xs with
  | nil => rfl
  | cons x xs =>
    exact tryRunsFrom_eq (single x List.mem_cons_self)
      (fun y inside => single y (List.mem_cons_of_mem x inside))
      (fun run here y inside => test run here y (List.mem_cons_of_mem x inside))
      fun run here y inside => grows run here y (List.mem_cons_of_mem x inside)

section

variable {test : α → α → Option Bool} {test' : α → α → Bool}

theorem tryRunsFrom_byLast (front : List α) {xs : List α} {last : α}
    (each : List.IsChain (fun p x => test p x = some (test' p x)) (last :: xs)) :
    tryRunsFrom (byLast test (some true)) (front ++ [last]) xs =
      some (runsFrom (byLast test' true) (front ++ [last]) xs) := by
  induction xs generalizing front last with
  | nil => rfl
  | cons x xs ih =>
    obtain ⟨first, rest⟩ := List.isChain_cons_cons.mp each
    rw [tryRunsFrom, runsFrom, byLast_append, byLast_append, first]
    cases test' last x with
    | true => exact ih (front ++ [last]) rest
    | false =>
      have single := ih [] rest
      rw [List.nil_append] at single
      rw [single]
      rfl

theorem isChain_of_tryRunsFrom (front : List α) {xs : List α} {last : α}
    (runs : (tryRunsFrom (byLast test (some true)) (front ++ [last]) xs).isSome) :
    List.IsChain (fun p x => (test p x).isSome) (last :: xs) := by
  induction xs generalizing front last with
  | nil => exact .singleton _
  | cons x xs ih =>
    rw [tryRunsFrom, byLast_append] at runs
    cases tested : test last x with
    | none => simp [tested] at runs
    | some joined =>
      refine List.isChain_cons_cons.mpr ⟨by rw [tested]; rfl, ?_⟩
      rw [tested] at runs
      cases joined with
      | true => exact ih (front ++ [last]) runs
      | false =>
        refine ih [] ?_
        rw [List.nil_append]
        simpa using runs

/-- A loop that tests neighbours stops exactly if a test of neighbours does. -/
theorem tryRuns_last_isSome {xs : List α} :
    (tryRuns (byLast test (some true)) xs).isSome ↔
      List.IsChain (fun p x => (test p x).isSome) xs := by
  cases xs with
  | nil => simp [tryRuns]
  | cons x xs =>
    constructor
    · exact isChain_of_tryRunsFrom []
    · intro each
      have same : List.IsChain (fun p x => test p x = some ((test p x).getD false)) (x :: xs) :=
        each.imp fun p x some => by
          cases tested : test p x with
          | none => simp [tested] at some
          | some _ => rfl
      have whole := tryRunsFrom_byLast [] same
      rw [List.nil_append] at whole
      rw [tryRuns, whole]
      rfl

theorem tryRuns_byLast {xs : List α}
    (each : List.IsChain (fun p x => test p x = some (test' p x)) xs) :
    tryRuns (byLast test (some true)) xs = some (runs (byLast test' true) xs) := by
  cases xs with
  | nil => rfl
  | cons x xs => exact tryRunsFrom_byLast [] each

end

end ForgeLink.Lib
