import Mathlib.Logic.Function.Basic

/-!
# Runs of a labelled machine

A *machine* is a partial step function from a state and a label.  All
nondeterminism is in the label: a label names the task that moves and what its
environment answers, and the step function is `none` where the label is not
enabled.

A *run* is a list of labels, each enabled in the state the labels before it
lead to.  Runs carry a side condition `ok` on the state a step is taken from
and on its label, so that one inductive type serves for unrestricted runs
(`Always`) and for runs that keep away from a given branch.  Safety results are
`Run.invariant`: what holds at the start and is kept by every step that meets
the condition holds wherever a run leads.
-/

namespace ForgeLink.Lib

variable {σ α : Type}

/-- A machine: a state, a label, and the next state if the label is enabled. -/
structure Machine (σ α : Type) where
  /-- The step function. -/
  step : σ → α → Option σ

namespace Machine

/-- The side condition of an unrestricted run. -/
def Always (_ : σ) (_ : α) : Prop := True

instance (s : σ) (a : α) : Decidable (Always s a) := .isTrue trivial

/-- `m.Run ok s as t`: the labels `as` lead from `s` to `t`, and every step
meets the side condition in the state it is taken from. -/
inductive Run (m : Machine σ α) (ok : σ → α → Prop) (s : σ) : List α → σ → Prop where
  | nil : Run m ok s [] s
  | snoc {as : List α} {a : α} {t u : σ} :
      Run m ok s as t → ok t a → m.step t a = some u → Run m ok s (as ++ [a]) u

variable {m : Machine σ α} {ok ok' : σ → α → Prop} {s t u : σ} {a : α} {as bs : List α}

/-- What holds at the start and is kept by every step that meets the condition
holds at the end of every run. -/
theorem Run.invariant {P : σ → Prop} (init : P s)
    (keep : ∀ t a u, P t → ok t a → m.step t a = some u → P u)
    (run : m.Run ok s as t) : P t := by
  induction run with
  | nil => exact init
  | snoc _ meets taken ih => exact keep _ _ _ ih meets taken

/-- A run under a condition is a run under every weaker condition. -/
theorem Run.weaken (run : m.Run ok s as t) (imp : ∀ t a, ok t a → ok' t a) :
    m.Run ok' s as t := by
  induction run with
  | nil => exact .nil
  | snoc _ meets taken ih => exact .snoc ih (imp _ _ meets) taken

/-- A condition may be replaced by one that follows from it and an invariant. -/
theorem Run.under {P : σ → Prop} (init : P s)
    (keep : ∀ t a u, P t → ok' t a → m.step t a = some u → P u)
    (imp : ∀ t a, P t → ok t a → ok' t a) (run : m.Run ok s as t) : m.Run ok' s as t := by
  induction run with
  | nil => exact .nil
  | snoc _ meets taken ih => exact .snoc ih (imp _ _ (ih.invariant init keep) meets) taken

theorem Run.cons (meets : ok s a) (taken : m.step s a = some t) (run : m.Run ok t as u) :
    m.Run ok s (a :: as) u := by
  induction run with
  | nil => exact Run.snoc (.nil : m.Run ok s [] s) meets taken
  | snoc _ meets' taken' ih => exact Run.snoc ih meets' taken'

/-- Execute a list of labels, oldest first, as long as every step meets the
condition. -/
def exec (m : Machine σ α) (ok : σ → α → Prop) [∀ s a, Decidable (ok s a)] :
    σ → List α → Option σ
  | s, [] => some s
  | s, a :: as => if ok s a then (m.step s a).bind fun t => m.exec ok t as else none

section
variable [∀ s a, Decidable (ok s a)]

theorem Run.of_exec {as : List α} {s t : σ} (h : m.exec ok s as = some t) : m.Run ok s as t := by
  induction as generalizing s with
  | nil =>
    cases h
    exact .nil
  | cons a as ih =>
    rw [exec, Option.ite_none_right_eq_some] at h
    obtain ⟨meets, taken⟩ := h
    obtain ⟨mid, taken, rest⟩ := Option.bind_eq_some_iff.mp taken
    exact .cons meets taken (ih rest)

/-- A run can be found by executing its labels. -/
theorem Run.of_any (p : σ → Prop) [DecidablePred p] {as : List α} {s : σ}
    (h : (m.exec ok s as).any (fun t => decide (p t)) = true) : ∃ t, m.Run ok s as t ∧ p t := by
  obtain ⟨t, reached, holds⟩ := (Option.any_eq_true _ _).mp h
  exact ⟨t, .of_exec reached, of_decide_eq_true holds⟩

/-- A run that is found, with what holds of every such run. -/
theorem Run.find {p q : σ → Prop} [DecidablePred p] {as : List α} {s : σ}
    (h : (m.exec ok s as).any (fun t => decide (p t)) = true)
    (holds : ∀ t, m.Run ok s as t → p t → q t) : ∃ t, m.Run ok s as t ∧ p t ∧ q t := by
  obtain ⟨t, run, seen⟩ := Run.of_any p h
  exact ⟨t, run, seen, holds t run seen⟩

/-- A run that is found with one more step. -/
theorem Run.find_step {p : σ → Prop} {q r : σ → σ → Prop} [DecidablePred p]
    [∀ t u, Decidable (q t u)] {as : List α} {s : σ}
    (h : (m.exec ok s as).any
      (fun t => decide (p t ∧ (m.step t a).any (fun u => decide (q t u)) = true)) = true)
    (holds : ∀ t u, m.Run ok s as t → p t → m.step t a = some u → q t u → r t u) :
    ∃ t u, m.Run ok s as t ∧ m.step t a = some u ∧ r t u := by
  obtain ⟨t, run, before, found⟩ := Run.of_any _ h
  obtain ⟨u, taken, after⟩ := (Option.any_eq_true _ _).mp found
  exact ⟨t, u, run, taken, holds t u run before taken (of_decide_eq_true after)⟩

end

/-! ## History variables -/

section
variable {η : Type}

/-- The machine with a history, which it does not read. -/
def observed (m : Machine σ α) (next : σ → α → η → η) : Machine (σ × η) α where
  step s a := (m.step s.1 a).map fun t => (t, next s.1 a s.2)

theorem observed_step {next : σ → α → η → η} {s t : σ × η} :
    (m.observed next).step s a = some t ↔ m.step s.1 a = some t.1 ∧ t.2 = next s.1 a s.2 := by
  simp only [observed, Option.map_eq_some_iff]
  constructor
  · rintro ⟨u, taken, rfl⟩
    exact ⟨taken, rfl⟩
  · rintro ⟨taken, eq⟩
    exact ⟨t.1, taken, by rw [← eq]⟩

end

end Machine

end ForgeLink.Lib
