import Mathlib.Data.List.Forall2

/-!
# Weakest preconditions of programs that fail

A program of `EStateM` returns a value or stops with an error, and keeps the
state it has reached in both cases.  `wp m Q E s` says that `m`, run from `s`,
ends in a state with `Q` if it returns and with `E` if it stops.  The rules are
equations, so that a condition is computed through a program by rewriting, and
`wp_mono` puts a specification in the place of a call.

`Fails E x` is what is left of this for a pure computation: whatever error `x`
is, `E` holds of it.  `Ends Q E x` adds what holds of the result.
-/

namespace ForgeLink.Lib

variable {ε σ α β : Type}
variable {m : EStateM ε σ α} {f : β → EStateM ε σ α} {s : σ}

/-! ## Programs with a state -/

/-- `m` from `s` ends with `Q` if it returns, and with `E` if it stops. -/
def wp (m : EStateM ε σ α) (Q : α → σ → Prop) (E : ε → σ → Prop) (s : σ) : Prop :=
  match m s with
  | .ok a t => Q a t
  | .error e t => E e t

section

variable {Q Q' : α → σ → Prop} {E E' : ε → σ → Prop}

@[simp] theorem wp_pure (a : α) : wp (pure a : EStateM ε σ α) Q E s ↔ Q a s := Iff.rfl

@[simp] theorem wp_throw (e : ε) : wp (throw e : EStateM ε σ α) Q E s ↔ E e s := Iff.rfl

@[simp] theorem wp_bind (m : EStateM ε σ β) (f : β → EStateM ε σ α) :
    wp (m >>= f) Q E s ↔ wp m (fun b => wp (f b) Q E) E s := by
  show wp (EStateM.bind m f) Q E s ↔ _
  unfold wp EStateM.bind
  cases m s <;> rfl

@[simp] theorem wp_ite (c : Prop) [Decidable c] (m n : EStateM ε σ α) :
    wp (if c then m else n) Q E s ↔ (c → wp m Q E s) ∧ (¬c → wp n Q E s) := by
  split <;> simp [*]

@[simp] theorem wp_tryCatch (m : EStateM ε σ α) (h : ε → EStateM ε σ α) :
    wp (tryCatch m h) Q E s ↔ wp m Q (fun e => wp (h e) Q E) s := by
  show wp (EStateM.tryCatch m h) Q E s ↔ _
  unfold wp EStateM.tryCatch
  cases m s <;> rfl

/-- A weaker condition holds of the same program. -/
theorem wp_mono (h : wp m Q E s) (returns : ∀ a t, Q a t → Q' a t) (stops : ∀ e t, E e t → E' e t) :
    wp m Q' E' s := by
  unfold wp at h ⊢
  cases run : m s with
  | ok a t =>
    rw [run] at h
    exact returns a t h
  | error e t =>
    rw [run] at h
    exact stops e t h

/-- A call is known by a specification; the rest of the program goes on from there. -/
theorem wp_seq {m : EStateM ε σ β} {R : β → σ → Prop} (h : wp m R E' s)
    (next : ∀ b t, R b t → wp (f b) Q E t) (stops : ∀ e t, E' e t → E e t) : wp (m >>= f) Q E s :=
  (wp_bind m f).mpr (wp_mono h next stops)

end

/-- What a run leaves besides the state. -/
def outcome : EStateM.Result ε σ α → Except ε α
  | .ok a _ => .ok a
  | .error e _ => .error e

/-- `m` from `s` returns, and ends with `Q`. -/
def Returns (m : EStateM ε σ α) (Q : α → σ → Prop) (s : σ) : Prop := wp m Q (fun _ _ => False) s

theorem returns_iff {Q : α → σ → Prop} : Returns m Q s ↔ ∃ a t, m s = .ok a t ∧ Q a t := by
  unfold Returns wp
  cases m s with
  | ok a t => exact ⟨fun h => ⟨a, t, rfl, h⟩, fun ⟨_, _, eq, h⟩ => by cases eq; exact h⟩
  | error e t => exact ⟨False.elim, fun ⟨_, _, eq, _⟩ => nomatch eq⟩

theorem Returns.mono {R Q : α → σ → Prop} (h : Returns m R s) (weaker : ∀ a t, R a t → Q a t) :
    Returns m Q s :=
  wp_mono h weaker fun _ _ stopped => stopped

theorem Returns.run {a : α} (h : Returns m (fun b _ => b = a) s) : ∃ t, m s = .ok a t := by
  obtain ⟨_, t, run, rfl⟩ := returns_iff.mp h
  exact ⟨t, run⟩

theorem Returns.wp_bind {m : EStateM ε σ β} {R : β → σ → Prop} {Q : α → σ → Prop}
    {E : ε → σ → Prop} (first : Returns m R s) (next : ∀ b t, R b t → wp (f b) Q E t) :
    wp (m >>= f) Q E s :=
  wp_seq first next fun _ _ stopped => stopped.elim

theorem Returns.bind {m : EStateM ε σ β} {R : β → σ → Prop} {Q : α → σ → Prop}
    (first : Returns m R s) (next : ∀ b t, R b t → Returns (f b) Q t) : Returns (m >>= f) Q s :=
  first.wp_bind next

/-! ## Pure computations -/

/-- What returns has passed through its first step. -/
theorem bind_eq_ok {x : Except ε β} {f : β → Except ε α} {a : α} :
    x >>= f = .ok a ↔ ∃ b, x = .ok b ∧ f b = .ok a := by
  cases x with
  | error e => exact ⟨nofun, fun ⟨_, eq, _⟩ => nomatch eq⟩
  | ok b => exact ⟨fun h => ⟨b, rfl, h⟩, fun ⟨_, eq, h⟩ => by cases eq; exact h⟩

/-- Whatever error `x` is, `E` holds of it. -/
def Fails (E : ε → Prop) (x : Except ε α) : Prop := ∀ e, x = .error e → E e

section

variable {E : ε → Prop}

@[simp] theorem fails_ok (a : α) : Fails E (.ok a : Except ε α) := nofun

@[simp] theorem fails_error (e : ε) : Fails E (.error e : Except ε α) ↔ E e := by
  simp [Fails]

@[simp] theorem fails_bind (x : Except ε β) (f : β → Except ε α) :
    Fails E (x >>= f) ↔ Fails E x ∧ ∀ b, x = .ok b → Fails E (f b) := by
  cases x with
  | error e | ok b => simp [bind, Except.bind]

@[simp] theorem fails_ite (c : Prop) [Decidable c] (x y : Except ε α) :
    Fails E (if c then x else y) ↔ (c → Fails E x) ∧ (¬c → Fails E y) := by
  split <;> simp [*]

end

/-- `x` has a result with `Q`, or an error with `E`. -/
def Ends (Q : α → Prop) (E : ε → Prop) : Except ε α → Prop
  | .ok a => Q a
  | .error e => E e

section

variable {Q : α → Prop} {E : ε → Prop}
variable {x : Except ε α}

@[simp] theorem ends_ok (a : α) : Ends Q E (.ok a) ↔ Q a := Iff.rfl

@[simp] theorem ends_pure (a : α) : Ends Q E (pure a) ↔ Q a := Iff.rfl

@[simp] theorem ends_error (e : ε) : Ends Q E (.error e) ↔ E e := Iff.rfl

@[simp] theorem ends_bind (x : Except ε β) (f : β → Except ε α) :
    Ends Q E (x >>= f) ↔ Ends (fun b => Ends Q E (f b)) E x := by
  cases x <;> rfl

@[simp] theorem ends_ite (c : Prop) [Decidable c] (x y : Except ε α) :
    Ends Q E (if c then x else y) ↔ (c → Ends Q E x) ∧ (¬c → Ends Q E y) := by
  split <;> simp [*]

theorem Ends.mono {Q' : α → Prop} (h : Ends Q E x) (weaker : ∀ a, Q a → Q' a) : Ends Q' E x := by
  cases x with
  | ok a => exact weaker a h
  | error e => exact h

theorem Ends.ok {a : α} (h : Ends Q E x) (eq : x = .ok a) : Q a := by
  rwa [eq] at h

theorem Ends.error {e : ε} (h : Ends Q E x) (eq : x = .error e) : E e := by
  rwa [eq] at h

end

variable {xs : List α} {ys : List β} {R : α → β → Prop}

/-- A loop that collects the results of its steps has one result for each. -/
theorem forall₂_of_mapM {f : α → Except ε β} (h : xs.mapM f = .ok ys) :
    List.Forall₂ (fun x y => f x = .ok y) xs ys := by
  induction xs generalizing ys with
  | nil =>
    cases h
    exact .nil
  | cons x xs ih =>
    rw [List.mapM_cons] at h
    obtain ⟨y, first, h⟩ := bind_eq_ok.mp h
    obtain ⟨ys, rest, h⟩ := bind_eq_ok.mp h
    cases h
    exact .cons first (ih rest)

theorem mapM_of_forall₂ {f : α → Except ε β} (h : List.Forall₂ (fun x y => f x = .ok y) xs ys) :
    xs.mapM f = .ok ys := by
  induction h with
  | nil => rfl
  | cons first _ ih => simp [List.mapM_cons, first, ih, bind, Except.bind, pure, Except.pure]

/-- If every step has a result, so has the loop. -/
theorem exists_forall₂ (h : ∀ x ∈ xs, ∃ y, R x y) : ∃ ys, List.Forall₂ R xs ys := by
  induction xs with
  | nil => exact ⟨[], .nil⟩
  | cons x xs ih =>
    obtain ⟨y, first⟩ := h x List.mem_cons_self
    obtain ⟨ys, rest⟩ := ih fun x' later => h x' (List.mem_cons_of_mem x later)
    exact ⟨y :: ys, .cons first rest⟩

theorem exists_left_of_forall₂ (h : List.Forall₂ R xs ys) {y : β} (inside : y ∈ ys) :
    ∃ x ∈ xs, R x y := by
  induction h with
  | nil => cases inside
  | cons related _ ih =>
    rcases List.mem_cons.mp inside with rfl | later
    · exact ⟨_, List.mem_cons_self, related⟩
    · obtain ⟨x, inside, related⟩ := ih later
      exact ⟨x, List.mem_cons_of_mem _ inside, related⟩

theorem exists_right_of_forall₂ (h : List.Forall₂ R xs ys) {x : α} (inside : x ∈ xs) :
    ∃ y ∈ ys, R x y :=
  exists_left_of_forall₂ (R := fun y x => R x y) h.flip inside

theorem forall_mem_iff_of_forall₂ (h : List.Forall₂ R xs ys) {P : α → Prop} {Q : β → Prop}
    (same : ∀ x y, R x y → (P x ↔ Q y)) : (∀ x ∈ xs, P x) ↔ ∀ y ∈ ys, Q y := by
  induction h with
  | nil => simp
  | cons related _ ih => rw [List.forall_mem_cons, List.forall_mem_cons, same _ _ related, ih]

theorem map_of_forall₂ (h : List.Forall₂ R xs ys) {γ : Type*} {f : α → Option γ} {g : β → γ}
    (same : ∀ x y, R x y → f x = some (g y)) : xs.map f = (ys.map g).map some := by
  induction h with
  | nil => rfl
  | cons related _ ih => simp only [List.map_cons, same _ _ related, ih]

/-- A pure computation in a program. -/
@[simp] theorem wp_liftExcept {Q : α → σ → Prop} {E : ε → σ → Prop} (x : Except ε α) :
    wp (liftExcept x) Q E s ↔ (∀ a, x = .ok a → Q a s) ∧ Fails (fun e => E e s) x := by
  cases x with
  | ok a | error e => simp [liftExcept]

end ForgeLink.Lib
