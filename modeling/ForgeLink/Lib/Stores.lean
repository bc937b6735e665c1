import Mathlib.Algebra.Ring.Nat
import Mathlib.Data.List.Chain
import Mathlib.Data.List.Perm.Basic

/-!
# Stores that follow each other

`storeAt start values` puts values into the places from `start` on.  Entries are
*in a row* if each one starts where the one before ends; storing them one after
the other is one store of their values joined together (`InRow.foldl_storeAt`),
and the row covers just the places of its entries (`InRow.covers_iff`).
-/

namespace ForgeLink.Lib

variable {α β κ σ π : Type*}
variable {place width : α → ℕ} {es : List α} {start : ℕ}

/-- The contents after values are put into the places from `start` on. -/
def storeAt (start : ℕ) (values : List β) (contents : ℕ → β) (n : ℕ) : β :=
  if start ≤ n then values.getD (n - start) (contents n) else contents n

theorem storeAt_nil (start : ℕ) (contents : ℕ → β) : storeAt start [] contents = contents := by
  funext n
  simp [storeAt]

theorem storeAt_append (start : ℕ) (us vs : List β) (contents : ℕ → β) :
    storeAt start (us ++ vs) contents =
      storeAt (start + us.length) vs (storeAt start us contents) := by
  funext n
  simp only [storeAt, List.getD_eq_getElem?_getD]
  by_cases low : n < start + us.length
  · rw [if_neg (show ¬start + us.length ≤ n by omega)]
    split
    · rw [List.getElem?_append_left (by omega)]
    · rfl
  · rw [if_pos (show start ≤ n by omega), if_pos (show start + us.length ≤ n by omega),
      if_pos (show start ≤ n by omega), List.getElem?_append_right (by omega),
      List.getElem?_eq_none (l := us) (by omega), Option.getD_none, Nat.sub_add_eq]

theorem storeAt_range (start count : ℕ) (value : ℕ → β) (contents : ℕ → β) (n : ℕ) :
    storeAt start ((List.range count).map value) contents n =
      if start ≤ n ∧ n < start + count then value (n - start) else contents n := by
  simp only [storeAt, List.getD_eq_getElem?_getD, List.getElem?_map]
  by_cases inside : start ≤ n ∧ n < start + count
  · rw [if_pos inside, if_pos inside.1, List.getElem?_range (by omega)]
    rfl
  · rw [if_neg inside]
    split
    · rw [List.getElem?_eq_none (by simp; omega)]
      rfl
    · rfl

theorem storeAt_eq_ite (start : ℕ) (values : List β) (contents : ℕ → β) (default : β) (n : ℕ) :
    storeAt start values contents n =
      if start ≤ n ∧ n < start + values.length then values.getD (n - start) default
      else contents n := by
  simp only [storeAt, List.getD_eq_getElem?_getD]
  by_cases above : start ≤ n
  · by_cases below : n < start + values.length
    · rw [if_pos above, if_pos ⟨above, below⟩, List.getElem?_eq_getElem (by omega)]
      rfl
    · rw [if_pos above, if_neg fun h => below h.2, List.getElem?_eq_none (by omega)]
      rfl
  · rw [if_neg above, if_neg fun h => above h.1]

/-- The values that pairs of elements stand for. -/
def pairs (f : List α → β) (count : ℕ) (data : List α) : List β :=
  (List.range count).map fun i => f ((data.drop (2 * i)).take 2)

theorem pairs_append (f : List α → β) {data : List α} {count : ℕ}
    (len : data.length = 2 * count) (count' : ℕ) (data' : List α) :
    pairs f (count + count') (data ++ data') = pairs f count data ++ pairs f count' data' := by
  rw [pairs, List.range_add, List.map_append, List.map_map]
  refine congrArg₂ (· ++ ·) (List.map_congr_left fun i inside => ?_)
    (List.map_congr_left fun i _ => ?_)
  · have here := List.mem_range.mp inside
    rw [List.drop_append_of_le_length (by omega),
      List.take_append_of_le_length (by rw [List.length_drop]; omega)]
  · simp only [Function.comp]
    rw [show 2 * (count + i) = data.length + 2 * i by omega, List.drop_append,
      List.drop_eq_nil_of_le (Nat.le_add_right ..), Nat.add_sub_cancel_left, List.nil_append]

/-- Entries that follow each other exactly, from `start` on. -/
def InRow (place width : α → ℕ) : ℕ → List α → Prop
  | _, [] => True
  | start, e :: es => place e = start ∧ InRow place width (start + width e) es

theorem inRow_of_isChain {e : α}
    (chain : List.IsChain (fun x y => place x + width x = place y) (e :: es)) :
    InRow place width (place e) (e :: es) := by
  induction es generalizing e with
  | nil => exact ⟨rfl, trivial⟩
  | cons e' es ih =>
    obtain ⟨next, rest⟩ := List.isChain_cons_cons.mp chain
    refine ⟨rfl, ?_⟩
    rw [next]
    exact ih rest

theorem InRow.foldl_storeAt {values : α → List β}
    (row : InRow place (fun e => (values e).length) start es) (contents : ℕ → β) :
    es.foldl (fun c e => storeAt (place e) (values e) c) contents =
      storeAt start (es.flatMap values) contents := by
  induction es generalizing start contents with
  | nil => exact (storeAt_nil start contents).symm
  | cons e es ih =>
    obtain ⟨rfl, rest⟩ := row
    rw [List.foldl_cons, ih rest, List.flatMap_cons, storeAt_append]

theorem InRow.covers_iff (row : InRow place width start es) (n : ℕ) :
    start ≤ n ∧ n < start + (es.map width).sum ↔
      ∃ e ∈ es, place e ≤ n ∧ n < place e + width e := by
  induction es generalizing start with
  | nil =>
    simp only [List.map_nil, List.sum_nil, List.not_mem_nil, false_and, exists_false, iff_false]
    omega
  | cons e es ih =>
    obtain ⟨rfl, rest⟩ := row
    simp only [List.map_cons, List.sum_cons, List.mem_cons, exists_eq_or_imp, ← ih rest]
    omega

theorem InRow.last_end {e : α} (row : InRow place width start (es ++ [e])) :
    place e + width e = start + ((es ++ [e]).map width).sum := by
  induction es generalizing start with
  | nil =>
    obtain ⟨rfl, _⟩ := row
    simp
  | cons x es ih =>
    obtain ⟨rfl, rest⟩ := row
    rw [ih rest, List.cons_append, List.map_cons, List.sum_cons, Nat.add_assoc]

/-- If the packet of every chunk does what its entries do one by one, the packets do what all
the entries do one by one. -/
theorem foldl_packets {perform : σ → π → σ} {store : σ → α → σ} {emit : κ × List α → π}
    {chunks : List (κ × List α)}
    (each : ∀ c ∈ chunks, ∀ s, perform s (emit c) = c.2.foldl store s) (s : σ) :
    (chunks.map emit).foldl perform s = (chunks.flatMap Prod.snd).foldl store s := by
  induction chunks generalizing s with
  | nil => rfl
  | cons c chunks ih =>
    obtain ⟨first, rest⟩ := List.forall_mem_cons.mp each
    rw [List.map_cons, List.foldl_cons, List.flatMap_cons, List.foldl_append, first, ih rest]

/-! ## Admission -/

section

variable {γ : Type*} {entry : α → Option β} {id : α → ℕ} {left : β → ℕ} {right : γ → ℕ}

/-- The outcome for an item: its entry, or an error with its number if it has none. -/
inductive Admits (right : γ → ℕ) (id : ℕ) : Option β → β ⊕ γ → Prop where
  | entry {e : β} : Admits right id (some e) (.inl e)
  | refused {r : γ} : right r = id → Admits right id none (.inr r)

/-- The loop over the items has their entries on the left, and an error for each of the others
on the right. -/
theorem filterMap_of_admits {xs : List α} {ys : List (β ⊕ γ)}
    (each : List.Forall₂ (fun x y => Admits right (id x) (entry x) y) xs ys) :
    ys.filterMap Sum.getLeft? = xs.filterMap entry ∧
      (ys.filterMap Sum.getRight?).map right = (xs.filter fun x => (entry x).isNone).map id := by
  induction each with
  | nil => exact ⟨rfl, rfl⟩
  | @cons x y xs ys first _ ih =>
    generalize own : entry x = e at first
    cases first with
    | entry => simp [List.filterMap_cons, own, ih.1, ih.2]
    | refused number => simp [List.filterMap_cons, own, ih.1, ih.2, number]

/-- Every item has its number in one of the two lists. -/
theorem perm_entries (own : ∀ x e, entry x = some e → left e = id x) (xs : List α) :
    ((xs.filterMap entry).map left ++ (xs.filter fun x => (entry x).isNone).map id).Perm
      (xs.map id) := by
  induction xs with
  | nil => exact .nil
  | cons x xs ih =>
    cases first : entry x with
    | some e =>
      simp only [List.filterMap_cons, first, List.map_cons, List.cons_append, own x e first,
        List.filter_cons_of_neg, Option.isNone_some, Bool.false_eq_true, not_false_eq_true]
      exact ih.cons _
    | none =>
      simp only [List.filterMap_cons, first, Option.isNone_none, List.filter_cons_of_pos,
        List.map_cons]
      exact List.perm_middle.trans (ih.cons _)

/-- The items that some of the entries come from. -/
theorem exists_asked {xs : List α} {chunk : List β} (inside : ∀ e ∈ chunk, e ∈ xs.filterMap entry) :
    ∃ asked : List α, (∀ x ∈ asked, x ∈ xs) ∧
      List.Forall₂ (fun x e => entry x = some e) asked chunk := by
  induction chunk with
  | nil => exact ⟨[], nofun, .nil⟩
  | cons e chunk ih =>
    obtain ⟨first, rest⟩ := List.forall_mem_cons.mp inside
    obtain ⟨x, here, own⟩ := List.mem_filterMap.mp first
    obtain ⟨asked, within, each⟩ := ih rest
    exact ⟨x :: asked, List.forall_mem_cons.mpr ⟨here, within⟩, .cons own each⟩

/-- Entries have the numbers of their items. -/
theorem ids_of_forall₂ (own : ∀ x e, entry x = some e → left e = id x) {asked : List α}
    {chunk : List β} (each : List.Forall₂ (fun x e => entry x = some e) asked chunk) :
    chunk.map left = asked.map id := by
  induction each with
  | nil => rfl
  | cons first _ ih => rw [List.map_cons, List.map_cons, own _ _ first, ih]

end

end ForgeLink.Lib
