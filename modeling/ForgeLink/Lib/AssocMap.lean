import Mathlib.Algebra.Ring.Nat
import Mathlib.Data.List.Nodup

/-!
# Finite maps with an iteration order

A map is a list of pairs in which no key occurs twice; the list is the order in
which the map is iterated.  Two maps that answer every lookup alike may still
iterate in different orders, so results about a map are stated through `get?`,
and `mem_toList_iff` carries them to the pairs an iteration visits.
-/

namespace ForgeLink.Lib

/-- A finite map, as the list of its pairs. -/
structure AssocMap (κ ν : Type) where
  /-- The pairs, in iteration order. -/
  toList : List (κ × ν)
  /-- No key occurs twice. -/
  nodup : (toList.map Prod.fst).Nodup

namespace AssocMap

variable {κ ν : Type} [DecidableEq κ]
variable {m : AssocMap κ ν} {k : κ} {v : ν}

/-- The map without entries. -/
def empty : AssocMap κ ν := ⟨[], List.nodup_nil⟩

/-- The value at a key. -/
def get? (m : AssocMap κ ν) (k : κ) : Option ν :=
  (m.toList.find? fun p => p.1 = k).map Prod.snd

/-- The entries that satisfy a test, in the same order. -/
def filter (m : AssocMap κ ν) (keep : κ → ν → Bool) : AssocMap κ ν :=
  ⟨m.toList.filter fun p => keep p.1 p.2, m.nodup.sublist (List.filter_sublist.map _)⟩

theorem notMem_filter_ne (m : AssocMap κ ν) (k : κ) :
    k ∉ ((m.filter fun j _ => !decide (j = k)).toList.map Prod.fst) := by
  simp [filter]

/-- Bind a key, replacing its value if it has one. -/
def insert (m : AssocMap κ ν) (k : κ) (v : ν) : AssocMap κ ν :=
  ⟨(k, v) :: (m.filter fun j _ => !decide (j = k)).toList,
    List.nodup_cons.mpr ⟨m.notMem_filter_ne k, (m.filter _).nodup⟩⟩

/-- Unbind a key. -/
def erase (m : AssocMap κ ν) (k : κ) : AssocMap κ ν := m.filter fun j _ => !decide (j = k)

/-- Change every value in place. -/
def mapVal (m : AssocMap κ ν) (f : κ → ν → ν) : AssocMap κ ν :=
  ⟨m.toList.map fun p => (p.1, f p.1 p.2), by
    rw [List.map_map]
    exact m.nodup⟩

/-- Change the value of one key in place, if it is bound. -/
def modify (m : AssocMap κ ν) (k : κ) (f : ν → ν) : AssocMap κ ν :=
  m.mapVal fun j v => if j = k then f v else v

/-- The values, in iteration order. -/
def values (m : AssocMap κ ν) : List ν := m.toList.map Prod.snd

/-- The number of entries. -/
def size (m : AssocMap κ ν) : Nat := m.toList.length

/-! ## Lookups and iteration -/

theorem get?_eq_some_of_mem (h : (k, v) ∈ m.toList) : m.get? k = some v := by
  obtain ⟨l, hn⟩ := m
  unfold get?
  induction l with
  | nil => cases h
  | cons p l ih =>
    simp only [List.map_cons, List.nodup_cons, List.mem_map, not_exists, not_and] at hn
    rw [List.find?_cons]
    split
    next same =>
      rcases List.mem_cons.mp h with rfl | later
      · rfl
      · exact absurd (of_decide_eq_true same).symm (hn.1 _ later)
    next differ =>
      rcases List.mem_cons.mp h with rfl | later
      · simp at differ
      · exact ih hn.2 later

/-- A lookup finds exactly the pairs an iteration visits. -/
theorem mem_toList_iff : (k, v) ∈ m.toList ↔ m.get? k = some v := by
  refine ⟨get?_eq_some_of_mem, fun h => ?_⟩
  obtain ⟨p, found, rfl⟩ := Option.map_eq_some_iff.mp h
  have same : p.1 = k := by simpa using List.find?_some found
  subst same
  exact List.mem_of_find?_eq_some found

theorem get?_eq_none_iff : m.get? k = none ↔ ∀ v, (k, v) ∉ m.toList := by
  rw [Option.eq_none_iff_forall_ne_some]
  exact forall_congr' fun v => not_congr mem_toList_iff.symm

@[simp] theorem get?_empty (k : κ) : (empty : AssocMap κ ν).get? k = none := rfl

theorem get?_of_toList_nil (empty : m.toList = []) (k : κ) : m.get? k = none := by
  rw [get?, empty]
  rfl

@[simp] theorem get?_filter (m : AssocMap κ ν) (keep : κ → ν → Bool) (k : κ) :
    (m.filter keep).get? k = (m.get? k).filter (keep k) := by
  ext v
  rw [← mem_toList_iff, Option.filter_eq_some_iff, ← mem_toList_iff]
  simp [filter]

@[simp] theorem get?_erase (m : AssocMap κ ν) (k j : κ) :
    (m.erase k).get? j = if j = k then none else m.get? j := by
  rw [erase, get?_filter]
  split
  next same => simp [same]
  next differ => cases m.get? j <;> simp [differ, Option.filter]

@[simp] theorem get?_insert (m : AssocMap κ ν) (k j : κ) (v : ν) :
    (m.insert k v).get? j = if j = k then some v else m.get? j := by
  ext w
  rw [← mem_toList_iff]
  split
  next same =>
    subst same
    simp only [insert, List.mem_cons, Prod.mk.injEq, true_and, Option.some.injEq]
    constructor
    · rintro (rfl | inside)
      · rfl
      · exact absurd (List.mem_map_of_mem (f := Prod.fst) inside) (m.notMem_filter_ne j)
    · rintro rfl
      exact .inl rfl
  next differ =>
    rw [← mem_toList_iff]
    simp [insert, filter, differ]

@[simp] theorem get?_mapVal (m : AssocMap κ ν) (f : κ → ν → ν) (k : κ) :
    (m.mapVal f).get? k = (m.get? k).map (f k) := by
  ext w
  rw [← mem_toList_iff, Option.map_eq_some_iff]
  simp only [mapVal, List.mem_map, Prod.mk.injEq]
  constructor
  · rintro ⟨⟨j, v⟩, inside, rfl, rfl⟩
    exact ⟨v, mem_toList_iff.mp inside, rfl⟩
  · rintro ⟨v, found, rfl⟩
    exact ⟨(k, v), mem_toList_iff.mpr found, rfl, rfl⟩

@[simp] theorem get?_modify (m : AssocMap κ ν) (k j : κ) (f : ν → ν) :
    (m.modify k f).get? j = if j = k then (m.get? j).map f else m.get? j := by
  rw [modify, get?_mapVal]
  split <;> simp

/-! ## Sizes -/

omit [DecidableEq κ] in
theorem size_filter_le (m : AssocMap κ ν) (keep : κ → ν → Bool) :
    (m.filter keep).size ≤ m.size := List.length_filter_le _ _

/-- A filter that removes nothing changes no lookup. -/
theorem get?_filter_of_size_eq {keep : κ → ν → Bool} (h : m.size - (m.filter keep).size = 0)
    (k : κ) : (m.filter keep).get? k = m.get? k := by
  have same : (m.toList.filter fun p => keep p.1 p.2).length = m.toList.length := by
    have := m.size_filter_le keep
    simp only [size, filter] at h this
    omega
  have all := List.length_filter_eq_length_iff.mp same
  rw [get?_filter]
  cases found : m.get? k with
  | none => rfl
  | some v => exact if_pos (all _ (mem_toList_iff.mpr found))

/-! ## Sums over the values -/

/-- The sum of a measure of the values. -/
def total (m : AssocMap κ ν) (f : ν → Nat) : Nat := (m.toList.map fun p => f p.2).sum

omit [DecidableEq κ] in
@[simp] theorem total_empty (f : ν → Nat) : (empty : AssocMap κ ν).total f = 0 := rfl

theorem total_insert (m : AssocMap κ ν) (k : κ) (v : ν) (f : ν → Nat) :
    (m.insert k v).total f = f v + (m.erase k).total f := rfl

theorem erase_toList_of_none (none : m.get? k = none) : (m.erase k).toList = m.toList := by
  refine List.filter_eq_self.mpr fun p inside => ?_
  have differ : p.1 ≠ k := by
    rintro rfl
    exact get?_eq_none_iff.mp none p.2 inside
  simp [differ]

theorem total_of_get?_none (none : m.get? k = none) (f : ν → Nat) :
    (m.erase k).total f = m.total f := by
  rw [total, erase_toList_of_none none, total]

/-- A bound key and the other pairs are all pairs. -/
theorem perm_of_get? (found : m.get? k = some v) :
    m.toList.Perm ((k, v) :: (m.erase k).toList) := by
  refine (List.perm_ext_iff_of_nodup m.nodup.of_map ?_).mpr ?_
  · refine List.nodup_cons.mpr ⟨fun inside => ?_, (m.erase k).nodup.of_map⟩
    exact m.notMem_filter_ne k (List.mem_map_of_mem (f := Prod.fst) inside)
  · rintro ⟨j, w⟩
    rw [List.mem_cons, mem_toList_iff, mem_toList_iff, get?_erase, Prod.mk.injEq]
    split
    next same =>
      subst same
      simp [found, eq_comm]
    next differ => simp [differ]

theorem total_of_get? (found : m.get? k = some v) (f : ν → Nat) :
    m.total f = f v + (m.erase k).total f := by
  rw [total, total, ((perm_of_get? found).map _).sum_nat]
  rfl

end AssocMap

end ForgeLink.Lib
