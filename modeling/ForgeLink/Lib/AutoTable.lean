import Mathlib.Data.List.Nodup

/-!
# Numbered tables

A table that numbers its rows itself, every new row with a larger number than
any row ever had, and with one column in which no value is repeated.  These are
the `INTEGER PRIMARY KEY AUTOINCREMENT` and the `UNIQUE` of an SQL table.  The
rows are kept in the order of their numbers.

`last` is the largest number that was ever given out.  A new row may skip
numbers after it, since a failed insert may use one up.
-/

namespace ForgeLink.Lib

/-- A table with numbered rows. -/
structure AutoTable {ρ κ : Type} (seq : ρ → Int) (unique : ρ → κ) where
  /-- The rows, by number. -/
  rows : List ρ
  /-- The largest number that was given out. -/
  last : Int
  sorted : rows.Pairwise fun a b => seq a < seq b
  distinct : (rows.map unique).Nodup
  bounded : ∀ r ∈ rows, seq r ≤ last
  nonneg : 0 ≤ last

namespace AutoTable

variable {ρ κ : Type} {seq : ρ → Int} {unique : ρ → κ} {t t' : AutoTable seq unique}

/-! ## Statements -/

/-- The table without rows. -/
def empty : AutoTable seq unique where
  rows := []
  last := 0
  sorted := .nil
  distinct := List.nodup_nil
  bounded _ h := by cases h
  nonneg := Int.le_refl 0

/-- `DELETE` of the rows that fail a test. -/
def filter (t : AutoTable seq unique) (keep : ρ → Bool) : AutoTable seq unique where
  rows := t.rows.filter keep
  last := t.last
  sorted := t.sorted.filter keep
  distinct := t.distinct.sublist (List.filter_sublist.map unique)
  bounded r h := t.bounded r (List.mem_of_mem_filter h)
  nonneg := t.nonneg

/-- A change of columns other than the number and the unique one. -/
structure Touch (seq : ρ → Int) (unique : ρ → κ) where
  apply : ρ → ρ
  seq_apply : ∀ r, seq (apply r) = seq r
  unique_apply : ∀ r, unique (apply r) = unique r

/-- A change of the row with a given number only. -/
def Touch.only (f : Touch seq unique) (n : Int) : Touch seq unique where
  apply r := if seq r = n then f.apply r else r
  seq_apply r := by split <;> simp [f.seq_apply]
  unique_apply r := by split <;> simp [f.unique_apply]

/-- `UPDATE` of all rows. -/
def touch (t : AutoTable seq unique) (f : Touch seq unique) : AutoTable seq unique where
  rows := t.rows.map f.apply
  last := t.last
  sorted := by
    rw [List.pairwise_map]
    exact t.sorted.imp fun {a b} h => by rwa [f.seq_apply, f.seq_apply]
  distinct := by
    rw [List.map_map]
    exact (List.map_congr_left fun r _ => f.unique_apply r) ▸ t.distinct
  bounded r h := by
    obtain ⟨r₀, inside, rfl⟩ := List.mem_map.mp h
    rw [f.seq_apply]
    exact t.bounded r₀ inside
  nonneg := t.nonneg

/-- `MAX` of the numbers, or 0, is at most the largest number given out. -/
theorem getLast_le (t : AutoTable seq unique) : (t.rows.getLast?.map seq).getD 0 ≤ t.last := by
  cases last : t.rows.getLast? with
  | none => exact t.nonneg
  | some r => exact t.bounded r (List.mem_of_getLast? last)

theorem le_getLast {r : ρ} (inside : r ∈ t.rows) : seq r ≤ (t.rows.getLast?.map seq).getD 0 := by
  cases last : t.rows.getLast? with
  | none =>
    rw [List.getLast?_eq_none_iff.mp last] at inside
    cases inside
  | some r' =>
    obtain ⟨before, eq⟩ := List.getLast?_eq_some_iff.mp last
    have sorted := t.sorted
    rw [eq, List.pairwise_append] at sorted
    rw [eq, List.mem_append, List.mem_singleton] at inside
    rcases inside with inside | rfl
    · exact Int.le_of_lt (sorted.2.2 r inside r' (List.mem_singleton_self r'))
    · exact Int.le_refl _

/-- A row that still lacks its number. -/
structure Draft (seq : ρ → Int) where
  row : Int → ρ
  seq_row : ∀ n, seq (row n) = n

/-- The number the next row gets if `gap` numbers are skipped. -/
def number (t : AutoTable seq unique) (gap : Nat) : Int := t.last + 1 + gap

theorem last_lt_number (t : AutoTable seq unique) (gap : Nat) : t.last < t.number gap := by
  rw [number]
  omega

/-- `INSERT`, for a draft whose unique value the table does not have yet. -/
def append (t : AutoTable seq unique) (d : Draft seq) (gap : Nat)
    (fresh : unique (d.row (t.number gap)) ∉ t.rows.map unique) : AutoTable seq unique where
  rows := t.rows ++ [d.row (t.number gap)]
  last := t.number gap
  sorted := by
    refine List.pairwise_append.mpr ⟨t.sorted, List.pairwise_singleton _ _, fun a ha b hb => ?_⟩
    rw [List.mem_singleton.mp hb, d.seq_row]
    exact Int.lt_of_le_of_lt (t.bounded a ha) (t.last_lt_number gap)
  distinct := by
    rw [List.map_append, List.nodup_append_comm]
    exact List.nodup_cons.mpr ⟨fresh, t.distinct⟩
  bounded r h := by
    rcases List.mem_append.mp h with before | new
    · exact Int.le_of_lt (Int.lt_of_le_of_lt (t.bounded r before) (t.last_lt_number gap))
    · obtain rfl := List.mem_singleton.mp new
      exact Int.le_of_eq (d.seq_row _)
  nonneg := Int.le_of_lt (Int.lt_of_le_of_lt t.nonneg (t.last_lt_number gap))

/-- `INSERT`: it fails if the unique value is there already. -/
def insert [DecidableEq κ] (t : AutoTable seq unique) (d : Draft seq) (gap : Nat) :
    Option (AutoTable seq unique) :=
  if fresh : unique (d.row (t.number gap)) ∉ t.rows.map unique then some (t.append d gap fresh)
  else none

/-- `SELECT … WHERE seq > above ORDER BY seq LIMIT count`. -/
def page (t : AutoTable seq unique) (above : Int) (count : Nat) : List ρ :=
  (t.rows.filter fun r => above < seq r).take count

/-! ## Rows -/

@[simp] theorem touch_rows (f : Touch seq unique) : (t.touch f).rows = t.rows.map f.apply := rfl

theorem insert_eq_some [DecidableEq κ] {d : Draft seq} {gap : Nat}
    (h : t.insert d gap = some t') :
    t'.rows = t.rows ++ [d.row (t.number gap)] ∧ t'.last = t.number gap ∧
      unique (d.row (t.number gap)) ∉ t.rows.map unique := by
  rw [insert] at h
  split at h
  next fresh =>
    cases h
    exact ⟨rfl, rfl, fresh⟩
  · cases h

/-- A number names one row. -/
theorem eq_of_seq {a b : ρ} (ha : a ∈ t.rows) (hb : b ∈ t.rows) (same : seq a = seq b) :
    a = b := by
  have numbers : (t.rows.map seq).Nodup := by
    rw [List.Nodup, List.pairwise_map]
    exact t.sorted.imp Int.ne_of_lt
  exact List.inj_on_of_nodup_map numbers ha hb same

/-! ## Pages -/

theorem mem_page {above : Int} {count : Nat} {r : ρ} (h : r ∈ t.page above count) :
    r ∈ t.rows ∧ above < seq r := by
  have inside := List.mem_of_mem_take h
  rw [List.mem_filter, decide_eq_true_eq] at inside
  exact inside

theorem page_length_le (above : Int) (count : Nat) : (t.page above count).length ≤ count :=
  List.length_take_le _ _

theorem page_sorted (above : Int) (count : Nat) :
    (t.page above count).Pairwise fun a b => seq a < seq b :=
  (t.sorted.filter _).sublist (List.take_sublist _ _)

/-- A row above the mark that is not on the page comes after a full page. -/
theorem page_before {above : Int} {count : Nat} {r : ρ} (inside : r ∈ t.rows)
    (high : above < seq r) (left : r ∉ t.page above count) :
    count ≤ (t.page above count).length ∧ ∀ r' ∈ t.page above count, seq r' < seq r := by
  have split := List.take_append_drop count (t.rows.filter fun r => above < seq r)
  have sorted := t.sorted.filter fun r => above < seq r
  have here : r ∈ t.rows.filter fun r => above < seq r := by simp [inside, high]
  rw [← split] at here sorted
  rcases List.mem_append.mp here with taken | dropped
  · exact absurd taken left
  · refine ⟨?_, fun r' taken => (List.pairwise_append.mp sorted).2.2 r' taken r dropped⟩
    have some := List.length_pos_of_mem dropped
    rw [List.length_drop] at some
    rw [page, List.length_take]
    omega

end AutoTable

end ForgeLink.Lib
