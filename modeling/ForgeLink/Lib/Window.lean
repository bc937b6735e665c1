import Mathlib.Data.List.Sort
import ForgeLink.Lib.AutoTable

/-!
# A bounded window over a numbered table

A reader holds at most `size` rows of a table: rows that *wait* to be taken, in
order, and rows that are *out*.  The other rows stand behind all of these, so
the waiting row with the smallest number is the smallest of all rows that are
not out.  `mark` is a number that no row outside the window falls below; it
says where to go on reading when the window is empty.

`Window` is the invariant, and its lemmas say that taking the first row,
putting a row back, loading a page, adding a new row and deleting rows keep it.
A window is *complete* if it is full or has all the rows (`Complete`).  A new
row may enter only a complete window, since it would overtake the rows outside
otherwise.
-/

namespace ForgeLink.Lib

open AutoTable

variable {ρ κ : Type} {seq : ρ → Int} {unique : ρ → κ}

/-- The window invariant. -/
structure Window (t : AutoTable seq unique) (size : Nat) (waiting out : List ρ) (mark : Int) :
    Prop where
  sorted : waiting.Pairwise fun a b => seq a < seq b
  apart : ∀ a ∈ waiting, ∀ b ∈ out, seq a ≠ seq b
  distinct : out.Pairwise fun a b => seq a ≠ seq b
  small : waiting.length + out.length ≤ size
  waiting_rows : ∀ r ∈ waiting, r ∈ t.rows
  out_rows : ∀ r ∈ out, r ∈ t.rows
  marked : mark ≤ t.last
  behind : ∀ r ∈ t.rows, r ∉ waiting → r ∉ out →
    mark < seq r ∧ (∀ r' ∈ waiting, seq r' < seq r) ∧ ∀ r' ∈ out, seq r' < seq r

/-- The window is full or holds every row. -/
def Complete (t : AutoTable seq unique) (size : Nat) (waiting out : List ρ) : Prop :=
  size ≤ waiting.length + out.length ∨ ∀ r ∈ t.rows, r ∈ waiting ∨ r ∈ out

namespace Window

variable {t t' : AutoTable seq unique} {size : Nat} {waiting out rest : List ρ} {mark : Int} {r : ρ}

/-! ## Reading -/

/-- The first waiting row is the smallest row that is not out. -/
theorem front_least (h : Window t size (r :: rest) out mark) :
    r ∈ t.rows ∧ r ∉ out ∧ ∀ r' ∈ t.rows, r' ∉ out → seq r ≤ seq r' := by
  refine ⟨h.waiting_rows r List.mem_cons_self, fun inside => ?_, fun r' inside notOut => ?_⟩
  · exact h.apart r List.mem_cons_self r inside rfl
  · by_cases waits : r' ∈ r :: rest
    · rcases List.mem_cons.mp waits with rfl | later
      · exact Int.le_refl _
      · exact Int.le_of_lt ((List.pairwise_cons.mp h.sorted).1 r' later)
    · exact Int.le_of_lt ((h.behind r' inside waits notOut).2.1 r List.mem_cons_self)

/-- A complete window in which nothing waits is full of rows that are out, or
there are no other rows. -/
theorem nothing_waits (complete : Complete t size [] out) :
    size ≤ out.length ∨ ∀ r ∈ t.rows, r ∈ out := by
  rcases complete with full | all
  · exact .inl (by simpa using full)
  · exact .inr fun r inside => by simpa using all r inside

/-- The first rows of a table. -/
theorem opened (t : AutoTable seq unique) (pos : 0 < size) :
    Window t size (t.rows.take size) [] (((t.rows.take size).getLast?.map seq).getD 0) where
  sorted := t.sorted.sublist (List.take_sublist _ _)
  apart _ _ _ h := by cases h
  distinct := .nil
  small := by simp
  waiting_rows r h := List.mem_of_mem_take h
  out_rows _ h := by cases h
  marked := by
    cases last : (t.rows.take size).getLast? with
    | none => exact t.nonneg
    | some r => exact t.bounded r (List.mem_of_mem_take (List.mem_of_getLast? last))
  behind r inside left _ := by
    have here : r ∈ t.rows.take size ++ t.rows.drop size := by rwa [List.take_append_drop]
    have sorted := t.sorted
    rw [← List.take_append_drop size t.rows] at sorted
    have before : ∀ r' ∈ t.rows.take size, seq r' < seq r := fun r' taken =>
      (List.pairwise_append.mp sorted).2.2 r' taken r ((List.mem_append.mp here).resolve_left left)
    refine ⟨?_, before, fun _ h => by cases h⟩
    cases last : (t.rows.take size).getLast? with
    | none =>
      -- The page is empty only if the table is.
      rw [List.getLast?_eq_none_iff, List.take_eq_nil_iff] at last
      rcases last with none | empty
      · omega
      · rw [empty] at inside
        cases inside
    | some r' => exact before r' (List.mem_of_getLast? last)

/-! ## Loading a page -/

/-- Where reading goes on. -/
def water (seq : ρ → Int) (waiting out : List ρ) (mark : Int) : Int :=
  (((waiting ++ out).map seq).max?).getD mark

theorem water_lt (h : Window t size waiting out mark) {r : ρ} (inside : r ∈ t.rows)
    (left : r ∉ waiting) (notOut : r ∉ out) : water seq waiting out mark < seq r := by
  obtain ⟨above, waits, outs⟩ := h.behind r inside left notOut
  cases top : ((waiting ++ out).map seq).max? with
  | none => rwa [water, top]
  | some n =>
    rw [water, top]
    obtain ⟨r', held, rfl⟩ := List.mem_map.mp (List.max?_mem top)
    rcases List.mem_append.mp held with here | here
    · exact waits r' here
    · exact outs r' here

theorem le_water (h : r ∈ waiting ++ out) : seq r ≤ water seq waiting out mark := by
  have inside : seq r ∈ (waiting ++ out).map seq := List.mem_map.mpr ⟨r, h, rfl⟩
  cases top : ((waiting ++ out).map seq).max? with
  | none =>
    rw [List.max?_eq_none_iff] at top
    rw [top] at inside
    cases inside
  | some n =>
    rw [water, top]
    exact (List.max?_eq_some_iff.mp top).2 _ inside

/-- The window with the next page. -/
theorem load (h : Window t size waiting out mark)
    (page : List ρ) (eq : page = t.page (water seq waiting out mark)
      (size - (waiting.length + out.length))) :
    Window t size (waiting ++ page) out ((page.getLast?.map seq).getD mark) ∧
      Complete t size (waiting ++ page) out := by
  have small := h.small
  have length : page.length ≤ size - (waiting.length + out.length) := eq ▸ page_length_le _ _
  have onPage : ∀ r ∈ page, r ∈ t.rows ∧ water seq waiting out mark < seq r := fun r inside =>
    mem_page (eq ▸ inside)
  have above : ∀ r ∈ page, ∀ r' ∈ waiting ++ out, seq r' < seq r := fun r inside r' held =>
    Int.lt_of_le_of_lt (le_water held) (onPage r inside).2
  have behind : ∀ r ∈ t.rows, r ∉ waiting ++ page → r ∉ out →
      size - (waiting.length + out.length) ≤ page.length ∧ ∀ r' ∈ page, seq r' < seq r := by
    intro r inside left notOut
    simp only [List.mem_append, not_or] at left
    rw [eq] at left ⊢
    exact page_before inside (h.water_lt inside left.1 notOut) left.2
  refine ⟨⟨?_, ?_, h.distinct, ?_, ?_, h.out_rows, ?_, ?_⟩, ?_⟩
  · refine List.pairwise_append.mpr ⟨h.sorted, eq ▸ page_sorted _ _, fun a ha b hb => ?_⟩
    exact above b hb a (List.mem_append_left _ ha)
  · intro a ha b hb
    rcases List.mem_append.mp ha with waits | loaded
    · exact h.apart a waits b hb
    · exact Int.ne_of_gt (above a loaded b (List.mem_append_right _ hb))
  · rw [List.length_append]
    omega
  · intro r inside
    rcases List.mem_append.mp inside with waits | loaded
    · exact h.waiting_rows r waits
    · exact (onPage r loaded).1
  · cases last : page.getLast? with
    | none => exact h.marked
    | some r => exact t.bounded r (onPage r (List.mem_of_getLast? last)).1
  · intro r inside left notOut
    have later := (behind r inside left notOut).2
    simp only [List.mem_append, not_or] at left
    obtain ⟨marked, waits, outs⟩ := h.behind r inside left.1 notOut
    refine ⟨?_, fun r' held => ?_, outs⟩
    · cases last : page.getLast? with
      | none => exact marked
      | some r' => exact later r' (List.mem_of_getLast? last)
    · rcases List.mem_append.mp held with here | loaded
      · exact waits r' here
      · exact later r' loaded
  · by_cases all : ∀ r ∈ t.rows, r ∈ waiting ++ page ∨ r ∈ out
    · exact .inr all
    · simp only [not_forall, not_or] at all
      obtain ⟨r, inside, left, notOut⟩ := all
      have full := (behind r inside left notOut).1
      refine .inl ?_
      rw [List.length_append]
      omega

/-! ## Taking and putting back -/

/-- Rows with other numbers are left alone. -/
theorem touch_of_ne (f : Touch seq unique) {n : Int} (differ : seq r ≠ n) :
    (f.only n).apply r = r :=
  if_neg differ

theorem mem_touch_only (f : Touch seq unique) {n : Int} (inside : r ∈ t.rows)
    (differ : seq r ≠ n) : r ∈ (t.touch (f.only n)).rows :=
  List.mem_map.mpr ⟨r, inside, touch_of_ne f differ⟩

/-- The first waiting row goes out; its row may be changed on the way. -/
theorem take (h : Window t size (r :: rest) out mark) (f : Touch seq unique) :
    Window (t.touch (f.only (seq r))) size rest (f.apply r :: out) mark := by
  obtain ⟨first, sorted⟩ := List.pairwise_cons.mp h.sorted
  have own : r ∈ t.rows := h.waiting_rows r List.mem_cons_self
  have others : ∀ r' ∈ out, seq r' ≠ seq r := fun r' inside =>
    (h.apart r List.mem_cons_self r' inside).symm
  refine ⟨sorted, fun a ha b hb => ?_, ?_, ?_, fun a ha => ?_, fun b hb => ?_, h.marked,
    fun a inside left notOut => ?_⟩
  · rcases List.mem_cons.mp hb with rfl | old
    · rw [f.seq_apply]
      exact Int.ne_of_gt (first a ha)
    · exact h.apart a (List.mem_cons_of_mem _ ha) b old
  · refine List.pairwise_cons.mpr ⟨fun b hb => ?_, h.distinct⟩
    rw [f.seq_apply]
    exact (others b hb).symm
  · have small := h.small
    simp only [List.length_cons] at small ⊢
    omega
  · exact mem_touch_only f (h.waiting_rows a (List.mem_cons_of_mem _ ha))
      (Int.ne_of_gt (first a ha))
  · rcases List.mem_cons.mp hb with rfl | old
    · exact List.mem_map.mpr ⟨r, own, if_pos rfl⟩
    · exact mem_touch_only f (h.out_rows b old) (others b old)
  · obtain ⟨a₀, before, rfl⟩ := List.mem_map.mp inside
    have differ : seq a₀ ≠ seq r := by
      intro same
      obtain rfl := eq_of_seq before own same
      exact notOut (List.mem_cons.mpr (.inl (if_pos rfl)))
    rw [touch_of_ne f differ] at left notOut ⊢
    simp only [List.mem_cons, not_or] at notOut
    obtain ⟨marked, waits, outs⟩ := h.behind a₀ before
      (fun here => (List.mem_cons.mp here).elim (fun same => differ (same ▸ rfl)) left) notOut.2
    refine ⟨marked, fun r' held => waits r' (List.mem_cons_of_mem _ held), fun r' held => ?_⟩
    rcases List.mem_cons.mp held with rfl | old
    · rw [f.seq_apply]
      exact waits r List.mem_cons_self
    · exact outs r' old

/-- Insert a row into a list in order, before the first larger one. -/
theorem sorted_orderedInsert (sorted : waiting.Pairwise fun a b => seq a < seq b)
    (apart : ∀ a ∈ waiting, seq a ≠ seq r) :
    (waiting.orderedInsert (fun a b => seq a < seq b) r).Pairwise fun a b => seq a < seq b := by
  induction waiting with
  | nil => exact List.pairwise_singleton _ _
  | cons a rest ih =>
    obtain ⟨first, others⟩ := List.pairwise_cons.mp sorted
    rw [List.orderedInsert]
    split
    next lower =>
      refine List.pairwise_cons.mpr ⟨fun b hb => ?_, sorted⟩
      rcases List.mem_cons.mp hb with rfl | later
      · exact lower
      · exact Int.lt_trans lower (first b later)
    next not =>
      have differ := apart a List.mem_cons_self
      refine List.pairwise_cons.mpr ⟨fun b hb => ?_,
        ih others fun b hb => apart b (List.mem_cons_of_mem _ hb)⟩
      rcases (List.mem_orderedInsert _).mp hb with rfl | later
      · omega
      · exact first b later

theorem mem_filter_ne {r' : ρ} : r' ∈ out.filter (fun b => seq b ≠ seq r) ↔
    r' ∈ out ∧ seq r' ≠ seq r := by
  simp

theorem length_filter_lt {p : ρ → Bool} (inside : r ∈ out) (not : p r = false) :
    (out.filter p).length < out.length := by
  refine List.length_filter_lt_length_iff_exists.mpr ⟨r, inside, ?_⟩
  simp [not]

/-- A row that is out waits again. -/
theorem putBack (h : Window t size waiting out mark) (inside : r ∈ out) :
    Window t size (waiting.orderedInsert (fun a b => seq a < seq b) r)
      (out.filter fun b => seq b ≠ seq r) mark := by
  have member : ∀ {a}, a ∈ waiting.orderedInsert (fun a b => seq a < seq b) r ↔
      a = r ∨ a ∈ waiting := List.mem_orderedInsert _
  refine ⟨?_, fun a ha b hb => ?_, h.distinct.filter _, ?_, fun a ha => ?_, fun b hb => ?_,
    h.marked, fun a inside' left notOut => ?_⟩
  · exact sorted_orderedInsert h.sorted fun a ha => h.apart a ha r inside
  · obtain ⟨old, differ⟩ := mem_filter_ne.mp hb
    rcases member.mp ha with rfl | waits
    · exact differ.symm
    · exact h.apart a waits b old
  · have small := h.small
    have less := length_filter_lt (p := fun b => seq b ≠ seq r) inside (by simp)
    rw [List.orderedInsert_length]
    omega
  · rcases member.mp ha with rfl | waits
    · exact h.out_rows _ inside
    · exact h.waiting_rows a waits
  · exact h.out_rows b (mem_filter_ne.mp hb).1
  · simp only [member, not_or] at left
    have notOut' : a ∉ out := by
      intro here
      by_cases same : seq a = seq r
      · exact left.1 (eq_of_seq inside' (h.out_rows r inside) same)
      · exact notOut (mem_filter_ne.mpr ⟨here, same⟩)
    obtain ⟨marked, waits, outs⟩ := h.behind a inside' left.2 notOut'
    refine ⟨marked, fun r' held => ?_, fun r' held => outs r' (mem_filter_ne.mp held).1⟩
    rcases member.mp held with rfl | old
    · exact outs _ inside
    · exact waits r' old

theorem length_filter_ne (distinct : out.Pairwise fun a b => seq a ≠ seq b) (inside : r ∈ out) :
    (out.filter fun b => seq b ≠ seq r).length + 1 = out.length := by
  induction out with
  | nil => cases inside
  | cons a rest ih =>
    obtain ⟨first, others⟩ := List.pairwise_cons.mp distinct
    rcases List.mem_cons.mp inside with rfl | later
    · have same : rest.filter (fun b => seq b ≠ seq r) = rest := by
        refine List.filter_eq_self.mpr fun b hb => ?_
        simpa using (first b hb).symm
      rw [List.filter_cons_of_neg (by simp), same, List.length_cons]
    · rw [List.filter_cons_of_pos (by simpa using first r later), List.length_cons,
        List.length_cons, ih others later]

/-- Putting a row back leaves a complete window complete. -/
theorem complete_putBack (h : Window t size waiting out mark) (inside : r ∈ out)
    (complete : Complete t size waiting out) :
    Complete t size (waiting.orderedInsert (fun a b => seq a < seq b) r)
      (out.filter fun b => seq b ≠ seq r) := by
  rcases complete with full | all
  · have length := length_filter_ne h.distinct inside
    refine .inl ?_
    rw [List.orderedInsert_length]
    omega
  · refine .inr fun a row => ?_
    rcases all a row with waits | here
    · exact .inl ((List.mem_orderedInsert _).mpr (.inr waits))
    · by_cases same : seq a = seq r
      · obtain rfl := eq_of_seq row (h.out_rows r inside) same
        exact .inl ((List.mem_orderedInsert _).mpr (.inl rfl))
      · exact .inr (mem_filter_ne.mpr ⟨here, same⟩)

/-! ## New rows -/

theorem lt_number (h : Window t size waiting out mark) (gap : Nat) :
    (∀ r ∈ waiting, seq r < t.number gap) ∧ (∀ r ∈ out, seq r < t.number gap) ∧
      mark < t.number gap := by
  have last := t.last_lt_number gap
  exact ⟨fun r inside => Int.lt_of_le_of_lt (t.bounded r (h.waiting_rows r inside)) last,
    fun r inside => Int.lt_of_le_of_lt (t.bounded r (h.out_rows r inside)) last,
    Int.lt_of_le_of_lt h.marked last⟩

/-- A new row that stays outside. -/
theorem insert [DecidableEq κ] (h : Window t size waiting out mark) {d : Draft seq} {gap : Nat}
    (inserted : t.insert d gap = some t') : Window t' size waiting out mark := by
  obtain ⟨rows, last, _⟩ := insert_eq_some inserted
  obtain ⟨waits, outs, marked⟩ := h.lt_number gap
  refine ⟨h.sorted, h.apart, h.distinct, h.small, fun r inside => ?_, fun r inside => ?_, ?_,
    fun r inside left notOut => ?_⟩
  · rw [rows]
    exact List.mem_append_left _ (h.waiting_rows r inside)
  · rw [rows]
    exact List.mem_append_left _ (h.out_rows r inside)
  · rw [last]
    exact Int.le_of_lt marked
  · rw [rows] at inside
    rcases List.mem_append.mp inside with old | new
    · exact h.behind r old left notOut
    · rw [List.mem_singleton.mp new, d.seq_row]
      exact ⟨marked, waits, outs⟩

/-- A new row that enters a complete window with room. -/
theorem append [DecidableEq κ] (h : Window t size waiting out mark) {d : Draft seq} {gap : Nat}
    (inserted : t.insert d gap = some t') (room : waiting.length + out.length < size)
    (complete : Complete t size waiting out) :
    Window t' size (waiting ++ [d.row (t.number gap)]) out mark ∧
      Complete t' size (waiting ++ [d.row (t.number gap)]) out := by
  obtain ⟨rows, last, _⟩ := insert_eq_some inserted
  obtain ⟨waits, outs, marked⟩ := h.lt_number gap
  have all : ∀ r ∈ t'.rows, r ∈ waiting ++ [d.row (t.number gap)] ∨ r ∈ out := by
    intro r inside
    rw [rows] at inside
    rcases List.mem_append.mp inside with old | new
    · exact ((complete.resolve_left (Nat.not_le_of_lt room)) r old).imp_left
        (List.mem_append_left _)
    · exact .inl (List.mem_append_right _ new)
  have outside := h.insert inserted
  refine ⟨⟨?_, fun a ha b hb => ?_, h.distinct, ?_, fun a ha => ?_, outside.out_rows,
    outside.marked, fun r inside left notOut => ?_⟩, .inr all⟩
  · refine List.pairwise_append.mpr ⟨h.sorted, List.pairwise_singleton _ _, fun a ha b hb => ?_⟩
    rw [List.mem_singleton.mp hb, d.seq_row]
    exact waits a ha
  · rcases List.mem_append.mp ha with old | new
    · exact h.apart a old b hb
    · rw [List.mem_singleton.mp new, d.seq_row]
      exact Int.ne_of_gt (outs b hb)
  · rw [List.length_append, List.length_singleton]
    omega
  · rcases List.mem_append.mp ha with old | new
    · exact outside.waiting_rows a old
    · rw [rows]
      exact List.mem_append_right _ new
  · exact absurd (all r inside) (not_or.mpr ⟨left, notOut⟩)

/-! ## Deleting rows -/

/-- Rows are deleted from the table and from the window alike. -/
theorem delete (h : Window t size waiting out mark) (keep : ρ → Bool) :
    Window (t.filter keep) size (waiting.filter keep) (out.filter keep) mark := by
  refine ⟨h.sorted.filter _, fun a ha b hb => ?_, h.distinct.filter _, ?_, fun a ha => ?_,
    fun b hb => ?_, h.marked, fun a inside left notOut => ?_⟩
  · exact h.apart a (List.mem_of_mem_filter ha) b (List.mem_of_mem_filter hb)
  · have small := h.small
    have := List.length_filter_le keep waiting
    have := List.length_filter_le keep out
    omega
  · obtain ⟨old, kept⟩ := List.mem_filter.mp ha
    exact List.mem_filter.mpr ⟨h.waiting_rows a old, kept⟩
  · obtain ⟨old, kept⟩ := List.mem_filter.mp hb
    exact List.mem_filter.mpr ⟨h.out_rows b old, kept⟩
  · obtain ⟨old, kept⟩ := List.mem_filter.mp inside
    obtain ⟨marked, waits, outs⟩ := h.behind a old
      (fun here => left (List.mem_filter.mpr ⟨here, kept⟩))
      (fun here => notOut (List.mem_filter.mpr ⟨here, kept⟩))
    exact ⟨marked, fun r' held => waits r' (List.mem_of_mem_filter held),
      fun r' held => outs r' (List.mem_of_mem_filter held)⟩

end Window

end ForgeLink.Lib
