import RustSrec.Prelude
import RustSrec.Danmaku.Hash
import Mathlib.Algebra.Order.BigOperators.Group.List
import Mathlib.Algebra.Order.Ring.Nat

/-!
# `CountMinSketch`

A `width × depth` table of saturating `u64` counters. Row `i` hashes a value with
seed `i`; `increment` adds to one cell per row and `estimate` is the least of the
value's cells. Rows are indexed with `[]`, which panics out of bounds; the model
reads and writes through `List.modify`/`getD`, and `WellShaped` (kept by every
operation) says that no index the code computes is ever out of bounds.

On a run of `increment` calls from `new` (`run`), each counter is the saturated total
increment of the calls hashing to it (`cell_run`); from that formula, `estimate` never
underestimates a value's total and the sketch does not depend on the order of the
calls (`count_min_sketch`).
-/

namespace RustSrec.Danmaku

section Modify

variable {α : Type}

/-- Reading a list after `modify` at an index in range. -/
theorem getD_modify (l : List α) (f : α → α) (k : Nat) {j : Nat} (d : α) (hj : j < l.length) :
    (l.modify f k).getD j d = if k = j then f (l.getD j d) else l.getD j d := by
  simp only [List.getD_eq_getElem?_getD, List.getElem?_modify, List.getElem?_eq_getElem hj]
  split <;> rfl

/-- A fold of `modify`s at the distinct indices `is` rewrites index `i` once if it is one
of them and keeps it otherwise. -/
theorem getD_foldl_modify (g : Nat → α → α) (d : α) {is : List Nat} (hnd : is.Nodup) (l : List α)
    {i : Nat} (hi : i < l.length) :
    (is.foldl (fun l k => l.modify (g k) k) l).getD i d =
      if i ∈ is then g i (l.getD i d) else l.getD i d := by
  induction is generalizing l with
  | nil => simp
  | cons k is ih =>
    obtain ⟨hk, hnd⟩ := List.nodup_cons.1 hnd
    rw [List.foldl_cons, ih hnd _ (by simpa using hi), getD_modify _ _ _ _ hi]
    by_cases h : k = i
    · subst h; simp [hk]
    · simp [h, Ne.symm h]

theorem length_foldl_modify (g : Nat → α → α) (is : List Nat) (l : List α) :
    (is.foldl (fun l k => l.modify (g k) k) l).length = l.length := by
  induction is generalizing l with
  | nil => rfl
  | cons k is ih => rw [List.foldl_cons, ih, List.length_modify]

/-- A property of every element survives `modify` by a map that keeps it. -/
theorem forall_mem_modify {P : α → Prop} (f : α → α) (hf : ∀ x, P x → P (f x)) (k : Nat)
    {l : List α} (h : ∀ x ∈ l, P x) : ∀ x ∈ l.modify f k, P x := by
  rw [List.forall_mem_iff_getElem] at h ⊢
  intro i hi
  rw [List.getElem_modify]
  split
  · exact hf _ (h i _)
  · exact h i _

theorem forall_mem_foldl_modify {P : α → Prop} (g : Nat → α → α) (hg : ∀ k x, P x → P (g k x))
    (is : List Nat) {l : List α} (h : ∀ x ∈ l, P x) :
    ∀ x ∈ is.foldl (fun l k => l.modify (g k) k) l, P x := by
  induction is generalizing l with
  | nil => exact h
  | cons k is ih => exact ih (forall_mem_modify _ (hg k) k h)

end Modify

/-- A bound of the fold of `min`s `estimate` makes is a bound of the start and of every
index's value. -/
theorem le_foldl_min_iff (f : Nat → Nat) (l : List Nat) (m b : Nat) :
    b ≤ l.foldl (fun m i => min m (f i)) m ↔ b ≤ m ∧ ∀ i ∈ l, b ≤ f i := by
  induction l generalizing m with
  | nil => simp
  | cons k l ih => simp only [List.foldl_cons, ih, le_min_iff, List.forall_mem_cons, and_assoc]

structure CountMinSketch where
  width : Nat
  depth : Nat
  rows : List (List Nat)
  deriving DecidableEq, Repr

namespace CountMinSketch

/-- `CountMinSketch::new`: at least 64 columns and two rows, all zero. -/
def new (width depth : Nat) : CountMinSketch :=
  let width := max width 64
  let depth := max depth 2
  ⟨width, depth, List.replicate depth (List.replicate width 0)⟩

/-- The column `value` hashes to in row `i`: `(hash as usize) % self.width`. -/
def index (self : CountMinSketch) (value : String) (i : Nat) : Nat :=
  (hashWithSeed value i.toUInt64).toNat % self.width

/-- `increment(value, inc)`. -/
def increment (self : CountMinSketch) (value : String) (inc : Nat) : CountMinSketch :=
  { self with
    rows := (List.range self.depth).foldl
      (fun rows i => rows.modify (fun row => row.modify (saturatingAdd · inc) (self.index value i)) i)
      self.rows }

/-- `estimate(value)`: the least of the value's cells, starting from `u64::MAX`. -/
def estimate (self : CountMinSketch) (value : String) : Nat :=
  (List.range self.depth).foldl
    (fun minValue i => min minValue ((self.rows.getD i []).getD (self.index value i) 0)) u64Max

/-- Every row index below `depth` and every column index below `width` is in bounds. -/
structure WellShaped (s : CountMinSketch) : Prop where
  width_pos : 0 < s.width
  rows_length : s.rows.length = s.depth
  row_length : ∀ row ∈ s.rows, row.length = s.width

theorem index_lt {s : CountMinSketch} (h : s.WellShaped) (value : String) (i : Nat) :
    s.index value i < s.width :=
  Nat.mod_lt _ h.width_pos

theorem wellShaped_new (width depth : Nat) : (new width depth).WellShaped where
  width_pos := by simp [new]
  rows_length := by simp [new]
  row_length := by simp [new, List.mem_replicate]

theorem estimate_le (s : CountMinSketch) (value : String) : s.estimate value ≤ u64Max :=
  ((le_foldl_min_iff _ _ _ _).1 le_rfl).1

/-- The counter in row `i`, column `j`, read as `estimate` reads it. -/
def cell (self : CountMinSketch) (i j : Nat) : Nat := (self.rows.getD i []).getD j 0

variable {s : CountMinSketch}

@[simp] theorem width_increment (v : String) (inc : Nat) : (s.increment v inc).width = s.width := rfl

@[simp] theorem depth_increment (v : String) (inc : Nat) : (s.increment v inc).depth = s.depth := rfl

theorem WellShaped.length_row (h : s.WellShaped) {i : Nat} (hi : i < s.depth) :
    (s.rows.getD i []).length = s.width := by
  rw [← h.rows_length] at hi
  rw [List.getD_eq_getElem?_getD, List.getElem?_eq_getElem hi, Option.getD_some]
  exact h.row_length _ (List.getElem_mem hi)

theorem WellShaped.increment (h : s.WellShaped) (v : String) (inc : Nat) :
    (s.increment v inc).WellShaped where
  width_pos := h.width_pos
  rows_length := by simp only [CountMinSketch.increment, length_foldl_modify, h.rows_length]
  row_length := forall_mem_foldl_modify _ (fun _ _ hx => by rw [List.length_modify, hx]) _ h.row_length

/-- What `increment(value, inc)` does to a counter in bounds: the value's column in
each row grows by `inc`, saturating. -/
theorem cell_increment (h : s.WellShaped) (v : String) (inc : Nat) {i j : Nat}
    (hi : i < s.depth) (hj : j < s.width) :
    (s.increment v inc).cell i j =
      if s.index v i = j then saturatingAdd (s.cell i j) inc else s.cell i j := by
  have hrow : j < (s.rows.getD i []).length := by rw [h.length_row hi]; exact hj
  simp only [cell, CountMinSketch.increment]
  rw [getD_foldl_modify _ _ (List.nodup_range _) _ (by rw [h.rows_length]; exact hi),
    if_pos (List.mem_range.2 hi), getD_modify _ _ _ _ hrow]

/-- `estimate` is at most each of the value's counters. -/
theorem estimate_le_cell (s : CountMinSketch) (v : String) {i : Nat} (hi : i < s.depth) :
    s.estimate v ≤ s.cell i (s.index v i) :=
  ((le_foldl_min_iff _ _ _ _).1 le_rfl).2 i (List.mem_range.2 hi)

/-- A bound of `u64::MAX` and of each of the value's counters bounds `estimate`. -/
theorem le_estimate {v : String} {b : Nat} (hb : b ≤ u64Max)
    (h : ∀ i < s.depth, b ≤ s.cell i (s.index v i)) : b ≤ s.estimate v :=
  (le_foldl_min_iff _ _ _ _).2 ⟨hb, fun i hi => h i (List.mem_range.1 hi)⟩

/-- Two well-shaped sketches of one shape and with the same counters are equal. -/
theorem ext_cell {t : CountMinSketch} (hs : s.WellShaped) (ht : t.WellShaped) (hw : s.width = t.width)
    (hd : s.depth = t.depth) (h : ∀ i < s.depth, ∀ j < s.width, s.cell i j = t.cell i j) : s = t := by
  obtain ⟨w, d, rows⟩ := s
  obtain ⟨w', d', rows'⟩ := t
  simp only at hw hd
  subst hw hd
  congr 1
  have hl := hs.rows_length
  have hl' := ht.rows_length
  simp only at hl hl'
  refine List.ext_getElem (hl.trans hl'.symm) fun i h₁ h₂ => ?_
  have hi : i < d := hl ▸ h₁
  have hr₁ := hs.length_row hi
  have hr₂ := ht.length_row hi
  simp only [List.getD_eq_getElem?_getD, List.getElem?_eq_getElem h₁, List.getElem?_eq_getElem h₂,
    Option.getD_some] at hr₁ hr₂
  refine List.ext_getElem (hr₁.trans hr₂.symm) fun j k₁ k₂ => ?_
  simpa [cell, List.getElem?_eq_getElem h₁, List.getElem?_eq_getElem h₂, List.getElem?_eq_getElem k₁,
    List.getElem?_eq_getElem k₂] using h i hi j (hr₁ ▸ k₁)

/-! ## Runs -/

/-- The sketch after the calls `increment(value, inc)`, from `new(width, depth)`. -/
def run (width depth : Nat) (calls : List (String × Nat)) : CountMinSketch :=
  calls.foldl (fun s c => s.increment c.1 c.2) (new width depth)

theorem run_append (width depth : Nat) (calls : List (String × Nat)) (c : String × Nat) :
    run width depth (calls ++ [c]) = (run width depth calls).increment c.1 c.2 := by
  simp [run]

section Run

variable (width depth : Nat)

@[simp] theorem width_run (calls : List (String × Nat)) : (run width depth calls).width = max width 64 := by
  induction calls using List.reverseRecOn with
  | nil => rfl
  | append_singleton calls c ih => rw [run_append, width_increment, ih]

@[simp] theorem depth_run (calls : List (String × Nat)) : (run width depth calls).depth = max depth 2 := by
  induction calls using List.reverseRecOn with
  | nil => rfl
  | append_singleton calls c ih => rw [run_append, depth_increment, ih]

/-- Every run hashes with the columns `new` made. -/
theorem index_run (calls : List (String × Nat)) : (run width depth calls).index = (new width depth).index := by
  funext v i
  simp [index, new]

theorem wellShaped_run (calls : List (String × Nat)) : (run width depth calls).WellShaped := by
  induction calls using List.reverseRecOn with
  | nil => exact wellShaped_new width depth
  | append_singleton calls c ih => rw [run_append]; exact ih.increment _ _

/-- The counter formula: each counter is the total increment of the calls whose value
hashes to it, saturated at `u64::MAX`. -/
theorem cell_run (calls : List (String × Nat)) {i j : Nat} (hi : i < max depth 2) (hj : j < max width 64) :
    (run width depth calls).cell i j =
      min ((calls.filter fun c => (new width depth).index c.1 i = j).map (·.2)).sum u64Max := by
  induction calls using List.reverseRecOn with
  | nil => simp [run, cell, new, List.getElem?_replicate, hi, hj]
  | append_singleton calls c ih =>
    rw [run_append, cell_increment (wellShaped_run width depth calls) _ _ (by simpa using hi)
      (by simpa using hj), ih, index_run]
    by_cases hc : (new width depth).index c.1 i = j
    · simp [hc, saturatingAdd]
      omega
    · simp [hc]

/-- **The count-min sketch.** For every `width` and `depth` given to `new` and every
sequence of `increment(value, inc)` calls: every row and column index the code computes
is in bounds; each counter is the total increment of the calls whose value hashes to it,
saturated at `u64::MAX`; `estimate(v)` lies between `min(F(v), u64::MAX)`, where `F(v)`
is the total increment of `v`, and `min(Σ inc, u64::MAX)`; and the sketch does not
depend on the order of the calls. -/
theorem count_min_sketch (calls : List (String × Nat)) :
    (∀ v, ∀ i < (run width depth calls).depth, i < (run width depth calls).rows.length ∧
      (run width depth calls).index v i < ((run width depth calls).rows.getD i []).length) ∧
    (∀ i < (run width depth calls).depth, ∀ j < (run width depth calls).width,
      (run width depth calls).cell i j =
        min ((calls.filter fun c => (run width depth calls).index c.1 i = j).map (·.2)).sum u64Max) ∧
    (∀ v, min ((calls.filter (·.1 = v)).map (·.2)).sum u64Max ≤ (run width depth calls).estimate v ∧
      (run width depth calls).estimate v ≤ min (calls.map (·.2)).sum u64Max) ∧
    ∀ calls', calls'.Perm calls → run width depth calls' = run width depth calls := by
  set s := run width depth calls
  have hs : s.WellShaped := wellShaped_run width depth calls
  have hcell : ∀ i < s.depth, ∀ j < s.width,
      s.cell i j = min ((calls.filter fun c => s.index c.1 i = j).map (·.2)).sum u64Max :=
    fun i hi j hj => by
      rw [cell_run width depth calls (by simpa [s] using hi) (by simpa [s] using hj), index_run]
  refine ⟨fun v i hi => ⟨hs.rows_length ▸ hi, hs.length_row hi ▸ index_lt hs v i⟩, hcell,
    fun v => ⟨?_, ?_⟩, fun calls' hp => ?_⟩
  · -- every call of `v` lands in each of `v`'s counters
    refine le_estimate (min_le_right _ _) fun i hi => ?_
    rw [hcell i hi _ (index_lt hs v i)]
    refine min_le_min_right _ (List.Sublist.sum_le_sum ?_ fun _ _ => Nat.zero_le _)
    exact (List.monotone_filter_right _ fun c hc =>
      decide_eq_true (congrArg (s.index · i) (of_decide_eq_true hc))).map _
  · -- the first row's counter is at most the whole total
    have h0 : 0 < s.depth := by simp [s]
    refine le_min ((estimate_le_cell s v h0).trans ?_) (estimate_le s v)
    rw [hcell 0 h0 _ (index_lt hs v 0)]
    exact (min_le_left _ _).trans (((List.filter_sublist _).map _).sum_le_sum fun _ _ => Nat.zero_le _)
  · -- the counters are sums, which the order does not change
    refine ext_cell (wellShaped_run _ _ _) hs (by simp [s]) (by simp [s]) fun i hi j hj => ?_
    rw [cell_run width depth calls' (by simpa using hi) (by simpa using hj),
      cell_run width depth calls (by simpa using hi) (by simpa using hj), ((hp.filter _).map _).sum_eq]

end Run

end CountMinSketch

end RustSrec.Danmaku
