import RustSrec.Danmaku.Sketch

/-!
# Heavy-hitter tables

`TalkerHeavyHitters` (keyed by user id, carrying the latest display name) and
`WordHeavyHitters` (keyed by lowercased word, optionally backed by a
`CountMinSketch`) are Space-Saving tables: a hit bumps the key's count, a miss
inserts while there is room, and a miss on a full table evicts an entry of least
count, found by `min_by_key` over the `HashMap`'s iteration order.

That order is fixed by the map's `RandomState` and the code never inspects it, so
the model takes it as a parameter of each `increment`: an `IterOrder` is any
permutation of the `(key, count)` pairs, and `min_by_key` returns the first pair of
least count in it. Every lemma about a run holds for every choice of orders.

The equation lemmas `increment_of_*` give each branch of both `increment`s once;
the invariant proofs use only them.
-/

namespace RustSrec.Danmaku

/-! ## `min_by_key` -/

/-- `Iterator::min_by_key` on `(key, count)` pairs: the first pair of least count. -/
def minByKey : List (String × Nat) → Option (String × Nat)
  | [] => none
  | e :: es => some (es.foldl (fun m x => if x.2 < m.2 then x else m) e)

/-- An iteration order of a `HashMap`: a permutation of the pairs it is given. -/
structure IterOrder where
  arrange : List (String × Nat) → List (String × Nat)
  perm : ∀ l, (arrange l).Perm l

/-- The order the entries are stored in. -/
def IterOrder.id : IterOrder := ⟨fun l => l, fun l => List.Perm.refl l⟩

theorem foldl_min_spec (es : List (String × Nat)) (e : String × Nat) :
    let m := es.foldl (fun m x => if x.2 < m.2 then x else m) e
    (m = e ∨ m ∈ es) ∧ m.2 ≤ e.2 ∧ ∀ x ∈ es, m.2 ≤ x.2 := by
  induction es generalizing e with
  | nil => simp
  | cons x es ih =>
    simp only [List.foldl_cons, List.mem_cons, forall_eq_or_imp]
    by_cases hx : x.2 < e.2
    · obtain ⟨h₁, h₂, h₃⟩ := ih x
      simp only [hx, ite_true] at h₁ h₂ h₃ ⊢
      refine ⟨by tauto, by omega, h₂, h₃⟩
    · obtain ⟨h₁, h₂, h₃⟩ := ih e
      simp only [hx, ite_false] at h₁ h₂ h₃ ⊢
      refine ⟨by tauto, h₂, by omega, h₃⟩

theorem minByKey_spec {l : List (String × Nat)} {m : String × Nat} (h : minByKey l = some m) :
    m ∈ l ∧ ∀ x ∈ l, m.2 ≤ x.2 := by
  cases l with
  | nil => cases h
  | cons e es =>
    cases h
    obtain ⟨h₁, h₂, h₃⟩ := foldl_min_spec es e
    exact ⟨by rcases h₁ with h₁ | h₁ <;> simp [h₁], by simpa [h₂] using h₃⟩

theorem minByKey_ne_none {l : List (String × Nat)} (h : l ≠ []) : minByKey l ≠ none := by
  cases l with
  | nil => exact absurd rfl h
  | cons e es => simp [minByKey]

/-- What `min_by_key` picks over the order `it`: an entry of least count. -/
theorem minByKey_arrange_spec {it : IterOrder} {l : List (String × Nat)} {m : String × Nat}
    (h : minByKey (it.arrange l) = some m) : m ∈ l ∧ ∀ x ∈ l, m.2 ≤ x.2 := by
  have hp := it.perm l
  obtain ⟨h₁, h₂⟩ := minByKey_spec h
  exact ⟨hp.subset h₁, fun x hx => h₂ x (hp.symm.subset hx)⟩

/-! ## Output rows -/

/-- A `TopTalker` row of the statistics. -/
structure TopTalker where
  userId : String
  username : String
  messageCount : Nat
  deriving DecidableEq, Repr

/-- A `WordFrequency` row of the statistics. -/
structure WordFrequency where
  word : String
  count : Nat
  deriving DecidableEq, Repr

/-! ## `TalkerHeavyHitters` -/

structure TalkerCounter where
  username : String
  count : Nat
  error : Nat
  deriving DecidableEq, Repr

structure TalkerHeavyHitters where
  capacity : Nat
  counters : HashMap TalkerCounter
  deriving DecidableEq, Repr

namespace TalkerHeavyHitters

def new (capacity : Nat) : TalkerHeavyHitters := ⟨max capacity 1, HashMap.new⟩

/-- The `(key, count)` pairs `min_by_key` compares. -/
def countView (self : TalkerHeavyHitters) : List (String × Nat) :=
  self.counters.entries.map fun e => (e.1, e.2.count)

/-- `increment(user_id, username)`, the map iterating in the order `it`. The source
writes the name only when it changed, which leaves the same counter. -/
def increment (it : IterOrder) (self : TalkerHeavyHitters) (userId username : String) :
    TalkerHeavyHitters :=
  match self.counters.get userId with
  | some _ =>
    { self with
      counters := self.counters.modify userId fun c =>
        { c with count := saturatingAdd c.count 1, username := username } }
  | none =>
    if self.counters.len < self.capacity then
      { self with counters := self.counters.insert userId ⟨username, 1, 0⟩ }
    else
      match minByKey (it.arrange self.countView) with
      | some (key, minCount) =>
        { self with
          counters := (self.counters.remove key).insert userId
            ⟨username, saturatingAdd minCount 1, minCount⟩ }
      | none => self

/-- The order `top_n` sorts by: count descending, then user id, then error. -/
def compareCounters (a b : String × TalkerCounter) : Ordering :=
  ((compare b.2.count a.2.count).then (compare a.1 b.1)).then (compare a.2.error b.2.error)

/-- `top_n(n)`: `sort_by` is a stable merge sort, `truncate(n)` a `take`. -/
def topN (self : TalkerHeavyHitters) (n : Nat) : List TopTalker :=
  if n = 0 ∨ self.counters.entries.isEmpty then []
  else
    ((self.counters.entries.mergeSort fun a b => compareCounters a b != .gt).take n).map
      fun e => ⟨e.1, e.2.username, e.2.count⟩

/-- `into_top_n(n)`: the consuming twin of `top_n`, with the same comparator. -/
def intoTopN (self : TalkerHeavyHitters) (n : Nat) : List TopTalker :=
  if n = 0 ∨ self.counters.entries.isEmpty then []
  else
    ((self.counters.entries.mergeSort fun a b =>
        (((compare b.2.count a.2.count).then (compare a.1 b.1)).then
          (compare a.2.error b.2.error)) != .gt).take n).map
      fun e => ⟨e.1, e.2.username, e.2.count⟩

/-- The table after `calls`, each an `increment(user_id, username)` made while the
map iterates in the order the call carries. -/
def run (capacity : Nat) (calls : List (IterOrder × String × String)) : TalkerHeavyHitters :=
  calls.foldl (fun hh c => hh.increment c.1 c.2.1 c.2.2) (new capacity)

theorem run_append (capacity : Nat) (calls : List (IterOrder × String × String))
    (c : IterOrder × String × String) :
    run capacity (calls ++ [c]) = (run capacity calls).increment c.1 c.2.1 c.2.2 := by
  simp [run]

variable {it : IterOrder} {self : TalkerHeavyHitters} {userId username : String}

@[simp] theorem capacity_increment : (self.increment it userId username).capacity = self.capacity := by
  unfold increment
  split
  · rfl
  · split
    · rfl
    · split <;> rfl

theorem increment_of_get_some {c : TalkerCounter} (h : self.counters.get userId = some c) :
    (self.increment it userId username).counters = self.counters.modify userId fun c =>
      { c with count := saturatingAdd c.count 1, username := username } := by
  simp [increment, h]

theorem increment_of_lt (h : self.counters.get userId = none) (hl : self.counters.len < self.capacity) :
    (self.increment it userId username).counters = self.counters.insert userId ⟨username, 1, 0⟩ := by
  simp [increment, h, hl]

theorem increment_of_evict {key : String} {minCount : Nat} (h : self.counters.get userId = none)
    (hl : ¬ self.counters.len < self.capacity)
    (hm : minByKey (it.arrange self.countView) = some (key, minCount)) :
    (self.increment it userId username).counters = (self.counters.remove key).insert userId
      ⟨username, saturatingAdd minCount 1, minCount⟩ := by
  simp [increment, h, hl, hm]

theorem increment_of_min_none (h : self.counters.get userId = none)
    (hl : ¬ self.counters.len < self.capacity) (hm : minByKey (it.arrange self.countView) = none) :
    self.increment it userId username = self := by
  simp [increment, h, hl, hm]

end TalkerHeavyHitters

/-! ## `WordHeavyHitters` -/

structure WordCounter where
  count : Nat
  error : Nat
  deriving DecidableEq, Repr

structure WordHeavyHitters where
  capacity : Nat
  counters : HashMap WordCounter
  sketch : Option CountMinSketch
  deriving DecidableEq, Repr

namespace WordHeavyHitters

def new (capacity : Nat) (sketch : Option CountMinSketch) : WordHeavyHitters :=
  ⟨max capacity 1, HashMap.new, sketch⟩

def countView (self : WordHeavyHitters) : List (String × Nat) :=
  self.counters.entries.map fun e => (e.1, e.2.count)

/-- The eviction branch of `increment`, after the sketch has seen `word`: the
admitted word starts at `max(min_count + 1, sketch estimate)`. -/
def evict (self : WordHeavyHitters) (word key : String) (minCount : Nat) : WordHeavyHitters :=
  let cmsCount := (self.sketch.map fun (s : CountMinSketch) => s.estimate word).getD 0
  { self with
    counters := (self.counters.remove key).insert word
      ⟨max (saturatingAdd minCount 1) cmsCount, minCount⟩ }

/-- `increment(word)`, the map iterating in the order `it`. The sketch, if any, is
incremented first, on every call. -/
def increment (it : IterOrder) (self : WordHeavyHitters) (word : String) : WordHeavyHitters :=
  let self := { self with sketch := self.sketch.map fun (s : CountMinSketch) => s.increment word 1 }
  match self.counters.get word with
  | some _ =>
    { self with counters := self.counters.modify word fun c => { c with count := saturatingAdd c.count 1 } }
  | none =>
    if self.counters.len < self.capacity then
      { self with counters := self.counters.insert word ⟨1, 0⟩ }
    else
      match minByKey (it.arrange self.countView) with
      | some (key, minCount) => self.evict word key minCount
      | none => self

/-- `score(key, counter)`: the count, raised to the sketch's estimate if there is one. -/
def score (self : WordHeavyHitters) (key : String) (counter : WordCounter) : Nat :=
  match self.sketch with
  | some sketch => max counter.count (sketch.estimate key)
  | none => counter.count

/-- `compare_entries`: score descending, then word, then error. -/
def compareEntries (self : WordHeavyHitters) (a b : String × WordCounter) : Ordering :=
  ((compare (self.score a.1 a.2) (self.score b.1 b.2)).swap.then (compare a.1 b.1)).then
    (compare a.2.error b.2.error)

def topN (self : WordHeavyHitters) (n : Nat) : List WordFrequency :=
  if n = 0 ∨ self.counters.entries.isEmpty then []
  else
    ((self.counters.entries.mergeSort fun a b => self.compareEntries a b != .gt).take n).map
      fun e => ⟨e.1, self.score e.1 e.2⟩

/-- `into_top_n(n)`, which re-implements `score` and the comparator in closures. -/
def intoTopN (self : WordHeavyHitters) (n : Nat) : List WordFrequency :=
  if n = 0 ∨ self.counters.entries.isEmpty then []
  else
    let sketch := self.sketch
    let score := fun (word : String) (counter : WordCounter) =>
      match sketch with
      | some sketch => max counter.count (sketch.estimate word)
      | none => counter.count
    ((self.counters.entries.mergeSort fun a b =>
        (((compare (score a.1 a.2) (score b.1 b.2)).swap.then (compare a.1 b.1)).then
          (compare a.2.error b.2.error)) != .gt).take n).map
      fun e => ⟨e.1, score e.1 e.2⟩

/-- The table after `calls`, each an `increment(word)` under the order it carries. -/
def run (capacity : Nat) (sketch : Option CountMinSketch) (calls : List (IterOrder × String)) :
    WordHeavyHitters :=
  calls.foldl (fun hh c => hh.increment c.1 c.2) (new capacity sketch)

theorem run_append (capacity : Nat) (sketch : Option CountMinSketch)
    (calls : List (IterOrder × String)) (c : IterOrder × String) :
    run capacity sketch (calls ++ [c]) = (run capacity sketch calls).increment c.1 c.2 := by
  simp [run]

variable {it : IterOrder} {self : WordHeavyHitters} {word : String}

@[simp] theorem capacity_increment : (self.increment it word).capacity = self.capacity := by
  unfold increment
  dsimp only
  split
  · rfl
  · split
    · rfl
    · split <;> rfl

/-- The sketch sees every call, whichever branch the table takes. -/
theorem sketch_increment : (self.increment it word).sketch = self.sketch.map (·.increment word 1) := by
  unfold increment
  dsimp only
  split
  · rfl
  · split
    · rfl
    · split <;> rfl

theorem increment_of_get_some {c : WordCounter} (h : self.counters.get word = some c) :
    (self.increment it word).counters =
      self.counters.modify word fun c => { c with count := saturatingAdd c.count 1 } := by
  simp [increment, h]

theorem increment_of_lt (h : self.counters.get word = none) (hl : self.counters.len < self.capacity) :
    (self.increment it word).counters = self.counters.insert word ⟨1, 0⟩ := by
  simp [increment, h, hl]

theorem increment_of_evict {key : String} {minCount : Nat} (h : self.counters.get word = none)
    (hl : ¬ self.counters.len < self.capacity)
    (hm : minByKey (it.arrange self.countView) = some (key, minCount)) :
    (self.increment it word).counters = (self.counters.remove key).insert word
      ⟨max (saturatingAdd minCount 1)
        ((self.sketch.map fun s => (s.increment word 1).estimate word).getD 0), minCount⟩ := by
  simp only [countView] at hm
  simp [increment, h, hl, hm, evict, countView, Option.map_map, Function.comp_def]

theorem increment_of_min_none (h : self.counters.get word = none)
    (hl : ¬ self.counters.len < self.capacity) (hm : minByKey (it.arrange self.countView) = none) :
    (self.increment it word).counters = self.counters := by
  simp only [countView] at hm
  simp [increment, h, hl, hm, countView]

/-- `increment(word)` tracks no word but `word` that it did not track before. -/
theorem mem_keys_increment {k : String} (h : k ∈ (self.increment it word).counters.keys) :
    k = word ∨ k ∈ self.counters.keys := by
  cases hg : self.counters.get word with
  | some c => rw [increment_of_get_some hg, HashMap.keys_modify] at h; exact .inr h
  | none =>
    by_cases hl : self.counters.len < self.capacity
    · rwa [increment_of_lt hg hl, HashMap.mem_keys_insert] at h
    · cases hm : minByKey (it.arrange self.countView) with
      | none => rw [increment_of_min_none hg hl hm] at h; exact .inr h
      | some km =>
        rw [increment_of_evict hg hl hm, HashMap.mem_keys_insert, HashMap.mem_keys_remove] at h
        exact h.imp_right And.left

/-- Every row `top_n` reports is a tracked word with its score. -/
theorem mem_topN {n : Nat} {r : WordFrequency} (h : r ∈ self.topN n) :
    ∃ e ∈ self.counters.entries, r = ⟨e.1, self.score e.1 e.2⟩ := by
  unfold topN at h
  split at h
  · simp at h
  · obtain ⟨e, he, rfl⟩ := List.mem_map.1 h
    exact ⟨e, List.mem_mergeSort.1 (List.mem_of_mem_take he), rfl⟩

/-- Every row `into_top_n` reports is a tracked word with its score. -/
theorem mem_intoTopN {n : Nat} {r : WordFrequency} (h : r ∈ self.intoTopN n) :
    ∃ e ∈ self.counters.entries, r = ⟨e.1, self.score e.1 e.2⟩ := by
  unfold intoTopN at h
  split at h
  · simp at h
  · obtain ⟨e, he, rfl⟩ := List.mem_map.1 h
    exact ⟨e, List.mem_mergeSort.1 (List.mem_of_mem_take he), rfl⟩

theorem count_le_score (key : String) (c : WordCounter) : c.count ≤ self.score key c := by
  unfold score
  split
  · exact le_max_left _ _
  · exact le_rfl

end WordHeavyHitters

end RustSrec.Danmaku
