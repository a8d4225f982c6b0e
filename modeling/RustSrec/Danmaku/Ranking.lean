import RustSrec.Danmaku.HeavyHitters
import Mathlib.Data.List.Sort
import Mathlib.Data.String.Basic

/-!
# What `top_n` returns

Both tables sort their entries with one comparator: score descending, then key, then
error (`rankCompare`), where the talker table's score is the count and the word table's
is `score`, the count raised to the sketch's estimate. `sort_by` is a stable merge sort,
`truncate(n)` a `take`, and the rows are mapped from the kept entries (`topRows`).

On distinct keys the comparator is a strict total order (`RankedBefore` on `(score,
key)` pairs), since the error only breaks ties between entries of one key. So the
sorted list is the unique ranked permutation of the entries, and `top_n(n)` is
characterised by `IsTopN`: `min(n, len)` rows with distinct keys, each an entry's row,
ranked strictly, with every entry left out ranked after every row returned. Every
reachable table has distinct keys, so what `top_n` returns does not depend on the
order the map iterates in. `into_top_n` is `top_n`.
-/

namespace RustSrec.Danmaku

/-! ## The ranking order -/

/-- `p` ranks strictly before `q`, for `(score, key)` pairs: a higher score, or the same
score and a smaller key. -/
def RankedBefore (p q : Nat × String) : Prop := q.1 < p.1 ∨ (p.1 = q.1 ∧ p.2 < q.2)

/-- Decided on the keys' characters, which the kernel evaluates (`String`'s own `<` test is
well-founded). -/
instance : DecidableRel RankedBefore := fun p q =>
  decidable_of_iff (q.1 < p.1 ∨ (p.1 = q.1 ∧ p.2.toList < q.2.toList))
    (by rw [RankedBefore, String.lt_iff_toList_lt])

theorem RankedBefore.irrefl (p : Nat × String) : ¬ RankedBefore p p := by
  rintro (h | ⟨-, h⟩) <;> exact lt_irrefl _ h

theorem RankedBefore.trans {p q r : Nat × String} (h₁ : RankedBefore p q) (h₂ : RankedBefore q r) :
    RankedBefore p r := by
  rcases h₁ with h₁ | ⟨e₁, h₁⟩ <;> rcases h₂ with h₂ | ⟨e₂, h₂⟩
  · exact .inl (by omega)
  · exact .inl (by omega)
  · exact .inl (by omega)
  · exact .inr ⟨e₁.trans e₂, h₁.trans h₂⟩

theorem ordering_bne_gt (o : Ordering) : (o != .gt) = true ↔ o ≠ .gt := by
  cases o <;> decide

section Rank

variable {V : Type} (score err : String × V → Nat)

/-- The comparator of both `top_n`s: score descending, then key, then error. -/
def rankCompare (a b : String × V) : Ordering :=
  ((compare (score b) (score a)).then (compare a.1 b.1)).then (compare (err a) (err b))

/-- The comparator as `sort_by` reads it: `a` may stay before `b`. -/
def rankLe (a b : String × V) : Bool := rankCompare score err a b != .gt

/-- `a` may stay before `b` when it ranks strictly before it, or has the same key and
score and no larger an error. -/
theorem rankLe_iff (a b : String × V) :
    rankLe score err a b = true ↔
      RankedBefore (score a, a.1) (score b, b.1) ∨ (a.1 = b.1 ∧ score a = score b ∧ err a ≤ err b) := by
  rw [rankLe, ordering_bne_gt, rankCompare, RankedBefore]
  rcases lt_trichotomy (score a) (score b) with h | h | h
  · simp [compare_gt_iff_gt.2 h, Ordering.then, h.ne, not_lt.2 h.le]
  · rw [h, compare_eq_iff_eq.2 rfl]
    rcases lt_trichotomy a.1 b.1 with h' | h' | h'
    · simp [Ordering.then, compare_lt_iff_lt.2 h', h']
    · simp [Ordering.then, h', compare_eq_iff_eq.2 rfl, compare_gt_iff_gt]
    · simp [Ordering.then, compare_gt_iff_gt.2 h', h'.ne', not_lt.2 h'.le]
  · simp [compare_lt_iff_lt.2 h, Ordering.then, h]

theorem rankLe_total (a b : String × V) : (rankLe score err a b || rankLe score err b a) = true := by
  simp only [Bool.or_eq_true, rankLe_iff, RankedBefore]
  rcases lt_trichotomy (score a) (score b) with h | h | h
  · exact .inr (.inl (.inl h))
  · rcases lt_trichotomy a.1 b.1 with h' | h' | h'
    · exact .inl (.inl (.inr ⟨h, h'⟩))
    · rcases le_total (err a) (err b) with h'' | h''
      · exact .inl (.inr ⟨h', h, h''⟩)
      · exact .inr (.inr ⟨h'.symm, h.symm, h''⟩)
    · exact .inr (.inl (.inr ⟨h.symm, h'⟩))
  · exact .inl (.inl (.inl h))

theorem rankLe_trans (a b c : String × V) (h₁ : rankLe score err a b = true)
    (h₂ : rankLe score err b c = true) : rankLe score err a c = true := by
  rw [rankLe_iff] at h₁ h₂ ⊢
  rcases h₁ with h₁ | ⟨k₁, s₁, e₁⟩ <;> rcases h₂ with h₂ | ⟨k₂, s₂, e₂⟩
  · exact .inl (h₁.trans h₂)
  · have : (score b, b.1) = (score c, c.1) := Prod.ext s₂ k₂
    exact .inl (this ▸ h₁)
  · have : (score a, a.1) = (score b, b.1) := Prod.ext s₁ k₁
    exact .inl (this ▸ h₂)
  · exact .inr ⟨k₁.trans k₂, s₁.trans s₂, e₁.trans e₂⟩

variable {score}

/-- On entries of distinct keys, the merge sort ranks strictly. -/
theorem ranked_mergeSort {l : List (String × V)} (hnd : (l.map Prod.fst).Nodup) :
    (l.mergeSort (rankLe score err)).Pairwise fun a b => RankedBefore (score a, a.1) (score b, b.1) := by
  have hs := List.sorted_mergeSort (rankLe_trans score err) (rankLe_total score err) l
  have hk : (l.mergeSort (rankLe score err)).Pairwise fun a b => a.1 ≠ b.1 :=
    List.pairwise_map.1 (((List.mergeSort_perm l _).map Prod.fst).nodup_iff.2 hnd)
  exact (hs.and hk).imp fun ⟨h₁, h₂⟩ => ((rankLe_iff score err _ _).1 h₁).resolve_right fun h => h₂ h.1

/-- A ranked permutation of entries of distinct keys is what the merge sort returns. -/
theorem mergeSort_eq_of_ranked {l entries : List (String × V)} (hnd : (entries.map Prod.fst).Nodup)
    (hp : l.Perm entries) (hs : l.Pairwise fun a b => RankedBefore (score a, a.1) (score b, b.1)) :
    entries.mergeSort (rankLe score err) = l := by
  haveI : IsAntisymm (String × V) fun a b => RankedBefore (score a, a.1) (score b, b.1) :=
    ⟨fun _ _ h₁ h₂ => absurd (h₁.trans h₂) (RankedBefore.irrefl _)⟩
  exact List.eq_of_perm_of_sorted ((List.mergeSort_perm entries _).trans hp.symm)
    (ranked_mergeSort err hnd) hs

/-- The merge sort of entries of distinct keys does not depend on their order. -/
theorem mergeSort_rank_perm {l entries : List (String × V)} (hnd : (entries.map Prod.fst).Nodup)
    (hp : l.Perm entries) : l.mergeSort (rankLe score err) = entries.mergeSort (rankLe score err) :=
  (mergeSort_eq_of_ranked err hnd ((List.mergeSort_perm l _).trans hp)
    (ranked_mergeSort err ((hp.map Prod.fst).nodup_iff.2 hnd))).symm

end Rank

/-! ## `top_n` -/

section TopRows

variable {V R : Type} (score err : String × V → Nat) (row : String × V → R)

/-- `sort_by` with `rankCompare`, `truncate(n)`, and each kept entry as a row. -/
def topRows (entries : List (String × V)) (n : Nat) : List R :=
  ((entries.mergeSort (rankLe score err)).take n).map row

variable (key : R → String) (rowScore : R → Nat)

/-- What `top_n(n)` is to return from a table with entries `entries` whose rows carry a
key and a score: `min(n, len)` rows with distinct keys, each an entry's row, ranked
strictly by score and key, with every entry it leaves out ranked after every row. -/
structure IsTopN (entries : List (String × V)) (n : Nat) (out : List R) : Prop where
  length_eq : out.length = min n entries.length
  keys_nodup : (out.map key).Nodup
  mem_rows : ∀ r ∈ out, ∃ e ∈ entries, r = row e
  ranked : (out.map fun r => (rowScore r, key r)).Pairwise RankedBefore
  omitted_after : ∀ e ∈ entries, e.1 ∉ out.map key →
    ∀ r ∈ out, RankedBefore (rowScore r, key r) (score e, e.1)

variable {score row key rowScore}

theorem isTopN_topRows (hkey : ∀ e, key (row e) = e.1) (hscore : ∀ e, rowScore (row e) = score e)
    {entries : List (String × V)} (hnd : (entries.map Prod.fst).Nodup) (n : Nat) :
    IsTopN score row key rowScore entries n (topRows score err row entries n) := by
  set S := entries.mergeSort (rankLe score err)
  have hS : S.Pairwise fun a b => RankedBefore (score a, a.1) (score b, b.1) := ranked_mergeSort err hnd
  have hkeys : ∀ l : List (String × V), (l.map row).map key = l.map Prod.fst := fun l => by
    simp [Function.comp_def, hkey]
  have hpairs : ∀ l : List (String × V), (l.map row).map (fun r => (rowScore r, key r)) =
      l.map fun e => (score e, e.1) := fun l => by simp [Function.comp_def, hkey, hscore]
  refine ⟨by simp [topRows, S], ?_, ?_, ?_, ?_⟩
  · rw [topRows, hkeys]
    exact (((List.mergeSort_perm entries _).map Prod.fst).nodup_iff.2 hnd).sublist
      ((List.take_sublist n S).map _)
  · intro r hr
    obtain ⟨e, he, rfl⟩ := List.mem_map.1 hr
    exact ⟨e, List.mem_mergeSort.1 (List.mem_of_mem_take he), rfl⟩
  · rw [topRows, hpairs, List.pairwise_map]
    exact hS.sublist (List.take_sublist n S)
  · intro e he hout r hr
    obtain ⟨y, hy, rfl⟩ := List.mem_map.1 hr
    have hdrop : e ∈ S.drop n := by
      have : e ∈ S.take n ++ S.drop n := by rw [List.take_append_drop]; exact List.mem_mergeSort.2 he
      refine (List.mem_append.1 this).resolve_left fun h => hout ?_
      rw [topRows, hkeys]
      exact List.mem_map_of_mem Prod.fst h
    rw [hkey, hscore]
    rw [← List.take_append_drop n S] at hS
    exact (List.pairwise_append.1 hS).2.2 y hy e hdrop

/-- The rows do not depend on the order of the entries. -/
theorem topRows_perm {l entries : List (String × V)} (hnd : (entries.map Prod.fst).Nodup)
    (hp : l.Perm entries) (n : Nat) : topRows score err row l n = topRows score err row entries n := by
  rw [topRows, topRows, mergeSort_rank_perm err hnd hp]

/-- The rows of a table, from a ranked permutation of its entries. -/
theorem topRows_eq_of_ranked {l entries : List (String × V)} (hnd : (entries.map Prod.fst).Nodup)
    (hp : l.Perm entries) (hs : l.Pairwise fun a b => RankedBefore (score a, a.1) (score b, b.1))
    (n : Nat) : topRows score err row entries n = (l.take n).map row := by
  rw [topRows, mergeSort_eq_of_ranked err hnd hp hs]

end TopRows

/-! ## The two tables -/

namespace TalkerHeavyHitters

/-- A `TopTalker` row. -/
def row (e : String × TalkerCounter) : TopTalker := ⟨e.1, e.2.username, e.2.count⟩

theorem topN_eq_topRows (hh : TalkerHeavyHitters) (n : Nat) :
    hh.topN n = topRows (·.2.count) (·.2.error) row hh.counters.entries n := by
  unfold topN
  split_ifs with h
  · rcases h with rfl | h
    · rfl
    · simp [List.isEmpty_iff.1 h, topRows]
  · rfl

/-- `into_top_n` is `top_n`. -/
theorem intoTopN_eq_topN (hh : TalkerHeavyHitters) (n : Nat) : hh.intoTopN n = hh.topN n := rfl

theorem keys_nodup_increment {hh : TalkerHeavyHitters} (h : hh.counters.keys.Nodup) (it : IterOrder)
    (u name : String) : (hh.increment it u name).counters.keys.Nodup := by
  cases hg : hh.counters.get u with
  | some c => rw [increment_of_get_some hg, HashMap.keys_modify]; exact h
  | none =>
    by_cases hl : hh.counters.len < hh.capacity
    · rw [increment_of_lt hg hl]
      exact HashMap.keys_nodup_insert h _ _
    · cases hm : minByKey (it.arrange hh.countView) with
      | none => rw [increment_of_min_none hg hl hm]; exact h
      | some km =>
        rw [increment_of_evict hg hl hm]
        exact HashMap.keys_nodup_insert (HashMap.keys_nodup_remove h _) _ _

theorem keys_nodup_run (capacity : Nat) (calls : List (IterOrder × String × String)) :
    (run capacity calls).counters.keys.Nodup := by
  induction calls using List.reverseRecOn with
  | nil => simp [run, new, HashMap.keys_eq]
  | append_singleton calls c ih => rw [run_append]; exact keys_nodup_increment ih _ _ _

end TalkerHeavyHitters

namespace WordHeavyHitters

/-- A `WordFrequency` row: the word and its score. -/
def row (hh : WordHeavyHitters) (e : String × WordCounter) : WordFrequency := ⟨e.1, hh.score e.1 e.2⟩

theorem compareEntries_eq (hh : WordHeavyHitters) (a b : String × WordCounter) :
    hh.compareEntries a b = rankCompare (fun e => hh.score e.1 e.2) (·.2.error) a b := by
  simp only [compareEntries, rankCompare, Nat.compare_swap]

theorem topN_eq_topRows (hh : WordHeavyHitters) (n : Nat) :
    hh.topN n = topRows (fun e => hh.score e.1 e.2) (·.2.error) hh.row hh.counters.entries n := by
  have hle : (fun a b => hh.compareEntries a b != .gt) =
      rankLe (fun e => hh.score e.1 e.2) (·.2.error) := by
    funext a b
    rw [rankLe, compareEntries_eq]
  unfold topN
  split_ifs with h
  · rcases h with rfl | h
    · rfl
    · simp [List.isEmpty_iff.1 h, topRows]
  · rw [hle]
    rfl

/-- `into_top_n`, with its score and comparator rewritten in closures, is `top_n`. -/
theorem intoTopN_eq_topN (hh : WordHeavyHitters) (n : Nat) : hh.intoTopN n = hh.topN n := rfl

theorem keys_nodup_increment {hh : WordHeavyHitters} (h : hh.counters.keys.Nodup) (it : IterOrder)
    (w : String) : (hh.increment it w).counters.keys.Nodup := by
  cases hg : hh.counters.get w with
  | some c => rw [increment_of_get_some hg, HashMap.keys_modify]; exact h
  | none =>
    by_cases hl : hh.counters.len < hh.capacity
    · rw [increment_of_lt hg hl]
      exact HashMap.keys_nodup_insert h _ _
    · cases hm : minByKey (it.arrange hh.countView) with
      | none => rw [increment_of_min_none hg hl hm]; exact h
      | some km =>
        rw [increment_of_evict hg hl hm]
        exact HashMap.keys_nodup_insert (HashMap.keys_nodup_remove h _) _ _

theorem keys_nodup_run (capacity : Nat) (sketch : Option CountMinSketch)
    (calls : List (IterOrder × String)) : (run capacity sketch calls).counters.keys.Nodup := by
  induction calls using List.reverseRecOn with
  | nil => simp [run, new, HashMap.keys_eq]
  | append_singleton calls c ih => rw [run_append]; exact keys_nodup_increment ih _ _

end WordHeavyHitters

/-- **`top_n` on both tables.** For every reachable table and every `n`, `top_n(n)`
returns `min(n, len)` rows with distinct keys, each a tracked key with its count and
stored name (talkers) or its score (words), ranked strictly by score descending then
key, with every tracked key left out ranked after every row returned; and it returns
the same rows whatever order the map iterates its entries in. -/
theorem top_n_ranked :
    (∀ (capacity : Nat) (calls : List (IterOrder × String × String)) (n : Nat),
      let hh := TalkerHeavyHitters.run capacity calls
      IsTopN (·.2.count) TalkerHeavyHitters.row TopTalker.userId TopTalker.messageCount
          hh.counters.entries n (hh.topN n) ∧
        ∀ l, l.Perm hh.counters.entries → { hh with counters := ⟨l⟩ }.topN n = hh.topN n) ∧
    (∀ (capacity : Nat) (sketch : Option CountMinSketch) (calls : List (IterOrder × String)) (n : Nat),
      let hh := WordHeavyHitters.run capacity sketch calls
      IsTopN (fun e => hh.score e.1 e.2) hh.row WordFrequency.word WordFrequency.count
          hh.counters.entries n (hh.topN n) ∧
        ∀ l, l.Perm hh.counters.entries → { hh with counters := ⟨l⟩ }.topN n = hh.topN n) := by
  refine ⟨fun capacity calls n => ?_, fun capacity sketch calls n => ?_⟩
  · have hnd := TalkerHeavyHitters.keys_nodup_run capacity calls
    refine ⟨?_, fun l hp => ?_⟩
    · rw [TalkerHeavyHitters.topN_eq_topRows]
      refine isTopN_topRows _ (fun _ => ?_) (fun _ => ?_) hnd n <;> rfl
    · rw [TalkerHeavyHitters.topN_eq_topRows, TalkerHeavyHitters.topN_eq_topRows]
      exact topRows_perm _ hnd hp n
  · have hnd := WordHeavyHitters.keys_nodup_run capacity sketch calls
    refine ⟨?_, fun l hp => ?_⟩
    · rw [WordHeavyHitters.topN_eq_topRows]
      refine isTopN_topRows _ (fun _ => ?_) (fun _ => ?_) hnd n <;> rfl
    · rw [WordHeavyHitters.topN_eq_topRows, WordHeavyHitters.topN_eq_topRows]
      exact topRows_perm _ hnd hp n

end RustSrec.Danmaku
