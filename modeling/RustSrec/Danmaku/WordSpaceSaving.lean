import RustSrec.Danmaku.SpaceSaving

/-!
# Space-Saving on the word table

The word table keeps `Covers` whatever its sketch holds: an evicting word is admitted
at `max(min_count + 1, estimate)`, at least one above the evicted count, which is all
`Covers.evict` asks. Reported counts are scores, never below the count, so `top_n` and
`into_top_n` never under-report a word.

The sketch floor can raise an admitted count above `min_count + 1`, and then the
counts sum to more than the number of calls. The heavy-hitter guarantee survives
relative to that sum (`word_heavy_hitters_tracked`), not relative to the number of
calls: two words that share every cell of a small sketch let a word of more than
half the calls be evicted from a table of two (`frequent_word_evicted`). For the same
reason the error term no longer bounds the over-count: the admitted word's error is the
evicted count, while its count is the sketch's estimate (`sketch_floor_overcounts`).
-/

namespace RustSrec.Danmaku

open HashMap

namespace WordHeavyHitters

/-- The words of a run's calls, in order. -/
def words (calls : List (IterOrder × String)) : List String := calls.map (·.2)

@[simp] theorem words_append (calls : List (IterOrder × String)) (c : IterOrder × String) :
    words (calls ++ [c]) = words calls ++ [c.2] := by
  simp [words]

@[simp] theorem capacity_run (capacity : Nat) (sketch : Option CountMinSketch)
    (calls : List (IterOrder × String)) : (run capacity sketch calls).capacity = max capacity 1 := by
  induction calls using List.reverseRecOn with
  | nil => rfl
  | append_singleton calls c ih => rw [run_append, capacity_increment, ih]

theorem minByKey_ne_none_of_full {it : IterOrder} {hh : WordHeavyHitters} (hpos : 0 < hh.capacity)
    (hl : ¬ hh.counters.len < hh.capacity) : minByKey (it.arrange hh.countView) ≠ none := by
  apply minByKey_ne_none
  intro h
  have h₁ : hh.countView.length = 0 := by rw [← (it.perm hh.countView).length_eq, h]; rfl
  have h₂ : hh.countView.length = hh.counters.len := by simp [countView, len_eq]
  omega

/-- The invariant of the word table: `Covers`, and counts summing to at least the
number of words counted. -/
structure Inv (seen : List String) (capacity : Nat) (counters : HashMap WordCounter) : Prop where
  covers : Covers WordCounter.count capacity seen counters
  length_le_total : seen.length ≤ total WordCounter.count counters

theorem inv_new (capacity : Nat) : Inv [] capacity HashMap.new :=
  ⟨covers_new, Nat.zero_le _⟩

/-- The sum bound after a count goes to at least `c`: either one more than before,
or the saturated count already exceeds every length the run can reach. -/
theorem length_le_total_step {seen : List String} {u : String} {m m' : HashMap WordCounter}
    (old new : Nat) (h : seen.length ≤ total WordCounter.count m) (hN : seen.length < u64Max)
    (hstep : total WordCounter.count m' + old = total WordCounter.count m + new)
    (hnew : saturatingAdd old 1 ≤ new) (hmem : new ≤ total WordCounter.count m') :
    (seen ++ [u]).length ≤ total WordCounter.count m' := by
  rw [List.length_append, List.length_singleton]
  unfold saturatingAdd at hnew
  omega

theorem Inv.increment {seen : List String} {hh : WordHeavyHitters}
    (h : Inv seen hh.capacity hh.counters) (hpos : 0 < hh.capacity) (it : IterOrder) (w : String)
    (hseen : seen.length < u64Max) :
    Inv (seen ++ [w]) hh.capacity (hh.increment it w).counters := by
  have hnd := h.covers.nodup
  cases hg : hh.counters.get w with
  | some c₀ =>
    have hc := (get_eq_some hnd).1 hg
    have hw : w ∈ hh.counters.keys := mem_keys_of_mem hc
    rw [increment_of_get_some hg]
    have hcov := h.covers.hit hw (fun c => { c with count := saturatingAdd c.count 1 }) (fun _ => rfl) hseen
    refine ⟨hcov, length_le_total_step _ _ h.length_le_total hseen
      (total_modify WordCounter.count _ hnd hc) le_rfl ?_⟩
    exact le_total_of_mem WordCounter.count hcov.nodup (mem_entries_modify.2 (.inl ⟨c₀, hc, rfl⟩))
  | none =>
    have hw : w ∉ hh.counters.keys := get_eq_none.1 hg
    by_cases hl : hh.counters.len < hh.capacity
    · rw [increment_of_lt hg hl]
      refine ⟨h.covers.enter hw hl _ rfl, ?_⟩
      rw [total_insert_of_not_mem _ hw, List.length_append, List.length_singleton]
      exact Nat.add_le_add_right h.length_le_total 1
    · cases hm : minByKey (it.arrange hh.countView) with
      | none => exact absurd hm (minByKey_ne_none_of_full hpos hl)
      | some km =>
        obtain ⟨k, minCount⟩ := km
        rw [increment_of_evict hg hl hm]
        obtain ⟨hk, hmin⟩ := minByKey_arrange_spec hm
        have hmin' : ∀ e ∈ hh.counters.entries, minCount ≤ e.2.count :=
          fun e he => hmin _ (List.mem_map_of_mem (fun e => (e.1, e.2.count)) he)
        obtain ⟨⟨k', x⟩, hx, hkx⟩ := List.mem_map.1 hk
        simp only [Prod.mk.injEq] at hkx
        obtain ⟨rfl, rfl⟩ := hkx
        -- the admitted count, raised to the sketch estimate when there is a sketch
        set admitted := max (saturatingAdd x.count 1)
          ((hh.sketch.map fun s => (s.increment w 1).estimate w).getD 0)
        have hcap : admitted ≤ u64Max := by
          refine max_le (saturatingAdd_le _ _) ?_
          cases hh.sketch with
          | none => exact Nat.zero_le _
          | some s => exact CountMinSketch.estimate_le _ _
        have hcov := h.covers.evict hw hl hk hmin' ⟨admitted, x.count⟩ (le_max_left _ _) hcap hseen
        have hw' : w ∉ (hh.counters.remove k').keys := fun h' => hw (mem_keys_remove.1 h').1
        refine ⟨hcov, length_le_total_step x.count admitted h.length_le_total hseen
          ?_ (le_max_left _ _) ?_⟩
        · rw [total_insert_of_not_mem _ hw', ← total_remove WordCounter.count hnd hx]
          dsimp only
          omega
        · have hmem : (w, (⟨admitted, x.count⟩ : WordCounter)) ∈
              ((hh.counters.remove k').insert w ⟨admitted, x.count⟩).entries := by
            rw [entries_insert_of_not_mem hw']; simp
          exact le_total_of_mem WordCounter.count hcov.nodup hmem

theorem inv_run (capacity : Nat) (sketch : Option CountMinSketch) (calls : List (IterOrder × String))
    (hN : calls.length < 2 ^ 64) :
    Inv (words calls) (max capacity 1) (run capacity sketch calls).counters := by
  induction calls using List.reverseRecOn with
  | nil => exact inv_new _
  | append_singleton calls c ih =>
    rw [List.length_append, List.length_singleton] at hN
    have h := ih (by omega)
    rw [← capacity_run capacity sketch calls] at h ⊢
    rw [run_append, words_append]
    exact h.increment (by simp) c.1 c.2 (by simp only [words, List.length_map]; unfold u64Max; omega)

/-- **Space-Saving, word table.** After any run of fewer than `2 ^ 64` calls, with any
sketch or none and under any iteration orders, the table holds at most
`C = max capacity 1` words; a tracked word's true frequency `f` is at most its count,
which is at most its score; an untracked word was never seen while the table has
room, and was seen at most as often as every tracked word once it is full; so no row
of `top_n` or `into_top_n` reports less than the word's frequency. -/
theorem word_space_saving (capacity : Nat) (sketch : Option CountMinSketch)
    (calls : List (IterOrder × String)) (hN : calls.length < 2 ^ 64) :
    let hh := run capacity sketch calls
    let f := fun w => (words calls).count w
    hh.counters.len ≤ max capacity 1 ∧
    (∀ w c, hh.counters.get w = some c → f w ≤ c.count ∧ c.count ≤ hh.score w c) ∧
    (∀ w, hh.counters.get w = none →
      (hh.counters.len < max capacity 1 → f w = 0) ∧
      (hh.counters.len = max capacity 1 → ∀ v c, hh.counters.get v = some c → f w ≤ c.count)) ∧
    (∀ n, ∀ r ∈ hh.topN n, f r.word ≤ r.count) ∧
    (∀ n, ∀ r ∈ hh.intoTopN n, f r.word ≤ r.count) := by
  intro hh f
  have hcov := (inv_run capacity sketch calls hN).covers
  have report : ∀ r : WordFrequency,
      (∃ e ∈ hh.counters.entries, r = ⟨e.1, hh.score e.1 e.2⟩) → f r.word ≤ r.count := by
    rintro r ⟨e, he, rfl⟩
    exact (hcov.freq_le e he).trans (count_le_score _ _)
  refine ⟨hcov.len_le, fun w c hc => ?_, fun w hw => ?_, fun n r hr => report r (mem_topN hr),
    fun n r hr => report r (mem_intoTopN hr)⟩
  · exact ⟨hcov.freq_le _ ((get_eq_some hcov.nodup).1 hc), count_le_score _ _⟩
  · have hw := get_eq_none.1 hw
    exact ⟨hcov.unseen_of_room w hw, fun hfull v c hc =>
      hcov.le_of_full w hw hfull _ ((get_eq_some hcov.nodup).1 hc)⟩

/-- `hi`, `yo`, `hi`, `ok`, `hi` on a table with room for two words over
`CountMinSketch::new(64, 2)`: `ok` finds it full and evicts `yo`, entering at its
estimate 2 with error 1; `hi` makes three of the five calls. -/
def evictingWords : List (IterOrder × String) :=
  [(.id, "hi"), (.id, "yo"), (.id, "hi"), (.id, "ok"), (.id, "hi")]

example : (run 2 (some (CountMinSketch.new 64 2)) evictingWords).counters.entries =
    [("hi", ⟨3, 0⟩), ("ok", ⟨2, 1⟩)] := by
  decide

theorem word_space_saving_evicting :
    evictingWords.length < 2 ^ 64 ∧
    let hh := run 2 (some (CountMinSketch.new 64 2)) evictingWords
    let f := fun w => (words evictingWords).count w
    hh.counters.len ≤ max 2 1 ∧
    (∀ w c, hh.counters.get w = some c → f w ≤ c.count ∧ c.count ≤ hh.score w c) ∧
    (∀ w, hh.counters.get w = none →
      (hh.counters.len < max 2 1 → f w = 0) ∧
      (hh.counters.len = max 2 1 → ∀ v c, hh.counters.get v = some c → f w ≤ c.count)) ∧
    (∀ n, ∀ r ∈ hh.topN n, f r.word ≤ r.count) ∧
    (∀ n, ∀ r ∈ hh.intoTopN n, f r.word ≤ r.count) :=
  ⟨by decide, word_space_saving 2 _ _ (by decide)⟩

/-- **Heavy hitters, word table.** The tracked counts sum to at least the number of
calls, and every word whose frequency `f` satisfies `f * C > T`, for `T` that sum and
`C = max capacity 1`, is tracked. -/
theorem word_heavy_hitters_tracked (capacity : Nat) (sketch : Option CountMinSketch)
    (calls : List (IterOrder × String)) (hN : calls.length < 2 ^ 64) :
    let hh := run capacity sketch calls
    calls.length ≤ total WordCounter.count hh.counters ∧
    ∀ w, total WordCounter.count hh.counters < (words calls).count w * max capacity 1 →
      (hh.counters.get w).isSome := by
  intro hh
  have h : Inv (words calls) (max capacity 1) hh.counters := inv_run capacity sketch calls hN
  refine ⟨by simpa [words] using h.length_le_total, fun w hw => ?_⟩
  by_contra hg
  have hw' : w ∉ hh.counters.keys := by simpa [get_eq_none] using hg
  by_cases hl : hh.counters.len < max capacity 1
  · rw [h.covers.unseen_of_room w hw' hl] at hw
    omega
  · have hfull : hh.counters.len = max capacity 1 := by have := h.covers.len_le; omega
    have := len_mul_le_total WordCounter.count (h.covers.le_of_full w hw' hfull)
    rw [hfull, Nat.mul_comm] at this
    omega

/-- In `evictingWords` the counts sum to 5, and `hi`, with `3 * 2 > 5`, is tracked. -/
theorem word_heavy_hitters_tracked_evicting :
    evictingWords.length < 2 ^ 64 ∧
    let hh := run 2 (some (CountMinSketch.new 64 2)) evictingWords
    evictingWords.length ≤ total WordCounter.count hh.counters ∧
    ∀ w, total WordCounter.count hh.counters < (words evictingWords).count w * max 2 1 →
      (hh.counters.get w).isSome :=
  ⟨by decide, word_heavy_hitters_tracked 2 _ _ (by decide)⟩

/-- Four `hot`, then `cat`, `dtq` and `zap`. -/
def sketchCollisionCalls : List (IterOrder × String) :=
  [(.id, "hot"), (.id, "hot"), (.id, "hot"), (.id, "hot"), (.id, "cat"), (.id, "dtq"), (.id, "zap")]

/-- In a table of two words over `CountMinSketch::new(64, 2)`, `dtq` hashes to both of
`hot`'s cells (columns 37 and 15), so it is admitted at its estimate 5, above `hot`'s 4,
and `zap` then evicts `hot`, a word of 4 of the 7 calls. -/
theorem frequent_word_evicted :
    sketchCollisionCalls.length < 2 ^ 64 ∧
    sketchCollisionCalls.length < (words sketchCollisionCalls).count "hot" * max 2 1 ∧
    (run 2 (some (CountMinSketch.new 64 2)) sketchCollisionCalls).counters.get "hot" = none := by
  decide

/-- After `hot` four times, `cat` and `dtq` in the same table, `dtq` evicts `cat` and is
admitted at its estimate 5 with the error `cat`'s count 1: seen once, it is tracked at
count 5, four above its frequency and three above what its error term allows. -/
theorem sketch_floor_overcounts :
    (run 2 (some (CountMinSketch.new 64 2)) (sketchCollisionCalls.take 6)).counters.get "dtq" =
      some ⟨5, 1⟩ ∧
    (words (sketchCollisionCalls.take 6)).count "dtq" = 1 := by
  decide

end WordHeavyHitters

end RustSrec.Danmaku
