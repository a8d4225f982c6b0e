import RustSrec.Danmaku.HeavyHitters

/-!
# The Space-Saving invariant

`Covers` is the guarantee both heavy-hitter tables keep, stated for any counter type
with a `count`: at most `capacity` distinct keys, every tracked count at least the
key's true frequency, an untracked key never seen while the table had room and seen
no more often than any tracked count once it is full. It is kept by the three
things an `increment` can do: bump a tracked key (`Covers.hit`), admit a key into
a table with room (`Covers.enter`), and evict a least-count key for a new one
admitted at least one above it (`Covers.evict`). Counts saturate at `u64::MAX`, so
the step lemmas ask that fewer than `2 ^ 64` keys were counted.

The talker table adds the error term: `error ≤ count` and `count - error ≤ f`
(`TalkerHeavyHitters.Inv`), and every branch adds exactly one to the sum of the counts, so a
user seen in more than a `1 / capacity` share of the calls is tracked.
-/

namespace RustSrec.Danmaku

open HashMap

/-! ## `Covers` -/

section Covers

variable {α : Type} (count : α → Nat)

/-- The Space-Saving guarantee of a table `m` with room for `capacity` keys after the
keys `seen` were counted. -/
structure Covers (capacity : Nat) (seen : List String) (m : HashMap α) : Prop where
  nodup : m.keys.Nodup
  len_le : m.len ≤ capacity
  count_le : ∀ e ∈ m.entries, count e.2 ≤ u64Max
  freq_le : ∀ e ∈ m.entries, seen.count e.1 ≤ count e.2
  unseen_of_room : ∀ u ∉ m.keys, m.len < capacity → seen.count u = 0
  le_of_full : ∀ u ∉ m.keys, m.len = capacity → ∀ e ∈ m.entries, seen.count u ≤ count e.2

variable {count} {capacity : Nat} {seen : List String} {m : HashMap α} {u : String}

theorem covers_new : Covers count capacity [] (HashMap.new : HashMap α) where
  nodup := by simp [keys_eq]
  len_le := by simp [len_eq]
  count_le := by simp
  freq_le := by simp
  unseen_of_room := by simp
  le_of_full := by simp

theorem count_append_self (seen : List String) (u : String) :
    (seen ++ [u]).count u = seen.count u + 1 := by simp

theorem count_append_of_ne (seen : List String) {u v : String} (h : v ≠ u) :
    (seen ++ [u]).count v = seen.count v := by simp [List.count_singleton, Ne.symm h]

/-- A tracked key's count goes up by one, saturating. -/
theorem Covers.hit (h : Covers count capacity seen m) (hu : u ∈ m.keys) (f : α → α)
    (hf : ∀ c, count (f c) = saturatingAdd (count c) 1) (hN : seen.length < u64Max) :
    Covers count capacity (seen ++ [u]) (m.modify u f) where
  nodup := by simpa using h.nodup
  len_le := by simpa [len_eq] using h.len_le
  count_le e he := by
    rcases mem_entries_modify.1 he with ⟨c, -, rfl⟩ | ⟨he, -⟩
    · simpa [hf] using saturatingAdd_le _ _
    · exact h.count_le e he
  freq_le e he := by
    rcases mem_entries_modify.1 he with ⟨c, hc, rfl⟩ | ⟨he, hne⟩
    · have h₁ : seen.count u ≤ count c := h.freq_le _ hc
      have h₂ := List.count_le_length u seen
      simp only [count_append_self, hf, saturatingAdd]
      omega
    · simpa [count_append_of_ne _ hne] using h.freq_le e he
  unseen_of_room v hv := by
    have hne : v ≠ u := fun e => hv (by simpa [e] using hu)
    simpa [count_append_of_ne _ hne, len_eq] using h.unseen_of_room v (by simpa using hv)
  le_of_full v hv hfull e he := by
    have hne : v ≠ u := fun e => hv (by simpa [e] using hu)
    have hv' : v ∉ m.keys := by simpa using hv
    have hfull' : m.len = capacity := by simpa [len_eq] using hfull
    rw [count_append_of_ne _ hne]
    rcases mem_entries_modify.1 he with ⟨c, hc, rfl⟩ | ⟨he, -⟩
    · have h₁ : seen.count v ≤ count c := h.le_of_full v hv' hfull' _ hc
      have h₂ : count c ≤ u64Max := h.count_le _ hc
      simp only [hf, saturatingAdd]
      omega
    · exact h.le_of_full v hv' hfull' e he

/-- An unseen key enters a table with room at count one. -/
theorem Covers.enter (h : Covers count capacity seen m) (hu : u ∉ m.keys) (hl : m.len < capacity)
    (c : α) (hc : count c = 1) : Covers count capacity (seen ++ [u]) (m.insert u c) where
  nodup := keys_nodup_insert h.nodup u c
  len_le := by rw [len_insert_of_not_mem hu]; omega
  count_le e he := by
    rw [entries_insert_of_not_mem hu, List.mem_append, List.mem_singleton] at he
    rcases he with he | rfl
    · exact h.count_le e he
    · simp [hc, u64Max]
  freq_le e he := by
    rw [entries_insert_of_not_mem hu, List.mem_append, List.mem_singleton] at he
    rcases he with he | rfl
    · have hne : e.1 ≠ u := fun e' => hu (e' ▸ mem_keys_of_mem he)
      simpa [count_append_of_ne _ hne] using h.freq_le e he
    · simp [hc, h.unseen_of_room u hu hl]
  unseen_of_room v hv _ := by
    rw [mem_keys_insert, not_or] at hv
    rw [count_append_of_ne _ hv.1, h.unseen_of_room v hv.2 hl]
  le_of_full v hv _ e _ := by
    rw [mem_keys_insert, not_or] at hv
    rw [count_append_of_ne _ hv.1, h.unseen_of_room v hv.2 hl]
    exact Nat.zero_le _

/-- On a full table an unseen key replaces a key `k` of least count `minCount`, at a
count of at least `minCount + 1` (saturating). -/
theorem Covers.evict (h : Covers count capacity seen m) (hu : u ∉ m.keys) (hl : ¬ m.len < capacity)
    {k : String} {minCount : Nat} (hk : (k, minCount) ∈ m.entries.map fun e => (e.1, count e.2))
    (hmin : ∀ e ∈ m.entries, minCount ≤ count e.2) (c : α)
    (hc : saturatingAdd minCount 1 ≤ count c) (hc' : count c ≤ u64Max) (hN : seen.length < u64Max) :
    Covers count capacity (seen ++ [u]) ((m.remove k).insert u c) := by
  obtain ⟨⟨k, x⟩, hx, hkx⟩ := List.mem_map.1 hk
  simp only [Prod.mk.injEq] at hkx
  obtain ⟨rfl, rfl⟩ := hkx
  have hfull : m.len = capacity := by have := h.len_le; omega
  have hu' : u ∉ (m.remove k).keys := fun h' => hu (mem_keys_remove.1 h').1
  have hlen : ((m.remove k).insert u c).len = capacity := by
    have : (m.remove k).len + 1 = m.len := len_remove h.nodup (mem_keys_of_mem hx)
    rw [len_insert_of_not_mem hu']; omega
  have hmem : ∀ e, e ∈ ((m.remove k).insert u c).entries ↔ (e ∈ m.entries ∧ e.1 ≠ k) ∨ e = (u, c) := by
    intro e; rw [entries_insert_of_not_mem hu', List.mem_append, mem_entries_remove, List.mem_singleton]
  have hcx : count x ≤ count c := by
    have : count x ≤ u64Max := h.count_le _ hx
    unfold saturatingAdd at hc; omega
  have hfx : seen.count u ≤ count x := h.le_of_full u hu hfull _ hx
  refine ⟨keys_nodup_insert (keys_nodup_remove h.nodup k) u c, hlen.le, ?_, ?_, ?_, ?_⟩
  · intro e he
    rcases (hmem e).1 he with ⟨he, -⟩ | rfl
    · exact h.count_le e he
    · exact hc'
  · intro e he
    rcases (hmem e).1 he with ⟨he, -⟩ | rfl
    · have hne : e.1 ≠ u := fun e' => hu (e' ▸ mem_keys_of_mem he)
      simpa [count_append_of_ne _ hne] using h.freq_le e he
    · have := List.count_le_length u seen
      simp only [count_append_self]
      unfold saturatingAdd at hc
      omega
  · intro v _ hroom; omega
  · intro v hv _ e he
    rw [mem_keys_insert, not_or, mem_keys_remove, not_and_or, not_not] at hv
    -- the evicted key and every other unseen key were seen at most `count x` times
    have hvx : seen.count v ≤ count x := by
      rcases hv.2 with hv' | rfl
      · exact h.le_of_full v hv' hfull _ hx
      · exact h.freq_le _ hx
    rw [count_append_of_ne _ hv.1]
    rcases (hmem e).1 he with ⟨he, -⟩ | rfl
    · exact hvx.trans (hmin e he)
    · exact hvx.trans hcx

end Covers

/-! ## The talker table -/

namespace TalkerHeavyHitters

/-- The user ids of a run's calls, in order. -/
def userIds (calls : List (IterOrder × String × String)) : List String := calls.map (·.2.1)

@[simp] theorem userIds_append (calls : List (IterOrder × String × String))
    (c : IterOrder × String × String) : userIds (calls ++ [c]) = userIds calls ++ [c.2.1] := by
  simp [userIds]

@[simp] theorem capacity_run (capacity : Nat) (calls : List (IterOrder × String × String)) :
    (run capacity calls).capacity = max capacity 1 := by
  induction calls using List.reverseRecOn with
  | nil => rfl
  | append_singleton calls c ih => rw [run_append, capacity_increment, ih]

/-- The invariant of a talker table with room for `capacity` users after the user ids
`seen` were counted: `Covers` and the error bounds. -/
structure Inv (seen : List String) (capacity : Nat) (counters : HashMap TalkerCounter) : Prop where
  covers : Covers TalkerCounter.count capacity seen counters
  error_le : ∀ e ∈ counters.entries, e.2.error ≤ e.2.count
  count_sub_error_le : ∀ e ∈ counters.entries, e.2.count - e.2.error ≤ seen.count e.1

theorem inv_new (capacity : Nat) : Inv [] capacity HashMap.new where
  covers := covers_new
  error_le := by simp
  count_sub_error_le := by simp

/-- The counters of a full table are not empty, so `min_by_key` finds one. -/
theorem minByKey_ne_none_of_full {it : IterOrder} {hh : TalkerHeavyHitters} (hpos : 0 < hh.capacity)
    (hl : ¬ hh.counters.len < hh.capacity) : minByKey (it.arrange hh.countView) ≠ none := by
  apply minByKey_ne_none
  intro h
  have h₁ : hh.countView.length = 0 := by rw [← (it.perm hh.countView).length_eq, h]; rfl
  have h₂ : hh.countView.length = hh.counters.len := by simp [countView, len_eq]
  omega

theorem Inv.increment {seen : List String} {hh : TalkerHeavyHitters}
    (h : Inv seen hh.capacity hh.counters) (hpos : 0 < hh.capacity) (it : IterOrder) (u name : String)
    (hseen : seen.length < u64Max) :
    Inv (seen ++ [u]) hh.capacity (hh.increment it u name).counters := by
  -- `Covers` comes from its step lemmas; the error bounds are checked entry by entry
  suffices h' : Covers TalkerCounter.count hh.capacity (seen ++ [u]) (hh.increment it u name).counters ∧
      ∀ e ∈ (hh.increment it u name).counters.entries,
        e.2.error ≤ e.2.count ∧ e.2.count - e.2.error ≤ (seen ++ [u]).count e.1 from
    ⟨h'.1, fun e he => (h'.2 e he).1, fun e he => (h'.2 e he).2⟩
  -- an entry kept from the old table keeps its bounds: the frequencies only grow
  have keep : ∀ e ∈ hh.counters.entries,
      e.2.error ≤ e.2.count ∧ e.2.count - e.2.error ≤ (seen ++ [u]).count e.1 :=
    fun e he => ⟨h.error_le e he, (h.count_sub_error_le e he).trans (by simp)⟩
  cases hg : hh.counters.get u with
  | some c₀ =>
    have hu : u ∈ hh.counters.keys := by
      by_contra hu; rw [← get_eq_none] at hu; simp [hu] at hg
    rw [increment_of_get_some hg]
    refine ⟨h.covers.hit hu _ (fun _ => rfl) hseen, fun e he => ?_⟩
    rcases mem_entries_modify.1 he with ⟨c, hc, rfl⟩ | ⟨he, -⟩
    · -- the hit user: its count and its frequency both go up by one
      have h₁ : c.error ≤ c.count := h.error_le _ hc
      have h₂ : c.count - c.error ≤ seen.count u := h.count_sub_error_le _ hc
      have h₃ : c.count ≤ saturatingAdd c.count 1 := le_saturatingAdd (h.covers.count_le _ hc)
      have h₄ := saturatingAdd_le_add c.count 1
      dsimp only
      rw [count_append_self]
      omega
    · exact keep e he
  | none =>
    have hu : u ∉ hh.counters.keys := get_eq_none.1 hg
    by_cases hl : hh.counters.len < hh.capacity
    · rw [increment_of_lt hg hl]
      refine ⟨h.covers.enter hu hl _ rfl, fun e he => ?_⟩
      rw [entries_insert_of_not_mem hu, List.mem_append, List.mem_singleton] at he
      rcases he with he | rfl
      · exact keep e he
      · simp
    · cases hm : minByKey (it.arrange hh.countView) with
      | none => exact absurd hm (minByKey_ne_none_of_full hpos hl)
      | some km =>
        obtain ⟨k, minCount⟩ := km
        rw [increment_of_evict hg hl hm]
        obtain ⟨hk, hmin⟩ := minByKey_arrange_spec hm
        have hmax : minCount ≤ u64Max := by
          obtain ⟨e, he, hek⟩ := List.mem_map.1 hk
          simp only [Prod.mk.injEq] at hek
          exact hek.2 ▸ h.covers.count_le e he
        refine ⟨h.covers.evict hu hl hk (fun e he => hmin _ (List.mem_map_of_mem _ he)) _ le_rfl
          (saturatingAdd_le _ _) hseen, fun e he => ?_⟩
        have hu' : u ∉ (hh.counters.remove k).keys := fun h' => hu (mem_keys_remove.1 h').1
        rw [entries_insert_of_not_mem hu', List.mem_append, mem_entries_remove,
          List.mem_singleton] at he
        rcases he with ⟨he, -⟩ | rfl
        · exact keep e he
        · -- the admitted user: its error is the evicted count, at most one below its count
          have h₃ : minCount ≤ saturatingAdd minCount 1 := le_saturatingAdd hmax
          have h₄ := saturatingAdd_le_add minCount 1
          dsimp only
          rw [count_append_self]
          omega

theorem inv_run (capacity : Nat) (calls : List (IterOrder × String × String))
    (hN : calls.length < 2 ^ 64) : Inv (userIds calls) (max capacity 1) (run capacity calls).counters := by
  induction calls using List.reverseRecOn with
  | nil => exact inv_new _
  | append_singleton calls c ih =>
    rw [List.length_append, List.length_singleton] at hN
    have h := ih (by omega)
    rw [← capacity_run capacity calls] at h ⊢
    rw [run_append, userIds_append]
    exact h.increment (by simp) c.1 c.2.1 c.2.2 (by simp only [userIds, List.length_map]; unfold u64Max; omega)

/-- **Space-Saving, talker table.** After any run of fewer than `2 ^ 64` calls, under
any iteration orders, the table holds at most `C = max capacity 1` users; a tracked
user's count `c` and error `e` bracket its true frequency `f` as `c - e ≤ f ≤ c` with
`e ≤ c`; an untracked user was never seen while the table has room, and was seen at
most as often as every tracked user once it is full. -/
theorem talker_space_saving (capacity : Nat) (calls : List (IterOrder × String × String))
    (hN : calls.length < 2 ^ 64) :
    let hh := run capacity calls
    let f := fun u => (userIds calls).count u
    hh.counters.len ≤ max capacity 1 ∧
    (∀ u c, hh.counters.get u = some c →
      c.error ≤ c.count ∧ c.count - c.error ≤ f u ∧ f u ≤ c.count) ∧
    (∀ u, hh.counters.get u = none →
      (hh.counters.len < max capacity 1 → f u = 0) ∧
      (hh.counters.len = max capacity 1 → ∀ v c, hh.counters.get v = some c → f u ≤ c.count)) := by
  have h := inv_run capacity calls hN
  have hcov := h.covers
  refine ⟨hcov.len_le, fun u c hc => ?_, fun u hu => ?_⟩
  · have hc := (get_eq_some hcov.nodup).1 hc
    exact ⟨h.error_le _ hc, h.count_sub_error_le _ hc, hcov.freq_le _ hc⟩
  · have hu := get_eq_none.1 hu
    exact ⟨hcov.unseen_of_room u hu, fun hfull v c hc =>
      hcov.le_of_full u hu hfull _ ((get_eq_some hcov.nodup).1 hc)⟩

/-- Five calls on a table with room for two users: `u3` finds it full and evicts `u2`,
the entry of least count, entering at count 2 with error 1; `u1` makes three of the
five calls. -/
def evictingCalls : List (IterOrder × String × String) :=
  [(.id, "u1", "Ann"), (.id, "u2", "Bob"), (.id, "u1", "Ann"), (.id, "u3", "Cy"), (.id, "u1", "Ann")]

example : (run 2 evictingCalls).counters.entries = [("u1", ⟨"Ann", 3, 0⟩), ("u3", ⟨"Cy", 2, 1⟩)] := by
  decide

theorem talker_space_saving_evicting :
    evictingCalls.length < 2 ^ 64 ∧
    let hh := run 2 evictingCalls
    let f := fun u => (userIds evictingCalls).count u
    hh.counters.len ≤ max 2 1 ∧
    (∀ u c, hh.counters.get u = some c →
      c.error ≤ c.count ∧ c.count - c.error ≤ f u ∧ f u ≤ c.count) ∧
    (∀ u, hh.counters.get u = none →
      (hh.counters.len < max 2 1 → f u = 0) ∧
      (hh.counters.len = max 2 1 → ∀ v c, hh.counters.get v = some c → f u ≤ c.count)) :=
  ⟨by decide, talker_space_saving 2 _ (by decide)⟩

/-! ## Conservation -/

/-- Every branch of `increment` adds exactly one to the sum of the counts, as long as
that sum stays below `u64::MAX`. -/
theorem total_increment {hh : TalkerHeavyHitters} (hnd : hh.counters.keys.Nodup)
    (hpos : 0 < hh.capacity) (it : IterOrder) (u name : String)
    (ht : total TalkerCounter.count hh.counters < u64Max) :
    total TalkerCounter.count (hh.increment it u name).counters =
      total TalkerCounter.count hh.counters + 1 := by
  cases hg : hh.counters.get u with
  | some c₀ =>
    have hc := (get_eq_some hnd).1 hg
    have := total_modify TalkerCounter.count
      (fun c => { c with count := saturatingAdd c.count 1, username := name }) hnd hc
    have hle := le_total_of_mem TalkerCounter.count hnd hc
    rw [increment_of_get_some hg]
    simp only [saturatingAdd_of_le (show c₀.count + 1 ≤ u64Max by omega)] at this
    omega
  | none =>
    have hu : u ∉ hh.counters.keys := get_eq_none.1 hg
    by_cases hl : hh.counters.len < hh.capacity
    · rw [increment_of_lt hg hl, total_insert_of_not_mem _ hu]
    · cases hm : minByKey (it.arrange hh.countView) with
      | none => exact absurd hm (minByKey_ne_none_of_full hpos hl)
      | some km =>
        obtain ⟨k, minCount⟩ := km
        obtain ⟨⟨k', x⟩, hx, hkx⟩ := List.mem_map.1 (minByKey_arrange_spec hm).1
        simp only [Prod.mk.injEq] at hkx
        obtain ⟨rfl, rfl⟩ := hkx
        have hu' : u ∉ (hh.counters.remove k').keys := fun h' => hu (mem_keys_remove.1 h').1
        have hrem := total_remove TalkerCounter.count hnd hx
        have hle := le_total_of_mem TalkerCounter.count hnd hx
        rw [increment_of_evict hg hl hm, total_insert_of_not_mem _ hu',
          saturatingAdd_of_le (show x.count + 1 ≤ u64Max by omega)]
        dsimp only
        omega

theorem total_run (capacity : Nat) (calls : List (IterOrder × String × String))
    (hN : calls.length < 2 ^ 64) :
    total TalkerCounter.count (run capacity calls).counters = calls.length := by
  induction calls using List.reverseRecOn with
  | nil => rfl
  | append_singleton calls c ih =>
    rw [List.length_append, List.length_singleton] at hN ⊢
    have ht := ih (by omega)
    have hnd := (inv_run capacity calls (by omega)).covers.nodup
    rw [run_append, total_increment hnd (by simp) _ _ _ (by unfold u64Max; omega), ht]

/-- **Space-Saving heavy hitters, talker table.** After fewer than `2 ^ 64` calls the
tracked counts sum to the number of calls `N`, so every user whose frequency `f`
satisfies `f * C > N` (with `C = max capacity 1`) is tracked. -/
theorem talker_heavy_hitters_tracked (capacity : Nat) (calls : List (IterOrder × String × String))
    (hN : calls.length < 2 ^ 64) :
    total TalkerCounter.count (run capacity calls).counters = calls.length ∧
    ∀ u, calls.length < (userIds calls).count u * max capacity 1 →
      ((run capacity calls).counters.get u).isSome := by
  have ht := total_run capacity calls hN
  have hcov := (inv_run capacity calls hN).covers
  refine ⟨ht, fun u hu => ?_⟩
  by_contra hg
  have hu' : u ∉ (run capacity calls).counters.keys := by simpa [get_eq_none] using hg
  by_cases hl : (run capacity calls).counters.len < max capacity 1
  · rw [hcov.unseen_of_room u hu' hl] at hu
    omega
  · have hfull : (run capacity calls).counters.len = max capacity 1 := by
      have := hcov.len_le; omega
    have := len_mul_le_total TalkerCounter.count (hcov.le_of_full u hu' hfull)
    rw [hfull, ht, Nat.mul_comm] at this
    omega

/-- In `evictingCalls`, `u1` has `3 * 2 > 5` and is tracked, through the eviction. -/
theorem talker_heavy_hitters_tracked_evicting :
    evictingCalls.length < 2 ^ 64 ∧
    total TalkerCounter.count (run 2 evictingCalls).counters = evictingCalls.length ∧
    ∀ u, evictingCalls.length < (userIds evictingCalls).count u * max 2 1 →
      ((run 2 evictingCalls).counters.get u).isSome :=
  ⟨by decide, talker_heavy_hitters_tracked 2 _ (by decide)⟩

end TalkerHeavyHitters

end RustSrec.Danmaku
