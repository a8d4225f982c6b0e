import RustSrec.Danmaku.Aggregator
import Mathlib.Data.List.Chain
import Mathlib.Data.List.Sort

/-!
# The rate series

`update_rate_bucket` keeps a run-length encoding of the messages' bucket starts: the
open bucket is the last run and the closed buckets are the runs before it, of which
only the last `max_rate_points` survive. `RateInv` states this against `runs`, a
run-length encoding written apart from the code; `RateInv.advance` is the step and
`run_rateInv` the whole run from any aggregator whose bucket duration is not zero.

What the encoding gives a snapshot depends on the order of the timestamps. Two
neighbouring entries always have different buckets. When the timestamps do not
decrease, `get_bucket_start` does not either (`tdiv_mul_mono`), so the buckets
strictly increase and each count is the number of messages in that bucket; a
timestamp that goes back to an earlier bucket opens a second entry for it. Below
`2 ^ 64` messages, in any order, a snapshot's series is the last `max_rate_points + 1`
runs of the bucket starts with their exact lengths (`rate_timeseries_runs`); at `2 ^ 64`
messages in one bucket its count wraps (`rate_count_wraps`).

`get_bucket_start` divides with Rust's truncating `/`, so a negative timestamp goes to
the bucket above it, shared with the positive timestamps below `d`
(`bucket_start_truncates`, `negative_timestamp_bucket`).
-/

namespace RustSrec.Danmaku

open StatisticsAggregator

/-! ## Bucket starts -/

theorem tdiv_mul_neg (x d : Int) : x.tdiv (-d) * -d = x.tdiv d * d := by
  rw [Int.tdiv_neg, Int.neg_mul_neg]

/-- For a positive duration, truncating division is floor division of `|x|`. -/
theorem tdiv_mul_of_pos {d : Int} (hd : 0 < d) (x : Int) :
    x.tdiv d * d = if 0 ≤ x then x / d * d else -((-x) / d * d) := by
  split
  · rw [Int.tdiv_eq_ediv ‹_› hd.le]
  · rw [← Int.tdiv_eq_ediv (by omega) hd.le, Int.neg_tdiv, Int.neg_mul, neg_neg]

theorem ediv_mul_bounds {d : Int} (hd : 0 < d) {x : Int} (hx : 0 ≤ x) :
    0 ≤ x / d * d ∧ x / d * d ≤ x :=
  ⟨Int.mul_nonneg (Int.ediv_nonneg hx hd.le) hd.le, Int.ediv_mul_le x hd.ne'⟩

/-- Truncation toward zero, against the floor, for a positive divisor: `⌊x / d⌋ * d` for
`x ≥ 0` and `-⌊-x / d⌋ * d` below. -/
theorem tdiv_mul_cases {d : Int} (hd : 0 < d) (x : Int) :
    (0 ≤ x → x.tdiv d * d = x / d * d ∧ x.tdiv d * d ≤ x ∧ x < x.tdiv d * d + d) ∧
    (x < 0 → x.tdiv d * d = -((-x) / d * d) ∧ x.tdiv d * d - d < x ∧ x ≤ x.tdiv d * d) := by
  rw [tdiv_mul_of_pos hd]
  refine ⟨fun hx => ?_, fun hx => ?_⟩
  · have := Int.lt_ediv_add_one_mul_self x hd
    rw [if_pos hx, Int.add_mul, Int.one_mul] at *
    exact ⟨rfl, Int.ediv_mul_le x hd.ne', this⟩
  · have := Int.lt_ediv_add_one_mul_self (-x) hd
    have := Int.ediv_mul_le (-x) hd.ne'
    rw [if_neg (by omega)]
    rw [Int.add_mul, Int.one_mul] at *
    exact ⟨rfl, by omega, by omega⟩

/-- A bucket start lies between `0` and the timestamp. -/
theorem tdiv_mul_bounds {d : Int} (hd : d ≠ 0) (x : Int) :
    min x 0 ≤ x.tdiv d * d ∧ x.tdiv d * d ≤ max x 0 := by
  wlog hpos : 0 < d generalizing d
  · have := this (neg_ne_zero.2 hd) (by omega)
    rwa [tdiv_mul_neg] at this
  rw [tdiv_mul_of_pos hpos]
  split
  · have := ediv_mul_bounds hpos ‹0 ≤ x›
    omega
  · have := ediv_mul_bounds hpos (show 0 ≤ -x by omega)
    omega

/-- Bucket starts do not decrease when timestamps do not. -/
theorem tdiv_mul_mono {d : Int} (hd : d ≠ 0) {x y : Int} (h : x ≤ y) :
    x.tdiv d * d ≤ y.tdiv d * d := by
  wlog hpos : 0 < d generalizing d
  · have := this (neg_ne_zero.2 hd) (by omega)
    rwa [tdiv_mul_neg, tdiv_mul_neg] at this
  have mono : ∀ a b : Int, a ≤ b → a / d * d ≤ b / d * d := fun a b hab =>
    Int.mul_le_mul_of_nonneg_right (Int.ediv_le_ediv hpos hab) hpos.le
  rw [tdiv_mul_of_pos hpos, tdiv_mul_of_pos hpos]
  split <;> split
  · exact mono x y h
  · omega
  · have := ediv_mul_bounds hpos (show 0 ≤ -x by omega)
    have := ediv_mul_bounds hpos ‹0 ≤ y›
    omega
  · have := mono (-y) (-x) (by omega)
    omega

theorem asI64_ne_zero {d : Nat} (h₀ : 0 < d) (h₁ : d < 2 ^ 64) : asI64 d ≠ 0 := by
  unfold asI64
  rw [Nat.mod_eq_of_lt h₁]
  split <;> omega

theorem asI64_of_lt {d : Nat} (h : d < 2 ^ 63) : asI64 d = d := by
  unfold asI64
  rw [Nat.mod_eq_of_lt (by omega), if_pos h]

/-- `get_bucket_start` with a non-zero duration: `(secs / d) * d` is always inside
chrono's range, so the `unwrap_or` fallback is never taken. -/
theorem getBucketStart_spec {self : StatisticsAggregator}
    (hd : asI64 self.bucketDurationSecs ≠ 0) (t : DateTime) :
    ∃ b, self.getBucketStart t = some b ∧
      b.secs = t.secs.tdiv (asI64 self.bucketDurationSecs) * asI64 self.bucketDurationSecs ∧
      b.nanos = 0 := by
  have hmin : t.secs ≠ i64Min := by
    have := t.secs_ge
    unfold minTimestamp at this
    unfold i64Min
    omega
  obtain ⟨h₁, h₂⟩ := tdiv_mul_bounds hd t.secs
  have hlo : minTimestamp ≤ t.secs.tdiv (asI64 self.bucketDurationSecs) *
      asI64 self.bucketDurationSecs := by
    have := t.secs_ge
    unfold minTimestamp at this ⊢
    omega
  have hhi : t.secs.tdiv (asI64 self.bucketDurationSecs) * asI64 self.bucketDurationSecs ≤
      maxTimestamp := by
    have := t.secs_le
    unfold maxTimestamp at this ⊢
    omega
  obtain ⟨b, hb⟩ := Option.isSome_iff_exists.1 (DateTime.fromTimestamp_isSome hlo hhi)
  refine ⟨b, ?_, DateTime.fromTimestamp_eq_some hb⟩
  simp [getBucketStart, DateTime.timestamp, i64Div_eq_some hd hmin, hb]

/-- Bucket starts keep the order of the timestamps. -/
theorem getBucketStart_mono {self : StatisticsAggregator}
    (hd : asI64 self.bucketDurationSecs ≠ 0) {t t' b b' : DateTime} (h : t.secs ≤ t'.secs)
    (hb : self.getBucketStart t = some b) (hb' : self.getBucketStart t' = some b') :
    b.secs ≤ b'.secs := by
  obtain ⟨c, hc, hcs, -⟩ := getBucketStart_spec hd t
  obtain ⟨c', hc', hcs', -⟩ := getBucketStart_spec hd t'
  rw [hb, Option.some.injEq] at hc
  rw [hb', Option.some.injEq] at hc'
  rw [hc, hc', hcs, hcs']
  exact tdiv_mul_mono hd h

/-- **Where a bucket starts.** For `1 ≤ d ≤ i64::MAX` and every timestamp chrono
represents, `get_bucket_start` truncates toward zero: the bucket starts at `⌊t / d⌋ * d`,
with `b ≤ t < b + d`, for `t ≥ 0`, and at `-⌊-t / d⌋ * d`, with `b - d < t ≤ b`, for
`t < 0`; two timestamps share a bucket exactly when their truncated quotients agree. -/
theorem bucket_start_truncates (maxTopTalkers maxWords d : Nat) (hd : 0 < d) (hd' : d < 2 ^ 63)
    (t t' : DateTime) :
    ∃ b b', (withConfig maxTopTalkers maxWords d).getBucketStart t = some b ∧
      (withConfig maxTopTalkers maxWords d).getBucketStart t' = some b' ∧
      b.secs = t.secs.tdiv d * d ∧ b.nanos = 0 ∧
      (0 ≤ t.secs → b.secs = t.secs / d * d ∧ b.secs ≤ t.secs ∧ t.secs < b.secs + d) ∧
      (t.secs < 0 → b.secs = -((-t.secs) / d * d) ∧ b.secs - d < t.secs ∧ t.secs ≤ b.secs) ∧
      (b = b' ↔ t.secs.tdiv d = t'.secs.tdiv d) := by
  have hd₀ : asI64 (withConfig maxTopTalkers maxWords d).bucketDurationSecs ≠ 0 :=
    asI64_ne_zero hd (show d < 2 ^ 64 by omega)
  have hdi : asI64 (withConfig maxTopTalkers maxWords d).bucketDurationSecs = d := asI64_of_lt hd'
  obtain ⟨b, hb, hbs, hbn⟩ := getBucketStart_spec hd₀ t
  obtain ⟨b', hb', hbs', hbn'⟩ := getBucketStart_spec hd₀ t'
  rw [hdi] at hbs hbs'
  have hpos : (0 : Int) < d := by exact_mod_cast hd
  obtain ⟨h₁, h₂⟩ := tdiv_mul_cases hpos t.secs
  refine ⟨b, b', hb, hb', hbs, hbn, fun h => hbs ▸ h₁ h, fun h => hbs ▸ h₂ h, ?_⟩
  rw [DateTime.ext_iff', hbs, hbs', hbn, hbn']
  exact ⟨fun h => (Int.mul_eq_mul_right_iff hpos.ne').1 h.1, fun h => ⟨by rw [h], rfl⟩⟩

theorem bucket_start_truncates_negative :
    (0 < 10 ∧ 10 < 2 ^ 63) ∧
    ∃ b b', (withConfig 10 50 10).getBucketStart (messageAt (-5)).timestamp = some b ∧
      (withConfig 10 50 10).getBucketStart (messageAt 5).timestamp = some b' ∧
      b.secs = (messageAt (-5)).timestamp.secs.tdiv 10 * 10 ∧ b.nanos = 0 ∧
      (0 ≤ (messageAt (-5)).timestamp.secs → b.secs = (messageAt (-5)).timestamp.secs / 10 * 10 ∧
        b.secs ≤ (messageAt (-5)).timestamp.secs ∧ (messageAt (-5)).timestamp.secs < b.secs + 10) ∧
      ((messageAt (-5)).timestamp.secs < 0 → b.secs = -((-(messageAt (-5)).timestamp.secs) / 10 * 10) ∧
        b.secs - 10 < (messageAt (-5)).timestamp.secs ∧ (messageAt (-5)).timestamp.secs ≤ b.secs) ∧
      (b = b' ↔ (messageAt (-5)).timestamp.secs.tdiv 10 = (messageAt 5).timestamp.secs.tdiv 10) :=
  ⟨⟨by decide, by decide⟩,
    bucket_start_truncates 10 50 10 (by decide) (by decide) (messageAt (-5)).timestamp (messageAt 5).timestamp⟩

/-- Timestamps `-5` and `5` with ten-second buckets: `-5` goes to the bucket starting at
`0`, after it, and shares it with `5`, though `⌊-5 / 10⌋ = -1` and `⌊5 / 10⌋ = 0`. -/
theorem negative_timestamp_bucket :
    ((withConfig 10 50 10).getBucketStart (messageAt (-5)).timestamp).map (·.secs) = some 0 ∧
    ((withConfig 10 50 10).run [messageAt (-5), messageAt 5]).map
        (fun agg => agg.currentStats.rateTimeseries.map fun p => (p.timestamp.secs, p.count)) =
      some [(0, 2)] := by
  decide

/-! ## Run-length encoding -/

section Runs

variable {α : Type}

theorem keys_nodup_append_singleton {rs : List (α × Nat)} {b : α} {n : Nat} :
    ((rs ++ [(b, n)]).map Prod.fst).Nodup ↔ (rs.map Prod.fst).Nodup ∧ b ∉ rs.map Prod.fst := by
  simp [List.nodup_append, -List.mem_map]

variable [DecidableEq α]

/-- Extend a run-length encoding by one value: the last run grows if it holds that
value, otherwise a run of one starts. -/
def pushRun (rs : List (α × Nat)) (b : α) : List (α × Nat) :=
  match rs.getLast? with
  | some (a, n) => if a = b then rs.dropLast ++ [(a, n + 1)] else rs ++ [(b, 1)]
  | none => [(b, 1)]

/-- The maximal runs of equal neighbours of `bs`, each with its length. -/
def runs (bs : List α) : List (α × Nat) := bs.foldl pushRun []

@[simp] theorem runs_nil : runs ([] : List α) = [] := rfl

theorem runs_append_singleton (bs : List α) (b : α) :
    runs (bs ++ [b]) = pushRun (runs bs) b := by
  simp [runs]

/-- What one more value does to an encoding: it starts the first run, grows the last
run, or starts a new run after a run of another value. -/
theorem pushRun_cases (rs : List (α × Nat)) (b : α) :
    (rs = [] ∧ pushRun rs b = [(b, 1)]) ∨
      (∃ pre n, rs = pre ++ [(b, n)] ∧ pushRun rs b = pre ++ [(b, n + 1)]) ∨
      (∃ pre a n, a ≠ b ∧ rs = pre ++ [(a, n)] ∧ pushRun rs b = rs ++ [(b, 1)]) := by
  rcases List.eq_nil_or_concat rs with rfl | ⟨pre, ⟨a, n⟩, rfl⟩
  · exact .inl ⟨rfl, rfl⟩
  · by_cases h : a = b
    · subst h
      exact .inr (.inl ⟨pre, n, by simp, by simp [pushRun]⟩)
    · exact .inr (.inr ⟨pre, a, n, h, by simp, by simp [pushRun, h]⟩)

theorem mem_keys_pushRun {rs : List (α × Nat)} {a b : α} :
    a ∈ (pushRun rs b).map Prod.fst ↔ a ∈ rs.map Prod.fst ∨ a = b := by
  rcases pushRun_cases rs b with ⟨h, h'⟩ | ⟨pre, n, h, h'⟩ | ⟨pre, c, n, -, h, h'⟩ <;>
    rw [h'] <;> simp [h, or_assoc, -List.mem_map]

/-- The runs' values are the values of the list. -/
theorem mem_keys_runs {bs : List α} {a : α} : a ∈ (runs bs).map Prod.fst ↔ a ∈ bs := by
  induction bs using List.reverseRecOn with
  | nil => simp
  | append_singleton bs b ih => rw [runs_append_singleton, mem_keys_pushRun, ih]; simp

/-- Neighbouring runs hold different values. -/
theorem runs_chain (bs : List α) : (runs bs).Chain' fun r s => r.1 ≠ s.1 := by
  induction bs using List.reverseRecOn with
  | nil => exact List.chain'_nil
  | append_singleton bs b ih =>
    rw [runs_append_singleton]
    rcases pushRun_cases (runs bs) b with ⟨-, h'⟩ | ⟨pre, n, h, h'⟩ | ⟨pre, a, n, hab, h, h'⟩
    · rw [h']
      exact List.chain'_singleton _
    · rw [h] at ih
      rw [h']
      simpa [List.chain'_append, -IsEmpty.forall_iff] using ih
    · rw [h']
      refine List.chain'_append.2 ⟨ih, List.chain'_singleton _, ?_⟩
      simp [h, hab]

/-- With every value's occurrences in one run, each run's length is the value's count. -/
theorem count_runs {bs : List α} (h : ((runs bs).map Prod.fst).Nodup) :
    ∀ r ∈ runs bs, r.2 = bs.count r.1 := by
  induction bs using List.reverseRecOn with
  | nil => simp
  | append_singleton bs b ih =>
    rw [runs_append_singleton] at h ⊢
    rcases pushRun_cases (runs bs) b with ⟨h₀, h'⟩ | ⟨pre, n, h₀, h'⟩ | ⟨pre, a, n, -, h₀, h'⟩
    · -- the first run
      have : bs = [] := List.eq_nil_iff_forall_not_mem.2 fun a ha => by
        simpa [h₀] using mem_keys_runs.2 ha
      rw [h']
      simp [this]
    · -- the last run grows
      rw [h', keys_nodup_append_singleton] at h
      rw [h₀] at ih
      have ih := ih (keys_nodup_append_singleton.2 h)
      rw [h']
      simp only [List.mem_append, List.mem_singleton]
      rintro r (hr | rfl)
      · have hrb : b ≠ r.1 := fun e => h.2 (by rw [e]; exact List.mem_map_of_mem Prod.fst hr)
        rw [ih r (by simp [hr]), List.count_append, List.count_singleton', if_neg hrb,
          Nat.add_zero]
      · show n + 1 = (bs ++ [b]).count b
        rw [List.count_append, List.count_singleton_self, ← show n = bs.count b from
          ih (b, n) (by simp)]
    · -- a new run starts
      rw [h', keys_nodup_append_singleton] at h
      have hb : b ∉ bs := fun hb => h.2 (mem_keys_runs.2 hb)
      rw [h']
      simp only [List.mem_append, List.mem_singleton]
      rintro r (hr | rfl)
      · have hrb : b ≠ r.1 := fun e => h.2 (by rw [e]; exact List.mem_map_of_mem Prod.fst hr)
        rw [ih h.1 r hr, List.count_append, List.count_singleton', if_neg hrb, Nat.add_zero]
      · simp [List.count_append, List.count_eq_zero_of_not_mem hb]

/-- When the values do not decrease under a key `f` that tells them apart, the runs'
keys strictly increase. -/
theorem runs_sorted {f : α → Int} {bs : List α} (hs : (bs.map f).Sorted (· ≤ ·))
    (hf : ∀ a ∈ bs, ∀ a' ∈ bs, f a = f a' → a = a') :
    ((runs bs).map fun r => f r.1).Sorted (· < ·) := by
  induction bs using List.reverseRecOn with
  | nil => exact List.Pairwise.nil
  | append_singleton bs b ih =>
    rw [List.map_append, List.map_singleton] at hs
    obtain ⟨hbs, -, hle⟩ := List.pairwise_append.1 hs
    have ih := ih hbs fun a ha a' ha' => hf a (by simp [ha]) a' (by simp [ha'])
    rw [runs_append_singleton]
    rcases pushRun_cases (runs bs) b with ⟨-, h'⟩ | ⟨pre, n, h, h'⟩ | ⟨pre, a, n, hab, h, h'⟩
    · rw [h']
      exact List.sorted_singleton _
    · rw [h] at ih
      rw [h']
      simpa using ih
    · -- the new run's bucket is above the last one's, which is above all others
      have ha : a ∈ bs := mem_keys_runs.1 (by simp [h, -List.mem_map])
      have hlt : f a < f b :=
        lt_of_le_of_ne (hle _ (List.mem_map_of_mem f ha) _ (List.mem_singleton_self _))
          fun e => hab (hf a (by simp [ha]) b (by simp) e)
      rw [h', List.map_append, List.map_singleton]
      refine List.pairwise_append.2 ⟨ih, List.pairwise_singleton _ _, ?_⟩
      intro x hx y hy
      rw [List.mem_singleton] at hy
      subst hy
      rw [h, List.map_append, List.map_singleton, List.mem_append, List.mem_singleton] at hx
      rw [h, List.map_append, List.map_singleton] at ih
      rcases hx with hx | rfl
      · exact ((List.pairwise_append.1 ih).2.2 x hx _ (List.mem_singleton_self _)).trans hlt
      · exact hlt

/-- The runs' lengths add up to the length of the list. -/
theorem sum_runs (bs : List α) : ((runs bs).map Prod.snd).sum = bs.length := by
  induction bs using List.reverseRecOn with
  | nil => rfl
  | append_singleton bs b ih =>
    rw [runs_append_singleton, List.length_append, List.length_singleton]
    rcases pushRun_cases (runs bs) b with ⟨h, h'⟩ | ⟨pre, n, h, h'⟩ | ⟨pre, a, n, -, h, h'⟩ <;>
      rw [h', ← ih, h]
    · rfl
    all_goals simp [Nat.add_assoc]

theorem runs_replicate (b : α) {n : Nat} (hn : 0 < n) : runs (List.replicate n b) = [(b, n)] := by
  induction n with
  | zero => cases hn
  | succ n ih =>
    rw [List.replicate_succ', runs_append_singleton]
    rcases Nat.eq_zero_or_pos n with rfl | hn
    · rfl
    · rw [ih hn]; simp [pushRun]

end Runs

/-! ## The invariant -/

/-- A run as the code stores it, its count wrapped to `u64`. -/
def wrapRun (r : DateTime × Nat) : RateDataPoint := ⟨r.1, r.2 % 2 ^ 64⟩

/-- A run's count is stored exactly while it is below `2 ^ 64`. -/
theorem wrapRun_of_lt {r : DateTime × Nat} (h : r.2 < 2 ^ 64) : wrapRun r = ⟨r.1, r.2⟩ := by
  rw [wrapRun, Nat.mod_eq_of_lt h]

/-- The rate fields after messages with bucket starts `bs`: the last `maxRatePoints`
closed runs of `bs`, and its last run open. -/
structure RateInv (maxRatePoints : Nat) (bs : List DateTime)
    (st : List RateDataPoint × Option (DateTime × Nat)) : Prop where
  rateData_eq : st.1 =
    ((runs bs).dropLast.drop ((runs bs).dropLast.length - maxRatePoints)).map wrapRun
  currentBucket_eq : st.2 = (runs bs).getLast?.map fun r => (r.1, r.2 % 2 ^ 64)

theorem rateInv_nil (maxRatePoints : Nat) : RateInv maxRatePoints [] ([], none) :=
  ⟨by simp, by simp⟩

/-- `pop_front` until the length is `maxRatePoints` keeps the last `maxRatePoints`. -/
theorem popFrontWhileOver_eq (maxRatePoints : Nat) (l : List RateDataPoint) :
    popFrontWhileOver maxRatePoints l = l.drop (l.length - maxRatePoints) := by
  induction l with
  | nil => simp [popFrontWhileOver]
  | cons p ps ih =>
    simp only [popFrontWhileOver, List.length_cons]
    split
    · rw [ih, show ps.length + 1 - maxRatePoints = ps.length - maxRatePoints + 1 by omega]
      rfl
    · rw [show ps.length + 1 - maxRatePoints = 0 by omega, List.drop_zero]

/-- Keeping the last `k` before appending one more, then the last `k` again, is keeping
the last `k` of the whole. -/
theorem drop_append_singleton_drop {β : Type} (l : List β) (x : β) (k : Nat) :
    (l.drop (l.length - k) ++ [x]).drop ((l.drop (l.length - k) ++ [x]).length - k) =
      (l ++ [x]).drop ((l ++ [x]).length - k) := by
  rw [← List.drop_append_of_le_length (Nat.sub_le _ _), List.drop_drop]
  simp only [List.length_append, List.length_drop, List.length_singleton]
  congr 1
  omega

/-- Trimming after appending to a trimmed list is trimming the whole. -/
theorem popFrontWhileOver_append (M : Nat) (l : List RateDataPoint) (x : RateDataPoint) :
    popFrontWhileOver M (l.drop (l.length - M) ++ [x]) = (l ++ [x]).drop ((l ++ [x]).length - M) := by
  rw [popFrontWhileOver_eq, drop_append_singleton_drop]

/-- The step: `advanceBucket` extends the encoding by one bucket start. -/
theorem RateInv.advance {M : Nat} {bs : List DateTime} {st} (h : RateInv M bs st) (b : DateTime) :
    RateInv M (bs ++ [b]) (advanceBucket M b st) := by
  obtain ⟨rd, cb⟩ := st
  obtain ⟨h₁, h₂⟩ := h
  simp only at h₁ h₂
  have hr := runs_append_singleton bs b
  rcases pushRun_cases (runs bs) b with ⟨h, h'⟩ | ⟨pre, n, h, h'⟩ | ⟨pre, a, n, hab, h, h'⟩ <;>
    rw [h'] at hr <;> simp only [h, List.dropLast_concat, List.getLast?_concat,
      Option.map_some'] at h₁ h₂ hr <;> subst h₂
  · -- the first message opens the first bucket
    simp at h₁
    subst h₁
    constructor <;> simp [advanceBucket, hr]
  · -- the open bucket grows
    constructor <;> simp [advanceBucket, hr, h₁, wrappingAdd, Nat.mod_add_mod]
  · -- the open bucket closes and a new one opens
    constructor
    · simp only [advanceBucket, if_neg hab, h₁]
      show popFrontWhileOver M ((pre.drop (pre.length - M)).map wrapRun ++ [wrapRun (a, n)]) = _
      rw [List.map_drop, ← List.length_map pre wrapRun, popFrontWhileOver_append, hr]
      simp [List.map_drop]
    · simp [advanceBucket, hab, hr]

/-- The rate series a snapshot reports is the last `maxRatePoints + 1` runs. -/
theorem RateInv.series {M : Nat} {bs : List DateTime} {st} (h : RateInv M bs st) :
    st.1 ++ (st.2.map fun r => (⟨r.1, r.2⟩ : RateDataPoint)).toList =
      ((runs bs).drop ((runs bs).length - (M + 1))).map wrapRun := by
  obtain ⟨h₁, h₂⟩ := h
  rcases List.eq_nil_or_concat (runs bs) with hr | ⟨pre, last, hr⟩
  · simp [hr] at h₁ h₂
    simp [h₁, h₂, hr]
  · simp only [hr, List.concat_eq_append, List.dropLast_concat, List.getLast?_concat,
      Option.map_some'] at h₁ h₂
    rw [h₁, h₂, hr, List.concat_eq_append, List.length_append, List.length_singleton,
      show pre.length + 1 - (M + 1) = pre.length - M by omega,
      List.drop_append_of_le_length (Nat.sub_le _ _)]
    simp [wrapRun]

/-- The bucket starts of the messages, in order. -/
def bucketStarts (self : StatisticsAggregator) (msgs : List Message) : List DateTime :=
  msgs.filterMap fun m => self.getBucketStart m.timestamp

section BucketStarts

variable {self : StatisticsAggregator} (hd : asI64 self.bucketDurationSecs ≠ 0)
include hd

theorem nanos_of_mem_bucketStarts {msgs : List Message} {b : DateTime}
    (hb : b ∈ bucketStarts self msgs) : b.nanos = 0 := by
  obtain ⟨m, -, hm⟩ := List.mem_filterMap.1 hb
  obtain ⟨c, hc, -, hc0⟩ := getBucketStart_spec hd m.timestamp
  rw [hm, Option.some.injEq] at hc
  rwa [hc]

theorem bucketStarts_sorted {msgs : List Message} (hs : (msgs.map (·.timestamp.secs)).Sorted (· ≤ ·)) :
    ((bucketStarts self msgs).map (·.secs)).Sorted (· ≤ ·) :=
  List.pairwise_map.2 ((List.pairwise_map.1 hs).filterMap
    (fun m : Message => self.getBucketStart m.timestamp) fun _ _ h _ hb _ hb' =>
      getBucketStart_mono hd h hb hb')

end BucketStarts

theorem count_bucketStarts (self : StatisticsAggregator) (msgs : List Message) (b : DateTime) :
    (bucketStarts self msgs).count b = msgs.countP fun m => self.getBucketStart m.timestamp = some b := by
  rw [bucketStarts, List.count_filterMap]
  exact List.countP_congr fun m _ => by simp

theorem bucketStarts_replicate {self : StatisticsAggregator} {m : Message} {b : DateTime}
    (h : self.getBucketStart m.timestamp = some b) (n : Nat) :
    bucketStarts self (List.replicate n m) = List.replicate n b := by
  unfold bucketStarts
  exact List.filterMap_replicate_of_some h

/-- Every message has a bucket start, in order. -/
theorem forall₂_bucketStarts {self : StatisticsAggregator} (hd : asI64 self.bucketDurationSecs ≠ 0)
    (msgs : List Message) :
    List.Forall₂ (fun m b => self.getBucketStart m.timestamp = some b) msgs (bucketStarts self msgs) := by
  induction msgs with
  | nil => exact .nil
  | cons m ms ih =>
    obtain ⟨b, hb, -⟩ := getBucketStart_spec hd m.timestamp
    simpa [bucketStarts, List.filterMap_cons, hb] using ih

/-- The run: from an aggregator whose rate fields encode `bs`, every call returns and
the fields encode `bs` followed by the calls' bucket starts. -/
theorem run_rateInv {self : StatisticsAggregator} (hd : asI64 self.bucketDurationSecs ≠ 0)
    {bs : List DateTime} (h : RateInv self.maxRatePoints bs (self.rateData, self.currentBucket))
    (msgs : List Message) :
    ∃ agg, self.run msgs = some agg ∧ agg.bucketDurationSecs = self.bucketDurationSecs ∧
      agg.maxRatePoints = self.maxRatePoints ∧
      RateInv self.maxRatePoints (bs ++ bucketStarts self msgs) (agg.rateData, agg.currentBucket) := by
  induction msgs using List.reverseRecOn with
  | nil => exact ⟨self, rfl, rfl, rfl, by simpa [bucketStarts] using h⟩
  | append_singleton msgs m ih =>
    obtain ⟨agg, hrun, hd', hM, hinv⟩ := ih
    obtain ⟨b, hb, -⟩ := getBucketStart_spec hd m.timestamp
    have hb' : agg.getBucketStart m.timestamp = some b := by
      simpa only [getBucketStart, hd'] using hb
    obtain ⟨agg', hrec, hd'', hM', hst⟩ := record_eq_some hb'
    refine ⟨agg', by rw [run_append, hrun]; exact hrec, hd''.trans hd', hM'.trans hM, ?_⟩
    rw [hst, hM, bucketStarts, List.filterMap_append, ← List.append_assoc]
    simpa [hb] using hinv.advance b

/-- The series a snapshot reports from an aggregator with empty rate fields. -/
theorem run_rateTimeseries {self : StatisticsAggregator}
    (hd : asI64 self.bucketDurationSecs ≠ 0)
    (h : RateInv self.maxRatePoints [] (self.rateData, self.currentBucket)) (msgs : List Message) :
    ∃ agg, self.run msgs = some agg ∧ agg.bucketDurationSecs = self.bucketDurationSecs ∧
      agg.currentStats.rateTimeseries =
        ((runs (bucketStarts self msgs)).drop
          ((runs (bucketStarts self msgs)).length - (self.maxRatePoints + 1))).map wrapRun := by
  obtain ⟨agg, hrun, hdur, -, hinv⟩ := run_rateInv hd h msgs
  refine ⟨agg, hrun, hdur, ?_⟩
  rw [currentStats_rateTimeseries]
  simpa using hinv.series

/-! ## Snapshots -/

/-- **The rate series of a snapshot.** From a fresh aggregator (as `with_config`,
`checkpoint` and `reset` leave it) with a bucket duration `1 ≤ d < 2 ^ 64`, every
`record_message` returns, `finalize` reports the series `current_stats` does, and
neighbouring entries have different buckets. When the timestamps do not decrease,
the buckets strictly increase and, below `2 ^ 64` messages, each entry counts the
messages of its bucket. -/
theorem rate_timeseries_sorted (maxTopTalkers maxWords d : Nat) (hd : 0 < d) (hd' : d < 2 ^ 64)
    (msgs : List Message) :
    ∃ agg, (withConfig maxTopTalkers maxWords d).run msgs = some agg ∧
      (∀ endTime, (agg.finalize endTime).rateTimeseries = agg.currentStats.rateTimeseries) ∧
      agg.currentStats.rateTimeseries.Chain' (fun p q => p.timestamp ≠ q.timestamp) ∧
      ((msgs.map (·.timestamp.secs)).Sorted (· ≤ ·) →
        (agg.currentStats.rateTimeseries.map (·.timestamp.secs)).Sorted (· < ·) ∧
        (msgs.length < 2 ^ 64 → ∀ p ∈ agg.currentStats.rateTimeseries,
          p.count = msgs.countP fun m => agg.getBucketStart m.timestamp = some p.timestamp)) := by
  set self := withConfig maxTopTalkers maxWords d
  have hd₀ : asI64 self.bucketDurationSecs ≠ 0 := asI64_ne_zero hd hd'
  obtain ⟨agg, hrun, hdur, hseries⟩ := run_rateTimeseries hd₀ (rateInv_nil _) msgs
  refine ⟨agg, hrun, fun e => by rw [finalize_rateTimeseries, currentStats_rateTimeseries], ?_,
    fun hs => ?_⟩
  · rw [hseries, List.chain'_map]
    exact (runs_chain _).drop _
  -- bucket starts are whole seconds, so their seconds tell them apart
  have hsorted := runs_sorted (bucketStarts_sorted hd₀ hs) fun a ha a' ha' e =>
    DateTime.ext_iff'.2
      ⟨e, (nanos_of_mem_bucketStarts hd₀ ha).trans (nanos_of_mem_bucketStarts hd₀ ha').symm⟩
  refine ⟨?_, fun hN p hp => ?_⟩
  · rw [hseries, List.map_map]
    exact hsorted.sublist ((List.drop_sublist _ _).map _)
  · rw [hseries, List.mem_map] at hp
    obtain ⟨r, hr, rfl⟩ := hp
    have hcount := count_runs (List.Nodup.of_map DateTime.secs (by rw [List.map_map]; exact hsorted.nodup))
      r (List.mem_of_mem_drop hr)
    have hlt : r.2 < 2 ^ 64 := by
      have := List.count_le_length r.1 (bucketStarts self msgs)
      have : (bucketStarts self msgs).length ≤ msgs.length := List.length_filterMap_le _ _
      omega
    have hgb : agg.getBucketStart = self.getBucketStart := by
      funext t
      simp only [getBucketStart, hdur]
    show r.2 % 2 ^ 64 = msgs.countP fun m => agg.getBucketStart m.timestamp = some r.1
    rw [Nat.mod_eq_of_lt hlt, hcount, count_bucketStarts, hgb]

/-- The default configuration and two messages, at seconds `0` and `15`, in two buckets. -/
theorem rate_timeseries_sorted_default :
    (0 < 10 ∧ 10 < 2 ^ 64) ∧
      ∃ agg, (withConfig 10 50 10).run [messageAt 0, messageAt 15] = some agg ∧
        (∀ endTime, (agg.finalize endTime).rateTimeseries = agg.currentStats.rateTimeseries) ∧
        agg.currentStats.rateTimeseries.Chain' (fun p q => p.timestamp ≠ q.timestamp) ∧
        (([messageAt 0, messageAt 15].map (·.timestamp.secs)).Sorted (· ≤ ·) →
          (agg.currentStats.rateTimeseries.map (·.timestamp.secs)).Sorted (· < ·) ∧
          ([messageAt 0, messageAt 15].length < 2 ^ 64 → ∀ p ∈ agg.currentStats.rateTimeseries,
            p.count = [messageAt 0, messageAt 15].countP fun m =>
              agg.getBucketStart m.timestamp = some p.timestamp)) :=
  ⟨⟨by decide, by decide⟩,
    rate_timeseries_sorted 10 50 10 (by decide) (by decide) [messageAt 0, messageAt 15]⟩

/-- Timestamps `0`, `15`, `5` with ten-second buckets: the third message goes back to the
first bucket, and the series reports that bucket twice, after a later one. -/
theorem rate_timeseries_out_of_order :
    ((withConfig 10 50 10).run [messageAt 0, messageAt 15, messageAt 5]).map
        (fun agg => agg.currentStats.rateTimeseries.map fun p => (p.timestamp.secs, p.count)) =
      some [(0, 1), (10, 1), (0, 1)] := by
  decide

/-- **The rate series is the run-length encoding of the bucket starts.** From a fresh
aggregator (as `with_config`, `checkpoint` and `reset` leave it) with a bucket duration
`1 ≤ d < 2 ^ 64`, and for fewer than `2 ^ 64` messages in any order: each message has a
bucket start, every call returns, and `current_stats` and `finalize` both report the
maximal runs of equal neighbouring bucket starts, each with its length, of which the
last `max_rate_points + 1` are kept. -/
theorem rate_timeseries_runs (maxTopTalkers maxWords d : Nat) (hd : 0 < d) (hd' : d < 2 ^ 64)
    (msgs : List Message) (hN : msgs.length < 2 ^ 64) :
    List.Forall₂ (fun m b => (withConfig maxTopTalkers maxWords d).getBucketStart m.timestamp = some b)
      msgs (bucketStarts (withConfig maxTopTalkers maxWords d) msgs) ∧
    ∃ agg, (withConfig maxTopTalkers maxWords d).run msgs = some agg ∧
      (∀ endTime, (agg.finalize endTime).rateTimeseries = agg.currentStats.rateTimeseries) ∧
      agg.currentStats.rateTimeseries =
        ((runs (bucketStarts (withConfig maxTopTalkers maxWords d) msgs)).drop
          ((runs (bucketStarts (withConfig maxTopTalkers maxWords d) msgs)).length -
            ((withConfig maxTopTalkers maxWords d).maxRatePoints + 1))).map
          (fun r => ⟨r.1, r.2⟩) ∧
      agg.currentStats.rateTimeseries.length ≤ (withConfig maxTopTalkers maxWords d).maxRatePoints + 1 := by
  set self := withConfig maxTopTalkers maxWords d
  have hd₀ : asI64 self.bucketDurationSecs ≠ 0 := asI64_ne_zero hd hd'
  obtain ⟨agg, hrun, -, hseries⟩ := run_rateTimeseries hd₀ (rateInv_nil _) msgs
  -- no run is longer than the messages, so no count wraps
  have hlen : (bucketStarts self msgs).length ≤ msgs.length := List.length_filterMap_le _ _
  have hexact : ∀ r ∈ runs (bucketStarts self msgs), wrapRun r = ⟨r.1, r.2⟩ := fun r hr => by
    have := List.le_sum_of_mem (List.mem_map_of_mem Prod.snd hr)
    rw [sum_runs] at this
    exact wrapRun_of_lt (by omega)
  refine ⟨forall₂_bucketStarts hd₀ msgs, agg, hrun,
    fun e => by rw [finalize_rateTimeseries, currentStats_rateTimeseries], ?_, ?_⟩
  · rw [hseries]
    exact List.map_congr_left fun r hr => hexact r (List.mem_of_mem_drop hr)
  · rw [hseries, List.length_map, List.length_drop]
    omega

theorem rate_timeseries_runs_default :
    (0 < 10 ∧ 10 < 2 ^ 64 ∧ [messageAt 0, messageAt 15].length < 2 ^ 64) ∧
    List.Forall₂ (fun m b => (withConfig 10 50 10).getBucketStart m.timestamp = some b)
      [messageAt 0, messageAt 15] (bucketStarts (withConfig 10 50 10) [messageAt 0, messageAt 15]) ∧
    ∃ agg, (withConfig 10 50 10).run [messageAt 0, messageAt 15] = some agg ∧
      (∀ endTime, (agg.finalize endTime).rateTimeseries = agg.currentStats.rateTimeseries) ∧
      agg.currentStats.rateTimeseries =
        ((runs (bucketStarts (withConfig 10 50 10) [messageAt 0, messageAt 15])).drop
          ((runs (bucketStarts (withConfig 10 50 10) [messageAt 0, messageAt 15])).length -
            ((withConfig 10 50 10).maxRatePoints + 1))).map
          (fun r => ⟨r.1, r.2⟩) ∧
      agg.currentStats.rateTimeseries.length ≤ (withConfig 10 50 10).maxRatePoints + 1 :=
  ⟨⟨by decide, by decide, by decide⟩,
    rate_timeseries_runs 10 50 10 (by decide) (by decide) [messageAt 0, messageAt 15] (by decide)⟩

/-- `2 ^ 64` messages in one second: their bucket starts are one run of length `2 ^ 64`,
and the series reports that bucket with its count wrapped to `0`. -/
theorem rate_count_wraps :
    runs (bucketStarts (withConfig 10 50 10) (List.replicate (2 ^ 64) (messageAt 0))) =
      [((messageAt 0).timestamp, 2 ^ 64)] ∧
    ((withConfig 10 50 10).run (List.replicate (2 ^ 64) (messageAt 0))).map
      (·.currentStats.rateTimeseries) = some [⟨(messageAt 0).timestamp, 0⟩] := by
  have hruns : runs (bucketStarts (withConfig 10 50 10) (List.replicate (2 ^ 64) (messageAt 0))) =
      [((messageAt 0).timestamp, 2 ^ 64)] := by
    have hb : (withConfig 10 50 10).getBucketStart (messageAt 0).timestamp =
        some (messageAt 0).timestamp := by
      decide
    rw [bucketStarts_replicate hb, runs_replicate _ (Nat.two_pow_pos 64)]
  obtain ⟨agg, hrun, -, hseries⟩ := run_rateTimeseries
    (show asI64 (withConfig 10 50 10).bucketDurationSecs ≠ 0 by decide) (rateInv_nil _)
    (List.replicate (2 ^ 64) (messageAt 0))
  refine ⟨hruns, ?_⟩
  rw [hrun, Option.map_some', hseries, hruns]
  rfl

end RustSrec.Danmaku
