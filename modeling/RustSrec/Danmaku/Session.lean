import RustSrec.Danmaku.Ranking
import RustSrec.Danmaku.RateSeries

/-!
# A session of the aggregator

The collection runner owns one `StatisticsAggregator` and makes four kinds of call on
it (`Call`): `record_message`, `current_stats`, `checkpoint` and `reset`; `finalize`
ends the session. `runCalls` runs a sequence of calls and keeps the snapshots the
checkpoints return; `current_stats` changes nothing, and its snapshot is the
aggregator's `currentStats` where it is made.

- `finalize` reports what `current_stats` does, with the end time and the duration
  added, and `into_top_n` ranks as `top_n` does (`finalize_agrees_with_current_stats`).
- Each snapshot counts the messages recorded since the aggregator was created, or last
  checkpointed or reset (`segments`), and a run of checkpoints counts every message
  once (`snapshot_counts`). The aggregator-side invariant is `Tallies`.
- Which entry an eviction drops depends on the map's iteration order, and the snapshot
  shows it (`eviction_tie_changes_top_talkers`).
- The one panic of these calls is the division by a zero bucket duration
  (`record_zero_duration_panics`); with a duration in `1 ≤ d < 2 ^ 64` no call panics,
  no `+=` reaches `2 ^ 64` below `2 ^ 64` messages, and every index into the sketch is
  in bounds (`session_never_panics`).
-/

namespace RustSrec.Danmaku

/-- The map iterating its entries backwards. -/
def IterOrder.reverse : IterOrder := ⟨List.reverse, List.reverse_perm⟩

namespace StatisticsAggregator

/-! ## Calls -/

/-- A call the runner makes on its aggregator. -/
inductive Call where
  | recordMessage (m : Message)
  | currentStats
  | checkpoint (endTime : DateTime)
  | reset

/-- One call on the aggregator and the checkpoint snapshots so far; `none` if it panics. -/
def Call.step : StatisticsAggregator × List DanmuStatistics → Call →
    Option (StatisticsAggregator × List DanmuStatistics)
  | (agg, snaps), .recordMessage m => (agg.record m).map (·, snaps)
  | (agg, snaps), .currentStats => some (agg, snaps)
  | (agg, snaps), .checkpoint e => some ((agg.checkpoint e).1, snaps ++ [(agg.checkpoint e).2])
  | (agg, snaps), .reset => some (agg.reset, snaps)

/-- The aggregator after `calls`, and the snapshots its checkpoints returned, in order;
`none` if a call panics. -/
def runCalls (self : StatisticsAggregator) (calls : List Call) :
    Option (StatisticsAggregator × List DanmuStatistics) :=
  calls.foldlM Call.step (self, [])

theorem runCalls_append (self : StatisticsAggregator) (calls : List Call) (c : Call) :
    self.runCalls (calls ++ [c]) = (self.runCalls calls).bind (Call.step · c) := by
  simp [runCalls, List.foldlM_append]

/-- The message a call records. -/
def Call.message? : Call → Option Message
  | .recordMessage m => some m
  | _ => none

/-- The messages the calls record. -/
def records (calls : List Call) : List Message := calls.filterMap Call.message?

/-- How a call moves the messages the snapshots are to count: a record joins the open
segment, a checkpoint closes it, a reset drops it. -/
def Call.segment : List (List Message) × List Message → Call → List (List Message) × List Message
  | (closed, cur), .recordMessage m => (closed, cur ++ [m])
  | (closed, cur), .currentStats => (closed, cur)
  | (closed, cur), .checkpoint _ => (closed ++ [cur], [])
  | (closed, _), .reset => (closed, [])

/-- The messages each checkpoint's snapshot is to count, and those recorded since the
last checkpoint or reset. -/
def segments (calls : List Call) : List (List Message) × List Message :=
  calls.foldl Call.segment ([], [])

theorem segments_append (calls : List Call) (c : Call) :
    segments (calls ++ [c]) = Call.segment (segments calls) c := by
  simp [segments]

theorem records_append (calls : List Call) (c : Call) :
    records (calls ++ [c]) = records calls ++ c.message?.toList := by
  cases c <;> simp [records, Call.message?]

theorem length_segments_le (calls : List Call) : (segments calls).2.length ≤ (records calls).length := by
  induction calls using List.reverseRecOn with
  | nil => simp [segments, records]
  | append_singleton calls c ih =>
    rw [segments_append, records_append]
    generalize segments calls = p at ih
    obtain ⟨closed, cur⟩ := p
    cases c <;> simp only [Call.segment, Call.message?, List.length_append, Option.toList] at ih ⊢ <;> omega

/-- Without a reset, the checkpoints' segments and the open one are every message, in
order. -/
theorem segments_partition (calls : List Call) (h : ∀ c ∈ calls, c ≠ .reset) :
    (segments calls).1.flatten ++ (segments calls).2 = records calls := by
  induction calls using List.reverseRecOn with
  | nil => rfl
  | append_singleton calls c ih =>
    have ih := ih fun c' hc' => h c' (List.mem_append_left _ hc')
    rw [segments_append, records_append, ← ih]
    obtain ⟨closed, cur⟩ := segments calls
    cases c
    case reset => exact absurd rfl (h _ (List.mem_append_right _ (List.mem_singleton_self _)))
    all_goals simp [Call.segment, Call.message?]

/-! ## `finalize` and `current_stats` -/

/-- **`finalize` against `current_stats`.** On every aggregator, `finalize(e)` reports
what `current_stats()` does, with `end_time = Some(e)` and the duration
`max(0, (e - start).num_seconds())` (`0` without a start); `into_top_n` returns what
`top_n` does on both tables. -/
theorem finalize_agrees_with_current_stats (agg : StatisticsAggregator) (endTime : DateTime) :
    agg.finalize endTime =
      { agg.currentStats with
        endTime := some endTime
        durationSecs := (agg.startTime.map fun start => (max (endTime.numSecondsSince start) 0).toNat).getD 0 } ∧
    (∀ n, agg.talkerHh.intoTopN n = agg.talkerHh.topN n) ∧
    (∀ n, agg.wordHh.intoTopN n = agg.wordHh.topN n) := by
  refine ⟨?_, TalkerHeavyHitters.intoTopN_eq_topN _, WordHeavyHitters.intoTopN_eq_topN _⟩
  simp only [finalize, currentStats, TalkerHeavyHitters.intoTopN_eq_topN,
    WordHeavyHitters.intoTopN_eq_topN]
  cases agg.startTime <;> rfl

/-! ## Counts -/

/-- A snapshot counts the messages `ms`: gifts and chats apart, their sum, and the first
one's time as the start. -/
structure Counted (s : DanmuStatistics) (ms : List Message) : Prop where
  gift : s.giftCount = ms.countP (·.isGift)
  chat : s.chatCount = ms.countP (!·.isGift)
  total : s.totalCount = s.chatCount + s.giftCount
  start : s.startTime = ms.head?.map (·.timestamp)

/-- The aggregator's counters and start time after recording `ms`. -/
structure Tallies (agg : StatisticsAggregator) (ms : List Message) : Prop where
  gift : agg.giftCount = ms.countP (·.isGift)
  chat : agg.chatCount = ms.countP (!·.isGift)
  total : agg.totalCount = ms.length
  start : agg.startTime = ms.head?.map (·.timestamp)

theorem tallies_withConfig (maxTopTalkers maxWords bucketDurationSecs : Nat) :
    Tallies (withConfig maxTopTalkers maxWords bucketDurationSecs) [] :=
  ⟨rfl, rfl, rfl, rfl⟩

theorem Tallies.reset {agg : StatisticsAggregator} {ms : List Message} (_ : Tallies agg ms) :
    Tallies agg.reset [] :=
  tallies_withConfig _ _ _

/-- What `record_message` does to the counters and the start time. -/
theorem record_tallies {self agg : StatisticsAggregator} {m : Message} (h : self.record m = some agg) :
    agg.totalCount = wrappingAdd self.totalCount 1 ∧
    agg.giftCount = (if m.isGift then wrappingAdd self.giftCount 1 else self.giftCount) ∧
    agg.chatCount = (if m.isGift then self.chatCount else wrappingAdd self.chatCount 1) ∧
    agg.startTime = (if self.startTime.isNone then some m.timestamp else self.startTime) := by
  simp only [record, recordMessage, updateRateBucket, Option.map_eq_some'] at h
  obtain ⟨b, -, rfl⟩ := h
  exact ⟨rfl, rfl, rfl, rfl⟩

/-- The step: below `2 ^ 64` messages no counter wraps. -/
theorem Tallies.record {self agg : StatisticsAggregator} {ms : List Message} {m : Message}
    (h : Tallies self ms) (hN : ms.length + 1 < 2 ^ 64) (hr : self.record m = some agg) :
    Tallies agg (ms ++ [m]) := by
  obtain ⟨ht, hg, hc, hs⟩ := record_tallies hr
  have hg' := List.countP_le_length (·.isGift) (l := ms)
  have hc' := List.countP_le_length (!·.isGift) (l := ms)
  refine ⟨?_, ?_, ?_, ?_⟩
  · rw [hg, h.gift]
    cases hm : m.isGift
    · simp [hm]
    · simp [hm, wrappingAdd_of_lt (show ms.countP (·.isGift) + 1 < 2 ^ 64 by omega)]
  · rw [hc, h.chat]
    cases hm : m.isGift
    · simp [hm, wrappingAdd_of_lt (show ms.countP (!·.isGift) + 1 < 2 ^ 64 by omega)]
    · simp [hm]
  · rw [ht, h.total, wrappingAdd_of_lt hN, List.length_append, List.length_singleton]
  · rw [hs, h.start]
    cases ms <;> simp

theorem Tallies.counted_currentStats {agg : StatisticsAggregator} {ms : List Message}
    (h : Tallies agg ms) : Counted agg.currentStats ms :=
  ⟨h.gift, h.chat, by
    show agg.totalCount = agg.chatCount + agg.giftCount
    rw [h.total, h.chat, h.gift, List.length_eq_countP_add_countP (·.isGift)]
    simp [Nat.add_comm], h.start⟩

theorem Tallies.counted_finalize {agg : StatisticsAggregator} {ms : List Message}
    (h : Tallies agg ms) (endTime : DateTime) : Counted (agg.finalize endTime) ms := by
  have := h.counted_currentStats
  rw [(finalize_agrees_with_current_stats agg endTime).1]
  exact ⟨this.gift, this.chat, this.total, this.start⟩

/-- The run: the aggregator tallies the open segment and each checkpoint's snapshot
counts its own. -/
theorem runCalls_tallies (maxTopTalkers maxWords d : Nat) (calls : List Call)
    (hN : (records calls).length < 2 ^ 64) {agg : StatisticsAggregator} {snaps : List DanmuStatistics}
    (h : (withConfig maxTopTalkers maxWords d).runCalls calls = some (agg, snaps)) :
    Tallies agg (segments calls).2 ∧ List.Forall₂ Counted snaps (segments calls).1 := by
  induction calls using List.reverseRecOn generalizing agg snaps with
  | nil =>
    obtain ⟨rfl, rfl⟩ := Prod.mk.inj (Option.some.inj h)
    exact ⟨tallies_withConfig _ _ _, .nil⟩
  | append_singleton calls c ih =>
    rw [runCalls_append] at h
    obtain ⟨⟨agg₀, snaps₀⟩, h₀, hc⟩ := Option.bind_eq_some.1 h
    have hlen := length_segments_le calls
    rw [records_append, List.length_append] at hN
    obtain ⟨hT, hF⟩ := ih (by omega) h₀
    rw [segments_append]
    generalize segments calls = p at hT hF hlen
    obtain ⟨closed, cur⟩ := p
    cases c with
    | recordMessage m =>
      obtain ⟨agg', hr, he⟩ := Option.map_eq_some'.1 hc
      obtain ⟨rfl, rfl⟩ := Prod.mk.inj he
      simp only [Call.message?, Option.toList, List.length_singleton] at hN
      exact ⟨hT.record (by omega) hr, hF⟩
    | currentStats =>
      obtain ⟨rfl, rfl⟩ := Prod.mk.inj (Option.some.inj hc)
      exact ⟨hT, hF⟩
    | checkpoint e =>
      obtain ⟨rfl, rfl⟩ := Prod.mk.inj (Option.some.inj hc)
      exact ⟨hT.reset, List.rel_append hF (.cons (hT.counted_finalize e) .nil)⟩
    | reset =>
      obtain ⟨rfl, rfl⟩ := Prod.mk.inj (Option.some.inj hc)
      exact ⟨hT.reset, hF⟩

/-- **Counts of every snapshot.** For every configuration and every sequence of calls
with fewer than `2 ^ 64` messages, each checkpoint's snapshot, and the `current_stats`
and `finalize` snapshots at the end (every snapshot is one of these at some prefix),
counts gifts, chats and their sum, and takes its start from the first message, over
the messages recorded since the aggregator was created or last checkpointed or reset;
without a reset, those segments are every message, each once. -/
theorem snapshot_counts (maxTopTalkers maxWords d : Nat) (calls : List Call)
    (hN : (records calls).length < 2 ^ 64) {agg : StatisticsAggregator} {snaps : List DanmuStatistics}
    (h : (withConfig maxTopTalkers maxWords d).runCalls calls = some (agg, snaps)) :
    List.Forall₂ Counted snaps (segments calls).1 ∧
    (∀ endTime, Counted agg.currentStats (segments calls).2 ∧
      Counted (agg.finalize endTime) (segments calls).2) ∧
    ((∀ c ∈ calls, c ≠ .reset) → (segments calls).1.flatten ++ (segments calls).2 = records calls) := by
  obtain ⟨hT, hF⟩ := runCalls_tallies maxTopTalkers maxWords d calls hN h
  exact ⟨hF, fun e => ⟨hT.counted_currentStats, hT.counted_finalize e⟩, segments_partition calls⟩

/-- Two messages, a checkpoint between them. -/
def checkpointedCalls : List Call :=
  [.recordMessage (messageAt 0), .checkpoint (messageAt 5).timestamp, .recordMessage (messageAt 15)]

theorem snapshot_counts_checkpointed :
    (records checkpointedCalls).length < 2 ^ 64 ∧
    List.Forall₂ Counted (((withConfig 10 50 10).runCalls checkpointedCalls).getD (new, [])).2
      (segments checkpointedCalls).1 ∧
    (∀ endTime,
      Counted (((withConfig 10 50 10).runCalls checkpointedCalls).getD (new, [])).1.currentStats
        (segments checkpointedCalls).2 ∧
      Counted ((((withConfig 10 50 10).runCalls checkpointedCalls).getD (new, [])).1.finalize endTime)
        (segments checkpointedCalls).2) ∧
    ((∀ c ∈ checkpointedCalls, c ≠ .reset) →
      (segments checkpointedCalls).1.flatten ++ (segments checkpointedCalls).2 = records checkpointedCalls) :=
  ⟨by decide, snapshot_counts 10 50 10 checkpointedCalls (by decide) rfl⟩

/-! ## Eviction ties -/

/-- Both snapshots' top talkers after a run, from its table's entries listed in rank
order: `top_n` ranks the entries whatever order the map keeps them in. -/
theorem run_topTalkers {self : StatisticsAggregator} {ms : List Message}
    (entries l : List (String × TalkerCounter)) (n : Nat)
    (h : (self.run ms).map (fun agg => (agg.talkerHh.counters.entries, agg.maxTopTalkers)) =
      some (entries, n))
    (hnd : (entries.map Prod.fst).Nodup) (hp : l.Perm entries)
    (hs : l.Pairwise fun a b => RankedBefore (a.2.count, a.1) (b.2.count, b.1)) (endTime : DateTime) :
    (self.run ms).map (fun agg => (agg.currentStats.topTalkers, (agg.finalize endTime).topTalkers)) =
      some ((l.take n).map TalkerHeavyHitters.row, (l.take n).map TalkerHeavyHitters.row) := by
  obtain ⟨agg, hagg, he⟩ := Option.map_eq_some'.1 h
  obtain ⟨h₁, rfl⟩ := Prod.mk.inj he
  rw [hagg, Option.map_some']
  simp only [currentStats, finalize, TalkerHeavyHitters.intoTopN_eq_topN,
    TalkerHeavyHitters.topN_eq_topRows, h₁, topRows_eq_of_ranked _ hnd hp hs]

/-- Seventeen users with one message each, at one second and with no words; every
lookup iterates in the order `it`. -/
def tieStream (it : IterOrder) : List Message :=
  ["a", "b", "c", "d", "e", "f", "g", "h", "i", "j", "k", "l", "m", "n", "o", "p", "q"].map
    fun u => ⟨fun _ => it, asciiLowercase, u, u, "", false, (messageAt 0).timestamp⟩

/-- **Eviction ties show in the snapshots.** With `max_top_talkers = 2` the talker table
holds 16 users, so the seventeenth user evicts one of sixteen entries of count 1. In
stored order `min_by_key` picks `a`, backwards `p`; the second top talker of both
`current_stats` and `finalize` is then `b` in one run and `a` in the other. -/
theorem eviction_tie_changes_top_talkers (endTime : DateTime) :
    ((withConfig 2 50 10).run (tieStream .id)).map
        (fun agg => (agg.currentStats.topTalkers, (agg.finalize endTime).topTalkers)) =
      some ([⟨"q", "q", 2⟩, ⟨"b", "b", 1⟩], [⟨"q", "q", 2⟩, ⟨"b", "b", 1⟩]) ∧
    ((withConfig 2 50 10).run (tieStream .reverse)).map
        (fun agg => (agg.currentStats.topTalkers, (agg.finalize endTime).topTalkers)) =
      some ([⟨"q", "q", 2⟩, ⟨"a", "a", 1⟩], [⟨"q", "q", 2⟩, ⟨"a", "a", 1⟩]) := by
  constructor
  · exact run_topTalkers
      ((["b", "c", "d", "e", "f", "g", "h", "i", "j", "k", "l", "m", "n", "o", "p"].map
        fun u => (u, ⟨u, 1, 0⟩)) ++ [("q", ⟨"q", 2, 1⟩)])
      (("q", ⟨"q", 2, 1⟩) :: ["b", "c", "d", "e", "f", "g", "h", "i", "j", "k", "l", "m", "n", "o", "p"].map
        fun u => (u, ⟨u, 1, 0⟩))
      2 (by decide) (by decide) (List.perm_append_singleton _ _).symm (by decide) endTime
  · exact run_topTalkers
      ((["a", "b", "c", "d", "e", "f", "g", "h", "i", "j", "k", "l", "m", "n", "o"].map
        fun u => (u, ⟨u, 1, 0⟩)) ++ [("q", ⟨"q", 2, 1⟩)])
      (("q", ⟨"q", 2, 1⟩) :: ["a", "b", "c", "d", "e", "f", "g", "h", "i", "j", "k", "l", "m", "n", "o"].map
        fun u => (u, ⟨u, 1, 0⟩))
      2 (by decide) (by decide) (List.perm_append_singleton _ _).symm (by decide) endTime

/-! ## Panics -/

/-- What `record_message` keeps: the configuration, and the word table is
`process_words` on a chat message with content. -/
theorem record_config {self agg : StatisticsAggregator} {m : Message} (h : self.record m = some agg) :
    agg.bucketDurationSecs = self.bucketDurationSecs ∧ agg.maxTopTalkers = self.maxTopTalkers ∧
    agg.maxWords = self.maxWords ∧
    agg.wordHh = (if !m.isGift && !m.content.isEmpty then
      processWords m.orders m.lower self.wordHh m.content else self.wordHh) := by
  simp only [record, recordMessage, updateRateBucket, Option.map_eq_some'] at h
  obtain ⟨b, -, rfl⟩ := h
  exact ⟨rfl, rfl, rfl, rfl⟩

/-- With a zero bucket duration `record_message` divides by zero. -/
theorem record_none_of_zero {self : StatisticsAggregator} (h : self.bucketDurationSecs = 0) (m : Message) :
    self.record m = none := by
  simp [record, recordMessage, updateRateBucket, getBucketStart, h, asI64, i64Div]

/-- From a zero duration, a run returns while it records nothing, and panics at its
first `record_message`. -/
theorem runCalls_zero (maxTopTalkers maxWords : Nat) (calls : List Call) :
    (records calls = [] → ∃ r, (withConfig maxTopTalkers maxWords 0).runCalls calls = some r ∧
      r.1.bucketDurationSecs = 0) ∧
    (records calls ≠ [] → (withConfig maxTopTalkers maxWords 0).runCalls calls = none) := by
  induction calls using List.reverseRecOn with
  | nil => exact ⟨fun _ => ⟨_, rfl, rfl⟩, fun h => absurd rfl h⟩
  | append_singleton calls c ih =>
    rw [runCalls_append, records_append]
    by_cases h : records calls = []
    · obtain ⟨⟨agg, snaps⟩, hr, hd⟩ := ih.1 h
      rw [hr, Option.some_bind]
      cases c with
      | recordMessage m =>
        refine ⟨fun h' => by simp [Call.message?] at h', fun _ => ?_⟩
        simp [Call.step, record_none_of_zero hd]
      | _ => exact ⟨fun _ => ⟨_, rfl, hd⟩, fun h' => by simp [h, Call.message?] at h'⟩
    · rw [ih.2 h, Option.none_bind]
      exact ⟨fun h' => absurd (List.append_eq_nil.1 h').1 h, fun _ => rfl⟩

/-- **A zero bucket duration panics.** `with_config` accepts `bucket_duration_secs = 0`;
from such an aggregator a sequence of calls panics exactly when it records a message,
whatever the other settings, the messages and the calls in between (`checkpoint` and
`reset` keep the duration). -/
theorem record_zero_duration_panics (maxTopTalkers maxWords : Nat) (calls : List Call) :
    (withConfig maxTopTalkers maxWords 0).runCalls calls = none ↔ records calls ≠ [] := by
  obtain ⟨h₁, h₂⟩ := runCalls_zero maxTopTalkers maxWords calls
  refine ⟨fun h hr => ?_, h₂⟩
  obtain ⟨r, hr, -⟩ := h₁ hr
  rw [h] at hr
  cases hr

/-- What `record_message` needs in order to panic in none of its operations: the bucket
division is defined, no `+= 1` reaches `2 ^ 64` (the three counters and the open
bucket's count), and the word table's sketch has every row and column that
`increment` and `estimate` index (`WellShaped`, which each `increment` keeps). -/
structure RecordSafe (agg : StatisticsAggregator) (m : Message) : Prop where
  bucket : (agg.getBucketStart m.timestamp).isSome
  total : agg.totalCount + 1 < 2 ^ 64
  gift : agg.giftCount + 1 < 2 ^ 64
  chat : agg.chatCount + 1 < 2 ^ 64
  bucketCount : ∀ b c, agg.currentBucket = some (b, c) → c + 1 < 2 ^ 64
  sketch : ∀ s ∈ agg.wordHh.sketch, s.WellShaped

/-- The invariant behind `RecordSafe`, after `n` recorded messages: a non-zero duration
as `i64`, every count at most `n`, and a well-shaped sketch. -/
structure Bounded (agg : StatisticsAggregator) (n : Nat) : Prop where
  duration : asI64 agg.bucketDurationSecs ≠ 0
  total : agg.totalCount ≤ n
  gift : agg.giftCount ≤ n
  chat : agg.chatCount ≤ n
  bucketCount : ∀ b c, agg.currentBucket = some (b, c) → c ≤ n
  sketch : ∀ s ∈ agg.wordHh.sketch, s.WellShaped

theorem bounded_withConfig (maxTopTalkers maxWords d : Nat) (hd : asI64 d ≠ 0) :
    Bounded (withConfig maxTopTalkers maxWords d) 0 where
  duration := hd
  total := le_rfl
  gift := le_rfl
  chat := le_rfl
  bucketCount := fun _ _ h => by cases h
  sketch := fun _ h => Option.some.inj h ▸ CountMinSketch.wellShaped_new _ _

theorem Bounded.reset {agg : StatisticsAggregator} {n : Nat} (h : Bounded agg n) :
    Bounded agg.reset n where
  duration := h.duration
  total := Nat.zero_le _
  gift := Nat.zero_le _
  chat := Nat.zero_le _
  bucketCount := fun _ _ h => by cases h
  sketch := (bounded_withConfig _ _ _ h.duration).sketch

theorem Bounded.recordSafe {agg : StatisticsAggregator} {n : Nat} (h : Bounded agg n)
    (hn : n + 1 < 2 ^ 64) (m : Message) : RecordSafe agg m where
  bucket := by
    obtain ⟨b, hb, -⟩ := getBucketStart_spec h.duration m.timestamp
    rw [hb]; rfl
  total := by have := h.total; omega
  gift := by have := h.gift; omega
  chat := by have := h.chat; omega
  bucketCount := fun b c hc => by have := h.bucketCount b c hc; omega
  sketch := h.sketch

/-- `process_words` keeps the sketch well shaped. -/
theorem processWords_sketch (orders : Nat → IterOrder) (lower : String → String)
    {hh : WordHeavyHitters} (content : String) (h : ∀ s ∈ hh.sketch, s.WellShaped) :
    ∀ s ∈ (processWords orders lower hh content).sketch, s.WellShaped := by
  unfold processWords
  induction (tokens content).enum generalizing hh with
  | nil => exact h
  | cons x xs ih =>
    refine ih ?_
    dsimp only
    split
    · exact h
    · rw [WordHeavyHitters.sketch_increment]
      intro s hs
      obtain ⟨s₀, hs₀, rfl⟩ := Option.map_eq_some'.1 hs
      exact (h s₀ hs₀).increment _ _

/-- The open bucket's count grows by one at most. -/
theorem advanceBucket_count (M : Nat) (b : DateTime) (rd : List RateDataPoint) {n : Nat}
    {cb : Option (DateTime × Nat)} (h : ∀ b c, cb = some (b, c) → c ≤ n) (hn : n + 1 < 2 ^ 64) :
    ∀ b' c', (advanceBucket M b (rd, cb)).2 = some (b', c') → c' ≤ n + 1 := by
  intro b' c' h'
  cases cb with
  | none => cases h'; omega
  | some r =>
    obtain ⟨start, count⟩ := r
    have := h start count rfl
    simp only [advanceBucket] at h'
    split_ifs at h' <;> simp only [Option.some.injEq, Prod.mk.injEq] at h' <;> obtain ⟨-, rfl⟩ := h'
    · rw [wrappingAdd_of_lt (by omega)]; omega
    · omega

/-- The step: below `2 ^ 64` messages `record_message` returns and keeps the bounds. -/
theorem Bounded.record {agg : StatisticsAggregator} {n : Nat} (h : Bounded agg n)
    (hn : n + 1 < 2 ^ 64) (m : Message) : ∃ agg', agg.record m = some agg' ∧ Bounded agg' (n + 1) := by
  obtain ⟨b, hb, -⟩ := getBucketStart_spec h.duration m.timestamp
  obtain ⟨agg', hr, -, -, hst⟩ := record_eq_some hb
  obtain ⟨ht, hg, hc, -⟩ := record_tallies hr
  obtain ⟨hd, -, -, hw⟩ := record_config hr
  have := h.total
  have := h.gift
  have := h.chat
  refine ⟨agg', hr, ⟨hd ▸ h.duration, ?_, ?_, ?_, ?_, ?_⟩⟩
  · rw [ht, wrappingAdd_of_lt (by omega)]; omega
  · rw [hg]; split
    · rw [wrappingAdd_of_lt (by omega)]; omega
    · omega
  · rw [hc]; split
    · omega
    · rw [wrappingAdd_of_lt (by omega)]; omega
  · have := advanceBucket_count agg.maxRatePoints b agg.rateData h.bucketCount hn
    rwa [← hst] at this
  · rw [hw]; split
    · exact processWords_sketch _ _ _ h.sketch
    · exact h.sketch

/-- The run: every call returns, and the bounds hold after each prefix. -/
theorem runCalls_bounded (maxTopTalkers maxWords d : Nat) (hd : asI64 d ≠ 0) (calls : List Call)
    (hN : (records calls).length < 2 ^ 64) :
    ∃ r, (withConfig maxTopTalkers maxWords d).runCalls calls = some r ∧
      Bounded r.1 (records calls).length := by
  induction calls using List.reverseRecOn with
  | nil => exact ⟨_, rfl, bounded_withConfig _ _ _ hd⟩
  | append_singleton calls c ih =>
    rw [records_append, List.length_append] at hN ⊢
    obtain ⟨⟨agg, snaps⟩, hr, hb⟩ := ih (by omega)
    rw [runCalls_append, hr, Option.some_bind]
    cases c with
    | recordMessage m =>
      obtain ⟨agg', h', hb'⟩ := hb.record hN m
      exact ⟨(agg', snaps), by simp [Call.step, h'], hb'⟩
    | currentStats => exact ⟨_, rfl, hb⟩
    | checkpoint e => exact ⟨_, rfl, hb.reset⟩
    | reset => exact ⟨_, rfl, hb.reset⟩

/-- **No call panics.** For every configuration whose bucket duration is a non-zero
`u64` and every sequence of calls with fewer than `2 ^ 64` messages, every call returns,
and every `record_message` is made on an aggregator where none of its operations
panics (`RecordSafe`): the bucket division is defined, no `+= 1` reaches `2 ^ 64`, and
every sketch index is in bounds. The run starts from the aggregator `with_config`
returns: that call allocates the sketch's rows with `vec![0; width]`, which panics with
a capacity overflow, or aborts when the allocation fails, for a large enough
`max_words`, and `reset` and `checkpoint` make the same allocation again. Apart from
these allocations, `current_stats`, `checkpoint`, `reset` and `finalize` have no
operation that panics in a release build. -/
theorem session_never_panics (maxTopTalkers maxWords d : Nat) (hd : 0 < d) (hd' : d < 2 ^ 64)
    (calls : List Call) (hN : (records calls).length < 2 ^ 64) :
    (∃ r, (withConfig maxTopTalkers maxWords d).runCalls calls = some r) ∧
    ∀ pre m post, calls = pre ++ .recordMessage m :: post →
      ∃ r, (withConfig maxTopTalkers maxWords d).runCalls pre = some r ∧ RecordSafe r.1 m := by
  have hd₀ := asI64_ne_zero hd hd'
  refine ⟨(runCalls_bounded _ _ _ hd₀ calls hN).imp fun _ h => h.1, fun pre m post hc => ?_⟩
  have hlen : (records pre).length + 1 ≤ (records calls).length := by
    simp [hc, records, List.filterMap_append, Call.message?]
  obtain ⟨r, hr, hb⟩ := runCalls_bounded _ _ _ hd₀ pre (by omega)
  exact ⟨r, hr, hb.recordSafe (by omega) m⟩

theorem session_never_panics_checkpointed :
    (0 < 10 ∧ 10 < 2 ^ 64 ∧ (records checkpointedCalls).length < 2 ^ 64) ∧
    (∃ r, (withConfig 10 50 10).runCalls checkpointedCalls = some r) ∧
    ∀ pre m post, checkpointedCalls = pre ++ .recordMessage m :: post →
      ∃ r, (withConfig 10 50 10).runCalls pre = some r ∧ RecordSafe r.1 m :=
  ⟨⟨by decide, by decide, by decide⟩,
    session_never_panics 10 50 10 (by decide) (by decide) checkpointedCalls (by decide)⟩

end StatisticsAggregator

end RustSrec.Danmaku
