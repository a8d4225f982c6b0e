import RustSrec.Danmaku.HeavyHitters

/-!
# `StatisticsAggregator`

The per-session aggregator: three message counters, the two heavy-hitter tables,
the rate series (closed buckets in `rate_data`, the open one in `current_bucket`)
and the session's start time. `record_message` touches every part; `finalize`
and `current_stats` read them into a `DanmuStatistics`; `checkpoint` and `reset`
start over from `with_config`.

Every `HashMap` lookup of one `record_message` call sees an iteration order of its
own: `orders 0` for the talker table and `orders (i + 1)` for the word table at the
`i`-th token. A `u64 +=` wraps (`wrappingAdd`), as in a release build; the one
panic the code can reach, `/` by a zero bucket duration in `get_bucket_start`, makes
`record_message` return `none`.

The text path follows `process_words`: split on Unicode white space and ASCII
punctuation, drop empty pieces, lowercase, and skip words shorter than two bytes or
in the stop-word set. The lowercasing, `str::to_lowercase` with its Unicode case
tables, is a map each message carries, as it carries its iteration orders: the
theorems hold for every such map.
-/

namespace RustSrec.Danmaku

/-! ## Snapshot rows -/

structure RateDataPoint where
  timestamp : DateTime
  count : Nat
  deriving DecidableEq, Repr

structure DanmuStatistics where
  totalCount : Nat
  chatCount : Nat
  giftCount : Nat
  topTalkers : List TopTalker
  wordFrequency : List WordFrequency
  rateTimeseries : List RateDataPoint
  startTime : Option DateTime
  endTime : Option DateTime
  durationSecs : Nat
  deriving DecidableEq, Repr

/-- `DanmuStatistics::default()`. -/
def DanmuStatistics.default : DanmuStatistics := ⟨0, 0, 0, [], [], [], none, none, 0⟩

/-! ## Words -/

/-- `char::is_whitespace`: the Unicode `White_Space` property. -/
def isWhitespace (c : Char) : Bool :=
  let n := c.toNat
  (0x09 ≤ n && n ≤ 0x0D) || n == 0x20 || n == 0x85 || n == 0xA0 || n == 0x1680 ||
    (0x2000 ≤ n && n ≤ 0x200A) || n == 0x2028 || n == 0x2029 || n == 0x202F ||
    n == 0x205F || n == 0x3000

/-- `char::is_ascii_punctuation`. -/
def isAsciiPunctuation (c : Char) : Bool :=
  let n := c.toNat
  (0x21 ≤ n && n ≤ 0x2F) || (0x3A ≤ n && n ≤ 0x40) || (0x5B ≤ n && n ≤ 0x60) ||
    (0x7B ≤ n && n ≤ 0x7E)

/-- The non-empty pieces of
`content.split(|c| c.is_whitespace() || c.is_ascii_punctuation())`. -/
def tokens (content : String) : List String :=
  ((content.data.splitOnP fun c => isWhitespace c || isAsciiPunctuation c).filter
    fun w => !w.isEmpty).map String.mk

/-- `str::len`: the length in UTF-8 bytes. -/
def byteLen (s : String) : Nat := s.utf8ByteSize

/-- `default_stop_words()`. -/
def stopWords : List String :=
  ["the", "a", "an", "is", "are", "was", "were", "be", "been", "being", "have", "has", "had",
    "do", "does", "did", "will", "would", "could", "should", "may", "might", "must", "shall",
    "can", "need", "dare", "to", "of", "in", "for", "on", "with", "at", "by", "from", "as",
    "into", "through", "during", "before", "after", "above", "below", "between", "under",
    "again", "further", "then", "once", "here", "there", "when", "where", "why", "how", "all",
    "each", "few", "more", "most", "other", "some", "such", "no", "nor", "not", "only", "own",
    "same", "so", "than", "too", "very", "just", "and", "but", "if", "or", "because", "until",
    "while", "this", "that", "these", "those", "it", "its", "he", "she", "they", "them", "his",
    "her", "their", "what", "which", "who", "whom",
    "的", "了", "是", "在", "我", "有", "和", "就", "不", "人", "都", "一", "一个", "上", "也",
    "很", "到", "说", "要", "去", "你", "会", "着", "没有", "看", "好", "自己", "这", "那",
    "lol", "lmao", "haha", "hehe", "xd", "gg", "ez", "wp", "666", "233", "哈哈", "呵呵", "嘿嘿"]

/-- `process_words(content)` on the word table, `lower` standing for `str::to_lowercase`;
the `i`-th token's lookup iterates in the order `orders (i + 1)`. -/
def processWords (orders : Nat → IterOrder) (lower : String → String) (wordHh : WordHeavyHitters)
    (content : String) : WordHeavyHitters :=
  (tokens content).enum.foldl
    (fun hh (i, word) =>
      let wordLower := lower word
      if byteLen wordLower < 2 ∨ wordLower ∈ stopWords then hh
      else hh.increment (orders (i + 1)) wordLower)
    wordHh

/-! ## The aggregator -/

/-- The aggregator's fields; `stop_words`, always the static set, is `stopWords`. -/
structure StatisticsAggregator where
  totalCount : Nat
  chatCount : Nat
  giftCount : Nat
  talkerHh : TalkerHeavyHitters
  wordHh : WordHeavyHitters
  rateData : List RateDataPoint
  currentBucket : Option (DateTime × Nat)
  bucketDurationSecs : Nat
  startTime : Option DateTime
  maxTopTalkers : Nat
  maxWords : Nat
  maxRatePoints : Nat
  deriving DecidableEq, Repr

namespace StatisticsAggregator

/-- `with_config(max_top_talkers, max_words, bucket_duration_secs)`. -/
def withConfig (maxTopTalkers maxWords bucketDurationSecs : Nat) : StatisticsAggregator :=
  let talkerCapacity := saturatingMul (max maxTopTalkers 1) 8
  let wordCapacity := saturatingMul (max maxWords 1) 4
  let cmsWidth := max (nextPowerOfTwo (saturatingMul wordCapacity 32)) 256
  let cmsDepth := 4
  let maxRatePoints := max (6 * 60 * 60 / max bucketDurationSecs 1) 60
  { totalCount := 0
    chatCount := 0
    giftCount := 0
    talkerHh := .new talkerCapacity
    wordHh := .new wordCapacity (some (.new cmsWidth cmsDepth))
    rateData := []
    currentBucket := none
    bucketDurationSecs := bucketDurationSecs
    startTime := none
    maxTopTalkers := maxTopTalkers
    maxWords := maxWords
    maxRatePoints := maxRatePoints }

/-- `StatisticsAggregator::new()`, also its `Default`. -/
def new : StatisticsAggregator := withConfig 10 50 10

/-- `get_bucket_start(timestamp)`: `(secs / d) * d` in `i64` with `d` the duration cast
`as i64`, read back through `from_timestamp(.., 0)`, falling back to `timestamp`. The
product has at most the magnitude of `secs`, so it does not overflow. -/
def getBucketStart (self : StatisticsAggregator) (timestamp : DateTime) : Option DateTime :=
  let secs := timestamp.timestamp
  let d := asI64 self.bucketDurationSecs
  (i64Div secs d).map fun q => (DateTime.fromTimestamp (q * d) 0).getD timestamp

/-- `while rate_data.len() > max_rate_points { rate_data.pop_front(); }`; the `if`
around the loop in the source repeats the loop's own test. -/
def popFrontWhileOver (maxRatePoints : Nat) : List RateDataPoint → List RateDataPoint
  | [] => []
  | p :: ps => if ps.length + 1 > maxRatePoints then popFrontWhileOver maxRatePoints ps else p :: ps

/-- The `match` of `update_rate_bucket` on `(rate_data, current_bucket)`, once the
bucket start is known: the open bucket grows, or is closed (and the closed buckets
trimmed) and a new one opens. -/
def advanceBucket (maxRatePoints : Nat) (bucketStart : DateTime) :
    List RateDataPoint × Option (DateTime × Nat) → List RateDataPoint × Option (DateTime × Nat)
  | (rateData, some (start, count)) =>
    if start = bucketStart then (rateData, some (start, wrappingAdd count 1))
    else (popFrontWhileOver maxRatePoints (rateData ++ [⟨start, count⟩]), some (bucketStart, 1))
  | (rateData, none) => (rateData, some (bucketStart, 1))

/-- `update_rate_bucket(timestamp)`. -/
def updateRateBucket (self : StatisticsAggregator) (timestamp : DateTime) :
    Option StatisticsAggregator :=
  (self.getBucketStart timestamp).map fun bucketStart =>
    let (rateData, currentBucket) :=
      advanceBucket self.maxRatePoints bucketStart (self.rateData, self.currentBucket)
    { self with rateData := rateData, currentBucket := currentBucket }

/-- `record_message(user_id, username, content, is_gift, timestamp)`. -/
def recordMessage (orders : Nat → IterOrder) (lower : String → String)
    (self : StatisticsAggregator) (userId username content : String) (isGift : Bool)
    (timestamp : DateTime) : Option StatisticsAggregator :=
  updateRateBucket
    { self with
      startTime := if self.startTime.isNone then some timestamp else self.startTime
      totalCount := wrappingAdd self.totalCount 1
      giftCount := if isGift then wrappingAdd self.giftCount 1 else self.giftCount
      chatCount := if isGift then self.chatCount else wrappingAdd self.chatCount 1
      talkerHh := self.talkerHh.increment (orders 0) userId username
      wordHh :=
        if !isGift && !content.isEmpty then processWords orders lower self.wordHh content
        else self.wordHh }
    timestamp

/-- `finalize(end_time)`: the open bucket is flushed into the series. -/
def finalize (self : StatisticsAggregator) (endTime : DateTime) : DanmuStatistics :=
  let rateData :=
    match self.currentBucket with
    | some (start, count) => self.rateData ++ [⟨start, count⟩]
    | none => self.rateData
  let durationSecs :=
    match self.startTime with
    | some start => (max (endTime.numSecondsSince start) 0).toNat
    | none => 0
  { totalCount := self.totalCount
    chatCount := self.chatCount
    giftCount := self.giftCount
    topTalkers := self.talkerHh.intoTopN self.maxTopTalkers
    wordFrequency := self.wordHh.intoTopN self.maxWords
    rateTimeseries := rateData
    startTime := self.startTime
    endTime := some endTime
    durationSecs := durationSecs }

/-- `current_stats()`: the open bucket is appended to a copy of the series. -/
def currentStats (self : StatisticsAggregator) : DanmuStatistics :=
  let rateData :=
    match self.currentBucket with
    | some (start, count) => self.rateData ++ [⟨start, count⟩]
    | none => self.rateData
  { totalCount := self.totalCount
    chatCount := self.chatCount
    giftCount := self.giftCount
    topTalkers := self.talkerHh.topN self.maxTopTalkers
    wordFrequency := self.wordHh.topN self.maxWords
    rateTimeseries := rateData
    startTime := self.startTime
    endTime := none
    durationSecs := 0 }

/-- `reset()`. -/
def reset (self : StatisticsAggregator) : StatisticsAggregator :=
  withConfig self.maxTopTalkers self.maxWords self.bucketDurationSecs

/-- `checkpoint(end_time)`: the fresh aggregator that replaces `self`, and the
snapshot of `self` it returns. -/
def checkpoint (self : StatisticsAggregator) (endTime : DateTime) :
    StatisticsAggregator × DanmuStatistics :=
  (self.reset, self.finalize endTime)

/-! ## Runs -/

/-- One `record_message` call: its arguments, the iteration orders its lookups see and
the map its words are lowercased by. -/
structure Message where
  orders : Nat → IterOrder
  lower : String → String
  userId : String
  username : String
  content : String
  isGift : Bool
  timestamp : DateTime

/-- Lowercasing of the ASCII letters alone: `str::to_lowercase` on text whose only cased
characters are ASCII letters, as in the fixed messages below. -/
def asciiLowercase (s : String) : String := ⟨s.data.map Char.toLower⟩

/-- A message at second `s` of the epoch, with no words, its lookups in stored order. -/
def messageAt (s : Int) : Message :=
  ⟨fun _ => .id, asciiLowercase, "u1", "Ann", "", false,
    (DateTime.fromTimestamp s 0).getD ⟨0, 0, by decide, by decide, by decide⟩⟩

/-- `record_message` applied to a `Message`. -/
def record (self : StatisticsAggregator) (m : Message) : Option StatisticsAggregator :=
  self.recordMessage m.orders m.lower m.userId m.username m.content m.isGift m.timestamp

/-- The aggregator after `msgs`, or `none` if one of the calls panics. -/
def run (self : StatisticsAggregator) (msgs : List Message) : Option StatisticsAggregator :=
  msgs.foldlM record self

theorem run_append (self : StatisticsAggregator) (msgs : List Message) (m : Message) :
    self.run (msgs ++ [m]) = (self.run msgs).bind (record · m) := by
  simp [run, List.foldlM_append]

/-! ## Frame lemmas -/

section Frame

variable {self : StatisticsAggregator}

/-- `record_message` returns as soon as the bucket start is defined; it keeps the
configuration and moves the rate fields by `advanceBucket`. -/
theorem record_eq_some {m : Message} {b : DateTime}
    (hb : self.getBucketStart m.timestamp = some b) :
    ∃ self', self.record m = some self' ∧
      self'.bucketDurationSecs = self.bucketDurationSecs ∧
      self'.maxRatePoints = self.maxRatePoints ∧
      (self'.rateData, self'.currentBucket) =
        advanceBucket self.maxRatePoints b (self.rateData, self.currentBucket) := by
  simp only [getBucketStart] at hb
  simp only [record, recordMessage, updateRateBucket, getBucketStart, hb, Option.map_some']
  exact ⟨_, rfl, rfl, rfl, rfl⟩

/-- `current_stats` appends the open bucket to the closed ones. -/
theorem currentStats_rateTimeseries :
    self.currentStats.rateTimeseries =
      self.rateData ++ (self.currentBucket.map fun r => (⟨r.1, r.2⟩ : RateDataPoint)).toList := by
  cases h : self.currentBucket <;> simp [currentStats, h]

/-- `finalize` flushes the open bucket into the closed ones. -/
theorem finalize_rateTimeseries (endTime : DateTime) :
    (self.finalize endTime).rateTimeseries =
      self.rateData ++ (self.currentBucket.map fun r => (⟨r.1, r.2⟩ : RateDataPoint)).toList := by
  cases h : self.currentBucket <;> simp [finalize, h]

end Frame

end StatisticsAggregator

end RustSrec.Danmaku
