import RustSrec.Prelude
import RustSrec.Pipeline.Compression

/-!
# Copying an entry's bytes

Both archive writers hand each input to `std::io::copy` wrapped in a
`CancelProgressReader`: every `read` first checks the cancellation token and fails with
an `Interrupted` error once it is cancelled, then reads from the file and adds what it
read to `bytes_done`. `std::io::copy` reads into an 8 KiB stack buffer
(`stack_buffer_copy`, since the reader keeps no buffer of its own), retries every read
that fails with `Interrupted`, stops at a read of `0` bytes and hands each chunk to
`write_all`; the tar writer's `append_data` copies the same way.

The loop is modelled with fuel (`copy`): `none` is a loop still running. Cancellation is
permanent, so once a read finds the token cancelled every later read does, and the
retried error comes back forever: a copy started on a cancelled token never returns
(`copy_of_cancelled`), and a copy that returns made all its reads before the token was
cancelled (`copy_reads_before_cancel`). A copy whose reads all come before the
cancellation returns, given one iteration more than the bytes and answers it has left
(`copy_returns`), and on `Ok` the writer received exactly the input's bytes, with
`bytes_done` counting them up to `u64::MAX` (`copy_ok_spec`). The archive writers'
model takes each entry's copy as one call that succeeds or fails; this module is what
that call does.

The inner reads and the `write_all` calls take their answers from a list, as the
file-system calls do: an error, a short read, or success. A read returns at least one
byte while the file has any left: `n + 1` of them on a short read (no more than the
buffer holds or the file has left), as many as fit otherwise, and so once the answers
are used up. A `write_all` retries its own short writes, so every answer but an error
is its success.
-/

namespace RustSrec.Pipeline

/-- `std::io::ErrorKind`, as far as `io::copy` tells kinds apart. -/
inductive ErrorKind where
  | interrupted
  | other
  deriving DecidableEq, Repr

/-- An `std::io::Error`: its kind and its message. -/
structure IoError where
  kind : ErrorKind
  msg : String
  deriving DecidableEq, Repr

/-- The error of `CancelProgressReader::read` on a cancelled token. -/
def cancelledError : IoError := ⟨.interrupted, "compression cancelled"⟩

/-- `DEFAULT_BUF_SIZE`, the length of `io::copy`'s stack buffer. -/
def defaultBufSize : Nat := 8 * 1024

/-- The token as the reader's checks see it: `some c` when it is cancelled from the
reader's `c`-th read on, `none` when it is not cancelled while the copy runs. A
cancelled token stays cancelled. -/
abbrev Token := Option Nat

/-- `CancellationToken::is_cancelled()` at the reader's `k`-th read. -/
def isCancelled : Token → Nat → Bool
  | none, _ => false
  | some c, k => c ≤ k

/-- The answer to an inner read or a `write_all`: success, a read of only `n + 1` bytes,
or an error. -/
inductive Answer where
  | ok
  | short (n : Nat)
  | fail (e : IoError)
  deriving DecidableEq, Repr

/-- The bytes a successful inner read into a buffer of `len` bytes asks for. -/
def Answer.readLen (len : Nat) : Answer → Nat
  | .short n => min len (n + 1)
  | _ => len

theorem Answer.readLen_le (a : Answer) (len : Nat) : a.readLen len ≤ len := by
  cases a <;> simp [readLen]

theorem Answer.readLen_pos (a : Answer) {len : Nat} (h : 0 < len) : 0 < a.readLen len := by
  cases a <;> simp [readLen, h]

/-- What one copy changes: the input bytes the inner `BufReader<File>` has not returned,
the reader's `bytes_done`, the bytes the writer took, the reads made, and the answers of
the inner reads and of `write_all` still to come. -/
structure CopyState where
  remaining : List UInt8
  bytesDone : Nat
  written : List UInt8
  reads : Nat
  ans : List Answer
  deriving DecidableEq, Repr

/-- The answer of the next inner read or `write_all`; once the answers are used up every
call succeeds. -/
def CopyState.next (s : CopyState) : Answer × CopyState :=
  match s.ans with
  | [] => (.ok, s)
  | a :: as => (a, { s with ans := as })

/-- `CancelProgressReader::read(buf)` into a buffer of `len` bytes: the token check, the
inner read with `?`, and `bytes_done` adding a non-empty read (`maybe_report` only
reports progress). -/
def CancelProgressReader.read (token : Token) (len : Nat) (s : CopyState) :
    Except IoError (List UInt8) × CopyState :=
  if isCancelled token s.reads then (.error cancelledError, { s with reads := s.reads + 1 })
  else
    match s.next with
    | (.fail e, s') => (.error e, { s' with reads := s.reads + 1 })
    | (a, s') =>
      let chunk := s.remaining.take (a.readLen len)
      (.ok chunk, { s' with
        remaining := s.remaining.drop (a.readLen len)
        bytesDone := if chunk.isEmpty then s.bytesDone else saturatingAdd s.bytesDone chunk.length
        reads := s.reads + 1 })

/-- `std::io::copy(&mut reader, &mut writer)` (`stack_buffer_copy`), `len` the bytes
copied so far: read into the buffer, retry a read that fails with `Interrupted`, stop at
a read of `0` bytes, and hand every chunk to `write_all`. `fuel` bounds the iterations
of its `loop`. -/
def copy (token : Token) : Nat → Nat → CopyState → Option (Except IoError Nat × CopyState)
  | 0, _, _ => none
  | fuel + 1, len, s =>
    match CancelProgressReader.read token defaultBufSize s with
    | (.error e, s) => if e.kind = .interrupted then copy token fuel len s else some (.error e, s)
    | (.ok chunk, s) =>
      if chunk.isEmpty then some (.ok len, s)
      else
        match s.next with
        | (.fail e, s) => some (.error e, s)
        | (_, s) => copy token fuel (len + chunk.length) { s with written := s.written ++ chunk }

/-! ## One read -/

theorem defaultBufSize_pos : 0 < defaultBufSize := by decide

section Read

variable {token : Token} {len : Nat} {s : CopyState}

/-- Taking an answer changes only the answers: one fewer when there was one, which an
error always is. -/
theorem next_spec {s s₁ : CopyState} {a : Answer} (h : s.next = (a, s₁)) :
    s₁.remaining = s.remaining ∧ s₁.written = s.written ∧ s₁.bytesDone = s.bytesDone ∧
      s₁.reads = s.reads ∧ s₁.ans.length ≤ s.ans.length ∧
      (∀ e, a = .fail e → s₁.ans.length < s.ans.length) := by
  unfold CopyState.next at h
  split at h <;> next hs => cases h; simp [hs]

/-- A read on a cancelled token fails with `Interrupted` and changes nothing else. -/
theorem read_of_cancelled (h : isCancelled token s.reads = true) :
    CancelProgressReader.read token len s = (.error cancelledError, { s with reads := s.reads + 1 }) :=
  if_pos h

/-- Every read is counted. -/
theorem read_reads (token : Token) (len : Nat) (s : CopyState) :
    (CancelProgressReader.read token len s).2.reads = s.reads + 1 := by
  unfold CancelProgressReader.read
  split
  · rfl
  · split <;> rfl

/-- A read that fails returns no bytes: the input and the writer are as they were. -/
theorem read_error {e : IoError} {s' : CopyState}
    (h : CancelProgressReader.read token len s = (.error e, s')) :
    s'.remaining = s.remaining ∧ s'.written = s.written ∧ s'.bytesDone = s.bytesDone ∧
      s'.ans.length ≤ s.ans.length ∧
      (isCancelled token s.reads = false → s'.ans.length < s.ans.length) := by
  unfold CancelProgressReader.read at h
  split at h
  · next hc => cases h; exact ⟨rfl, rfl, rfl, le_rfl, fun h => by simp [hc] at h⟩
  · split at h
    · next hn =>
      cases h
      obtain ⟨h₁, h₂, h₃, -, h₅, h₆⟩ := next_spec hn
      exact ⟨h₁, h₂, h₃, h₅, fun _ => h₆ _ rfl⟩
    · cases h

/-- A read that succeeds takes `k` bytes off the front of the input, or what is left:
no more than the buffer holds, and at least one if it holds any. -/
theorem read_ok {chunk : List UInt8} {s' : CopyState}
    (h : CancelProgressReader.read token len s = (.ok chunk, s')) :
    isCancelled token s.reads = false ∧ ∃ k ≤ len, (0 < len → 0 < k) ∧
      chunk = s.remaining.take k ∧ s'.remaining = s.remaining.drop k ∧ s'.written = s.written ∧
      s'.bytesDone = (if chunk.isEmpty then s.bytesDone else saturatingAdd s.bytesDone chunk.length) ∧
      s'.ans.length ≤ s.ans.length := by
  unfold CancelProgressReader.read at h
  split at h
  · cases h
  · next hc =>
    split at h
    · cases h
    · next _ a _ _ hn =>
      cases h
      obtain ⟨-, h₂, -, -, h₅, -⟩ := next_spec hn
      exact ⟨by simpa using hc, _, a.readLen_le len, a.readLen_pos, rfl, rfl, h₂, rfl, h₅⟩

end Read

theorem saturatingAdd_saturatingAdd (a b c : Nat) :
    saturatingAdd (saturatingAdd a b) c = saturatingAdd a (b + c) := by
  simp only [saturatingAdd]; omega

/-! ## The loop -/

/-- A copy that reaches a read on a cancelled token never returns: the read fails with
`Interrupted`, which `io::copy` retries, and the token stays cancelled. -/
theorem copy_of_cancelled {c : Nat} : ∀ (fuel len : Nat) (s : CopyState), c ≤ s.reads →
    copy (some c) fuel len s = none
  | 0, _, _, _ => rfl
  | fuel + 1, len, s, hc => by
    rw [copy, read_of_cancelled (by simpa [isCancelled] using hc)]
    exact copy_of_cancelled fuel len _ (Nat.le_succ_of_le hc)

/-- A cancellation after the first read still hangs the copy. -/
example : copy (some 1) 20 0 ⟨[1, 2, 3], 0, [], 0, []⟩ = none := rfl

/-- **A copy returns only if no read found the token cancelled.** For every input, every
answer of the inner reads and `write_all`, and every read at which the token is
cancelled: when the copy returns, all its reads came before the cancellation. Once a
read finds the token cancelled, its `Interrupted` error is retried forever. -/
theorem copy_reads_before_cancel (c : Nat) : ∀ (fuel len : Nat) (s s' : CopyState)
    (r : Except IoError Nat), copy (some c) fuel len s = some (r, s') → s'.reads ≤ c
  | 0, _, _, _, _, h => by cases h
  | fuel + 1, len, s, s', r, h => by
    by_cases hc : c ≤ s.reads
    · rw [copy_of_cancelled (fuel + 1) len s hc] at h
      cases h
    · have hr := read_reads (some c) defaultBufSize s
      unfold copy at h
      split at h
      · next hread =>
        simp only [hread] at hr
        split at h
        · exact copy_reads_before_cancel c fuel len _ s' r h
        · cases h; omega
      · next hread =>
        simp only [hread] at hr
        split at h
        · cases h; omega
        · split at h
          · next hn => cases h; have := (next_spec hn).2.2.2.1; omega
          · exact copy_reads_before_cancel c fuel _ _ s' r h

/-- A short read of one byte, then full reads, on a token cancelled at the sixth read. -/
theorem copy_reads_before_cancel_short :
    copy (some 5) 4 0 ⟨[1, 2, 3], 0, [], 0, [.short 0]⟩ = some (.ok 3, ⟨[], 3, [1, 2, 3], 3, []⟩) ∧
      (⟨[], 3, [1, 2, 3], 3, []⟩ : CopyState).reads ≤ 5 :=
  ⟨rfl, copy_reads_before_cancel 5 4 0 ⟨[1, 2, 3], 0, [], 0, [.short 0]⟩ _ _ rfl⟩

/-- **A copy before the cancellation returns.** For every input and every answer of the
inner reads and `write_all`: when the token is not cancelled before the read after the
last one the copy can need, and there is one iteration more than input bytes and
answers left, the copy returns, with `Ok` or with the first error that is not
`Interrupted`. -/
theorem copy_returns (token : Token) : ∀ (fuel len : Nat) (s : CopyState),
    s.remaining.length + s.ans.length < fuel →
    (∀ c, token = some c → s.reads + s.remaining.length + s.ans.length < c) →
    (copy token fuel len s).isSome
  | 0, _, _, hf, _ => absurd hf (Nat.not_lt_zero _)
  | fuel + 1, len, s, hf, htok => by
    have hnc : isCancelled token s.reads = false := by
      cases token with
      | none => rfl
      | some c => have := htok c rfl; simp only [isCancelled, decide_eq_false_iff_not]; omega
    have hr := read_reads token defaultBufSize s
    unfold copy
    split
    · next hread =>
      simp only [hread] at hr
      obtain ⟨h₁, -, -, -, h₅⟩ := read_error hread
      have h₁ := congrArg List.length h₁
      have h₅ := h₅ hnc
      split
      · exact copy_returns token fuel len _ (by omega) fun c hc => by have := htok c hc; omega
      · rfl
    · next chunk s₁ hread =>
      simp only [hread] at hr
      obtain ⟨-, k, -, hk, hchunk, h₃, -, -, h₆⟩ := read_ok hread
      split
      · rfl
      · next hne =>
        have hpos : 0 < s.remaining.length :=
          List.length_pos.2 fun e => hne (by simp [hchunk, e])
        have hdrop : s₁.remaining.length < s.remaining.length := by
          rw [h₃, List.length_drop]; have := hk defaultBufSize_pos; omega
        split
        · rfl
        · next _ _ _ _ hn =>
          obtain ⟨h₁', -, -, h₄', h₅', -⟩ := next_spec hn
          have h₁' := congrArg List.length h₁'
          exact copy_returns token fuel _ _ (by dsimp only; omega) fun c hc => by
            have := htok c hc; dsimp only; omega

theorem copy_returns_short :
    [1, 2, 3].length + [Answer.short 0].length < 5 ∧
      (∀ c, some 5 = some c → 0 + [1, 2, 3].length + [Answer.short 0].length < c) ∧
      (copy (some 5) 5 0 ⟨[1, 2, 3], 0, [], 0, [.short 0]⟩).isSome :=
  ⟨by decide, fun c hc => by cases hc; decide,
    copy_returns (some 5) 5 0 ⟨[1, 2, 3], 0, [], 0, [.short 0]⟩ (by decide) fun c hc => by cases hc; decide⟩

/-- **A copy that returns `Ok` copied the input.** For every token, input and answers:
on `Ok(n)` the writer received the input's remaining bytes, in order and in full, `n`
counts them, and `bytes_done` grew by their number, saturating at `u64::MAX`. -/
theorem copy_ok_spec (token : Token) : ∀ (fuel len n : Nat) (s s' : CopyState),
    s.bytesDone ≤ u64Max → copy token fuel len s = some (.ok n, s') →
    s'.written = s.written ++ s.remaining ∧ n = len + s.remaining.length ∧ s'.remaining = [] ∧
      s'.bytesDone = saturatingAdd s.bytesDone s.remaining.length
  | 0, _, _, _, _, _, h => by cases h
  | fuel + 1, len, n, s, s', hb, h => by
    unfold copy at h
    split at h
    · next hread =>
      obtain ⟨h₁, h₂, h₃, -⟩ := read_error hread
      split at h
      · rw [← h₁, ← h₂, ← h₃]
        exact copy_ok_spec token fuel len n _ s' (h₃ ▸ hb) h
      · cases h
    · next chunk s₁ hread =>
      obtain ⟨-, k, -, hk, hchunk, h₃, h₄, h₅, -⟩ := read_ok hread
      split at h
      · next he =>
        cases h
        have hnil : s.remaining = [] := by
          cases hs : s.remaining with
          | nil => rfl
          | cons b bs =>
            obtain ⟨k', rfl⟩ := Nat.exists_eq_succ_of_ne_zero (hk defaultBufSize_pos).ne'
            simp [hchunk, hs] at he
        rw [if_pos he] at h₅
        refine ⟨by rw [h₄, hnil, List.append_nil], by simp [hnil], by rw [h₃, hnil, List.drop_nil], ?_⟩
        rw [h₅, hnil, List.length_nil, saturatingAdd, Nat.add_zero, Nat.min_eq_left hb]
      · next hne =>
        split at h
        · cases h
        · next _ _ _ _ hn =>
          obtain ⟨h₁', h₂', h₃', -⟩ := next_spec hn
          rw [if_neg hne] at h₅
          obtain ⟨hw, hn', hr, hd⟩ := copy_ok_spec token fuel _ n _ s'
            (by dsimp only; rw [h₃', h₅]; exact saturatingAdd_le _ _) h
          dsimp only at hw hn' hd
          rw [h₁', h₃] at hw hn' hd
          rw [h₃', h₅] at hd
          rw [h₂', h₄] at hw
          refine ⟨by rw [hw, hchunk, List.append_assoc, List.take_append_drop], ?_, hr, ?_⟩
          · rw [hn', hchunk, Nat.add_assoc, ← List.length_append, List.take_append_drop]
          · rw [hd, saturatingAdd_saturatingAdd, hchunk, ← List.length_append, List.take_append_drop]

/-- Two short reads of one byte each, then a full one, every `write_all` succeeding. -/
theorem copy_ok_spec_short :
    (0 : Nat) ≤ u64Max ∧
      copy none 5 0 ⟨[1, 2, 3], 0, [], 0, [.short 0, .ok, .short 0]⟩ =
        some (.ok 3, ⟨[], 3, [1, 2, 3], 4, []⟩) ∧
      [1, 2, 3] = ([] : List UInt8) ++ [1, 2, 3] ∧ 3 = 0 + [1, 2, 3].length ∧
      ([] : List UInt8) = [] ∧ 3 = saturatingAdd 0 [1, 2, 3].length :=
  ⟨by decide, rfl,
    copy_ok_spec none 5 0 3 ⟨[1, 2, 3], 0, [], 0, [.short 0, .ok, .short 0]⟩ _ (by decide) rfl⟩

end RustSrec.Pipeline
