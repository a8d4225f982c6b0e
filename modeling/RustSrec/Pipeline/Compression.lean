import RustSrec.Pipeline.Archive

/-!
# The compression processor's blocking closure

`CompressionProcessor::process` writes the archive to a temporary path
`tmp_output_path(output_path)` in a `spawn_blocking` closure and then renames it over
`output_path`; a `TmpFileGuard` removes the temporary file when the closure returns
without committing it. If the rename fails and `overwrite` is set, the closure removes
`output_path` and renames again.

The file system maps paths to files. Every call that can fail, and every check of the
cancellation token, takes the next of a list of answers (`Answers`): `none` is success
(or a token not cancelled), `some e` the error `e` (or a cancelled token); the guard's
`remove_file` gets an answer of its own. The archive writers are one definition,
`Writer.run`, with the calls each makes (`createZipArchive`, `createTarGzArchive`);
they change no path but the one they write (`Writer.run_spec`). The compressed bytes
are not modelled: an archive file holds its entries and whether it was finalized.

Over every answer list, the temporary path being another than the output
(`blocking_closure_outcomes`): no path but the two is touched; on
`Ok` the output holds the finished archive and the temporary file is gone; on `Err` the
temporary file is gone unless the guard's `remove_file` failed, and the output is as it
was, except after the fallback: when its `remove_file` succeeded and its second
`rename` failed, the output is gone (`failed_fallback_loses_output`).
-/

namespace RustSrec.Pipeline

/-- `ArchiveFormat`. -/
inductive ArchiveFormat where
  | zip
  | tarGz
  deriving DecidableEq, Repr

/-- A file: bytes, or an archive the processor writes, with its entries (each an entry
name and the input's file) and whether it was finalized. -/
inductive File where
  | data (bytes : List UInt8)
  | archive (format : ArchiveFormat) (entries : List (String × File)) (finished : Bool)

/-- What each path holds. -/
abbrev Fs := String → Option File

def Fs.set (fs : Fs) (path : String) (f : Option File) : Fs := fun p => if p = path then f else fs p

@[simp] theorem Fs.set_self (fs : Fs) (path : String) (f : Option File) : fs.set path f path = f := by
  simp [Fs.set]

theorem Fs.set_of_ne (fs : Fs) {path p : String} (f : Option File) (h : p ≠ path) :
    fs.set path f p = fs p := by
  simp [Fs.set, h]

/-- The answers of the calls that can fail, in the order they are made; once they are
used up every call succeeds. -/
abbrev Answers := List (Option String)

def Answers.next : Answers → Option String × Answers
  | [] => (none, [])
  | a :: as => (a, as)

/-! ## File-system calls -/

/-- The message of `ErrorKind::NotFound`. -/
def notFound : String := "No such file or directory (os error 2)"

/-- `std::fs::rename(from, to)`: `to` is replaced by `from`'s file. -/
def rename (fs : Fs) (src dst : String) (ans : Answers) : Except String Fs × Answers :=
  match ans.next with
  | (some e, ans) => (.error e, ans)
  | (none, ans) =>
    match fs src with
    | none => (.error notFound, ans)
    | some f => (.ok ((fs.set src none).set dst (some f)), ans)

/-- `std::fs::remove_file(path)`. -/
def removeFile (fs : Fs) (path : String) (ans : Answers) : Except String Fs × Answers :=
  match ans.next with
  | (some e, ans) => (.error e, ans)
  | (none, ans) =>
    match fs path with
    | none => (.error notFound, ans)
    | some _ => (.ok (fs.set path none), ans)

/-- A call that can fail, its error wrapped in `PipelineError(msg + e)`. -/
def attempt (msg : String) (ans : Answers) : Except Error Unit × Answers :=
  match ans.next with
  | (some e, ans) => (.error (.pipelineError (msg ++ e)), ans)
  | (none, ans) => (.ok (), ans)

/-- Calls that can fail, one after the other, up to the first error. -/
def attempts : List String → Answers → Except Error Unit × Answers
  | [], ans => (.ok (), ans)
  | msg :: msgs, ans =>
    match attempt msg ans with
    | (.ok (), ans) => attempts msgs ans
    | (.error e, ans) => (.error e, ans)

/-! ## The archive writers -/

/-- The first loop of both writers: `std::fs::metadata(input_path)` of every input. -/
def checkInputs (fs : Fs) : List String → Answers → Except Error Unit × Answers
  | [], ans => (.ok (), ans)
  | input :: inputs, ans =>
    match fs input with
    | none => (.error (.pipelineError ("Input file does not exist: " ++ input)), ans)
    | some _ =>
      match ans.next with
      | (some e, ans) =>
        (.error (.pipelineError ("Failed to get input metadata " ++ input ++ ": " ++ e)), ans)
      | (none, ans) => checkInputs fs inputs ans

/-- What distinguishes `create_zip_archive` from `create_tar_gz_archive`: the format,
the message of `File::create`'s error, and the messages of the calls that write one
entry once its input is open and of those that finish the archive. -/
structure Writer where
  format : ArchiveFormat
  create : String
  entry : List String
  finish : List String

/-- The second loop: for each input, the token check, `archive_entry_name`,
`File::open` and the entry's calls; each entry written is in the archive file. -/
def Writer.addEntries (w : Writer) (outputPath : String) (preservePaths : Bool) :
    List String → List (String × File) → Fs → Answers →
      Except Error (List (String × File)) × Fs × Answers
  | [], entries, fs, ans => (.ok entries, fs, ans)
  | input :: inputs, entries, fs, ans =>
    match ans.next with
    | (some _, ans) => (.error (.pipelineError "Compression cancelled"), fs, ans)
    | (none, ans) =>
      match archiveEntryName input preservePaths with
      | .error e => (.error e, fs, ans)
      | .ok name =>
        match fs input with
        | none => (.error (.pipelineError ("Input file does not exist: " ++ input)), fs, ans)
        | some f =>
          match ans.next with
          | (some e, ans) =>
            (.error (.pipelineError ("Failed to open input file " ++ input ++ ": " ++ e)), fs, ans)
          | (none, ans) =>
            match attempts w.entry ans with
            | (.error e, ans) => (.error e, fs, ans)
            | (.ok (), ans) =>
              w.addEntries outputPath preservePaths inputs (entries ++ [(name, f)])
                (fs.set outputPath (some (.archive w.format (entries ++ [(name, f)]) false))) ans

/-- A writer: create the archive file, check the inputs, add them, finish. -/
def Writer.run (w : Writer) (inputs : List String) (outputPath : String) (preservePaths : Bool)
    (fs : Fs) (ans : Answers) : Except Error Unit × Fs × Answers :=
  match attempt w.create ans with
  | (.error e, ans) => (.error e, fs, ans)
  | (.ok (), ans) =>
    let fs := fs.set outputPath (some (.archive w.format [] false))
    match checkInputs fs inputs ans with
    | (.error e, ans) => (.error e, fs, ans)
    | (.ok (), ans) =>
      match w.addEntries outputPath preservePaths inputs [] fs ans with
      | (.error e, fs, ans) => (.error e, fs, ans)
      | (.ok entries, fs, ans) =>
        match attempts w.finish ans with
        | (.error e, ans) => (.error e, fs, ans)
        | (.ok (), ans) => (.ok (), fs.set outputPath (some (.archive w.format entries true)), ans)

/-- `create_zip_archive(inputs, output_path, config, ..)`: per entry `start_file` and
`io::copy`, then `zip.finish()`. -/
def createZipArchive (inputs : List String) (outputPath : String) (preservePaths : Bool)
    (fs : Fs) (ans : Answers) : Except Error Unit × Fs × Answers :=
  Writer.run ⟨.zip, "Failed to create ZIP archive: ",
    ["Failed to start ZIP entry: ", "Failed to write ZIP entry: "],
    ["Failed to finalize ZIP archive: "]⟩ inputs outputPath preservePaths fs ans

/-- `create_tar_gz_archive(inputs, output_path, config, ..)`: per entry
`file.metadata()` and `append_data`, then `tar.into_inner()` and `encoder.finish()`. -/
def createTarGzArchive (inputs : List String) (outputPath : String) (preservePaths : Bool)
    (fs : Fs) (ans : Answers) : Except Error Unit × Fs × Answers :=
  Writer.run ⟨.tarGz, "Failed to create tar.gz archive: ",
    ["Failed to get file metadata: ", "Failed to add file to tar archive: "],
    ["Failed to finalize tar archive: ", "Failed to finalize gzip compression: "]⟩
    inputs outputPath preservePaths fs ans

/-- The closure's `match config.format`. -/
def createArchive (format : ArchiveFormat) (inputs : List String) (outputPath : String)
    (preservePaths : Bool) (fs : Fs) (ans : Answers) : Except Error Unit × Fs × Answers :=
  match format with
  | .zip => createZipArchive inputs outputPath preservePaths fs ans
  | .tarGz => createTarGzArchive inputs outputPath preservePaths fs ans

/-! ## The closure -/

/-- `tmp_output_path(final_path)`: the final path with `.tmp-` and a fresh UUID. -/
def tmpOutputPath (finalPath uuid : String) : String := finalPath ++ ".tmp-" ++ uuid

/-- `TmpFileGuard`'s `drop`: `let _ = std::fs::remove_file(path)`, its call getting the
answer `guardRemove`. -/
def dropTmpFileGuard (tmpPath : String) (guardRemove : Option String) (fs : Fs) : Fs :=
  ((removeFile fs tmpPath [guardRemove]).1.toOption).getD fs

/-- The `spawn_blocking` closure of `CompressionProcessor::process`; the guard's
`remove_file` gets the answer `guardRemove`. -/
def processBlocking (format : ArchiveFormat) (inputs : List String) (tmpPath outputPath : String)
    (overwrite preservePaths : Bool) (fs : Fs) (ans : Answers) (guardRemove : Option String) :
    Except Error Unit × Fs :=
  let drop := dropTmpFileGuard tmpPath guardRemove
  match ans.next with
  | (some _, _) => (.error (.pipelineError "Compression cancelled"), drop fs)
  | (none, ans) =>
    match createArchive format inputs tmpPath preservePaths fs ans with
    | (.error e, fs, _) => (.error e, drop fs)
    | (.ok (), fs, ans) =>
      match ans.next with
      | (some _, _) => (.error (.pipelineError "Compression cancelled"), drop fs)
      | (none, ans) =>
        match rename fs tmpPath outputPath ans with
        | (.ok fs, _) => (.ok (), fs)
        | (.error renameErr, ans) =>
          if overwrite && (fs outputPath).isSome then
            match removeFile fs outputPath ans with
            | (.error e, _) => (.error (.ioPath "remove_file" outputPath e), drop fs)
            | (.ok fs, ans) =>
              match rename fs tmpPath outputPath ans with
              | (.error e, _) => (.error (.ioPath "rename" outputPath e), drop fs)
              | (.ok fs, _) => (.ok (), fs)
          else (.error (.ioPath "rename" outputPath renameErr), drop fs)

/-! ## What the calls do to the file system -/

theorem rename_eq_ok {fs fs' : Fs} {src dst : String} {ans ans' : Answers}
    (h : rename fs src dst ans = (.ok fs', ans')) :
    ∃ f, fs src = some f ∧ fs' = (fs.set src none).set dst (some f) := by
  unfold rename at h
  split at h
  · cases h
  · split at h
    · cases h
    · next f hf => cases h; exact ⟨f, hf, rfl⟩

theorem removeFile_eq_ok {fs fs' : Fs} {path : String} {ans ans' : Answers}
    (h : removeFile fs path ans = (.ok fs', ans')) : fs' = fs.set path none := by
  unfold removeFile at h
  split at h
  · cases h
  · split at h
    · cases h
    · cases h; rfl

/-- The guard touches the temporary path only. -/
theorem dropTmpFileGuard_of_ne {tmpPath p : String} (guardRemove : Option String) (fs : Fs)
    (hp : p ≠ tmpPath) : dropTmpFileGuard tmpPath guardRemove fs p = fs p := by
  unfold dropTmpFileGuard
  cases h : removeFile fs tmpPath [guardRemove] with
  | mk r ans =>
    cases r with
    | error e => rfl
    | ok fs' => simp [removeFile_eq_ok h, Fs.set_of_ne _ _ hp, Except.toOption]

/-- A guard whose `remove_file` succeeds leaves no temporary file. -/
theorem dropTmpFileGuard_self (tmpPath : String) (fs : Fs) :
    dropTmpFileGuard tmpPath none fs tmpPath = none := by
  unfold dropTmpFileGuard removeFile
  cases h : fs tmpPath <;> simp [Answers.next, h, Except.toOption]

/-- The entries loop writes the archive path only; when it returns, its entries are
named by `archive_entry_name` of the inputs, in order, and hold the inputs' files when the
archive path is none of them. -/
theorem Writer.addEntries_spec (w : Writer) (outputPath : String) (preservePaths : Bool) :
    ∀ (inputs : List String) (entries : List (String × File)) (fs : Fs) (ans : Answers)
      {r : Except Error (List (String × File))} {fs' : Fs} {ans' : Answers},
    w.addEntries outputPath preservePaths inputs entries fs ans = (r, fs', ans') →
    (∀ p, p ≠ outputPath → fs' p = fs p) ∧
    ∀ entries', r = .ok entries' → ∃ names,
      inputs.mapM (archiveEntryName · preservePaths) = .ok names ∧
      entries'.map (·.1) = entries.map (·.1) ++ names ∧
      (outputPath ∉ inputs → entries'.map (some ·.2) = entries.map (some ·.2) ++ inputs.map fs)
  | [], entries, fs, ans, r, fs', ans', h => by
    cases h
    exact ⟨fun _ _ => rfl, fun _ he => ⟨[], rfl, by cases he; simp, fun _ => by cases he; simp⟩⟩
  | input :: inputs, entries, fs, ans, r, fs', ans', h => by
    rw [Writer.addEntries] at h
    split at h
    · cases h; exact ⟨fun _ _ => rfl, nofun⟩
    · split at h
      · cases h; exact ⟨fun _ _ => rfl, nofun⟩
      · next name hname =>
        split at h
        · cases h; exact ⟨fun _ _ => rfl, nofun⟩
        · next f hf =>
          split at h
          · cases h; exact ⟨fun _ _ => rfl, nofun⟩
          · split at h
            · cases h; exact ⟨fun _ _ => rfl, nofun⟩
            · obtain ⟨h₁, h₂⟩ := Writer.addEntries_spec w outputPath preservePaths inputs _ _ _ h
              refine ⟨fun p hp => (h₁ p hp).trans (Fs.set_of_ne _ _ hp), fun entries' he => ?_⟩
              obtain ⟨names, hn, he', hfiles⟩ := h₂ entries' he
              refine ⟨name :: names, ?_, by simp [he'], fun hout => ?_⟩
              · rw [List.mapM_cons, hname, hn]
                rfl
              · have hrest : ∀ x, inputs.map (fs.set outputPath x) = inputs.map fs := fun _ =>
                  List.map_congr_left fun i hi =>
                    Fs.set_of_ne _ _ fun e => hout (e ▸ List.mem_cons_of_mem _ hi)
                rw [hfiles fun hi => hout (List.mem_cons_of_mem _ hi), hrest]
                simp [hf]

/-- A writer touches its archive path only; when it returns `Ok`, the path holds the
finished archive, its entries named by `archive_entry_name` of the inputs and holding their
files when the archive path is none of them. -/
theorem Writer.run_spec {w : Writer} {inputs : List String} {outputPath : String}
    {preservePaths : Bool} {fs : Fs} {ans : Answers} {r : Except Error Unit} {fs' : Fs}
    {ans' : Answers} (h : w.run inputs outputPath preservePaths fs ans = (r, fs', ans')) :
    (∀ p, p ≠ outputPath → fs' p = fs p) ∧
    (r = .ok () → ∃ entries, fs' outputPath = some (.archive w.format entries true) ∧
      inputs.mapM (archiveEntryName · preservePaths) = .ok (entries.map (·.1)) ∧
      (outputPath ∉ inputs → inputs.map fs = entries.map (some ·.2))) := by
  unfold Writer.run at h
  split at h
  · cases h; exact ⟨fun _ _ => rfl, fun he => by cases he⟩
  · dsimp only at h
    split at h
    · cases h; exact ⟨fun p hp => Fs.set_of_ne _ _ hp, fun he => by cases he⟩
    · split at h
      · next hw =>
        cases h
        exact ⟨fun p hp => ((Writer.addEntries_spec w _ _ _ _ _ _ hw).1 p hp).trans
          (Fs.set_of_ne _ _ hp), fun he => by cases he⟩
      · next entries fs₁ ans₁ hw =>
        obtain ⟨h₁, h₂⟩ := Writer.addEntries_spec w _ _ _ _ _ _ hw
        have h₁ : ∀ p, p ≠ outputPath → fs₁ p = fs p := fun p hp =>
          (h₁ p hp).trans (Fs.set_of_ne _ _ hp)
        split at h
        · cases h; exact ⟨h₁, fun he => by cases he⟩
        · cases h
          obtain ⟨names, hn, he, hfiles⟩ := h₂ entries rfl
          refine ⟨fun p hp => (Fs.set_of_ne _ _ hp).trans (h₁ p hp),
            fun _ => ⟨entries, by simp, by rw [hn, he, List.map_nil, List.nil_append], fun hout => ?_⟩⟩
          rw [hfiles hout, List.map_nil, List.nil_append]
          exact List.map_congr_left fun i hi =>
            (Fs.set_of_ne fs _ (show i ≠ outputPath from fun e => hout (e ▸ hi))).symm

/-- `create_zip_archive` and `create_tar_gz_archive` are `Writer.run`, in the format asked
for. -/
theorem createArchive_spec {format : ArchiveFormat} {inputs : List String} {outputPath : String}
    {preservePaths : Bool} {fs : Fs} {ans : Answers} {r : Except Error Unit} {fs' : Fs}
    {ans' : Answers} (h : createArchive format inputs outputPath preservePaths fs ans = (r, fs', ans')) :
    (∀ p, p ≠ outputPath → fs' p = fs p) ∧
    (r = .ok () → ∃ entries, fs' outputPath = some (.archive format entries true) ∧
      inputs.mapM (archiveEntryName · preservePaths) = .ok (entries.map (·.1)) ∧
      (outputPath ∉ inputs → inputs.map fs = entries.map (some ·.2))) := by
  cases format <;> exact Writer.run_spec h

/-! ## The closure's outcomes -/

section Outcomes

variable {tmpPath outputPath : String} {fs fs₁ : Fs}

/-- Returning through the guard changes the temporary path only, and removes the temporary
file when the guard's `remove_file` succeeds. -/
theorem drop_outcome (guardRemove : Option String) (htmp : tmpPath ≠ outputPath)
    (hf : ∀ p, p ≠ tmpPath → fs₁ p = fs p) :
    (∀ p, p ≠ tmpPath → p ≠ outputPath → dropTmpFileGuard tmpPath guardRemove fs₁ p = fs p) ∧
    (guardRemove = none → dropTmpFileGuard tmpPath guardRemove fs₁ tmpPath = none) ∧
    dropTmpFileGuard tmpPath guardRemove fs₁ outputPath = fs outputPath :=
  ⟨fun p hp _ => (dropTmpFileGuard_of_ne _ _ hp).trans (hf p hp),
    fun hg => hg ▸ dropTmpFileGuard_self _ _,
    (dropTmpFileGuard_of_ne _ _ htmp.symm).trans (hf _ htmp.symm)⟩

/-- Renaming the temporary file over the output, from a file system `fs₂` that differs from
the writer's `fs₁` at most at the output, moves the writer's archive there. -/
theorem commit_outcome {fs₂ fs' : Fs} {ans ans' : Answers} (htmp : tmpPath ≠ outputPath)
    (hf₁ : ∀ p, p ≠ tmpPath → fs₁ p = fs p) (hf₂ : ∀ p, p ≠ outputPath → fs₂ p = fs₁ p)
    (hr : rename fs₂ tmpPath outputPath ans = (.ok fs', ans')) :
    (∀ p, p ≠ tmpPath → p ≠ outputPath → fs' p = fs p) ∧ fs' tmpPath = none ∧
      fs' outputPath = fs₁ tmpPath := by
  obtain ⟨f, hf, rfl⟩ := rename_eq_ok hr
  refine ⟨fun p hp hq => ?_, ?_, ?_⟩
  · rw [Fs.set_of_ne _ _ hq, Fs.set_of_ne _ _ hp, hf₂ p hq, hf₁ p hp]
  · rw [Fs.set_of_ne _ _ htmp, Fs.set_self]
  · rw [Fs.set_self, ← hf, hf₂ _ htmp]

end Outcomes

/-- The closure's outcomes, for `process` and the closure alone; on `Ok` the archive also
holds the inputs' files when the temporary path is none of them. -/
theorem processBlocking_spec (format : ArchiveFormat) (inputs : List String)
    (tmpPath outputPath : String) (overwrite preservePaths : Bool) (fs : Fs) (ans : Answers)
    (guardRemove : Option String) (res : Except Error Unit) (fs' : Fs)
    (htmp : tmpPath ≠ outputPath)
    (h : processBlocking format inputs tmpPath outputPath overwrite preservePaths fs ans
      guardRemove = (res, fs')) :
    (∀ p, p ≠ tmpPath → p ≠ outputPath → fs' p = fs p) ∧
    (res = .ok () → fs' tmpPath = none ∧ ∃ entries,
      fs' outputPath = some (.archive format entries true) ∧
      inputs.mapM (archiveEntryName · preservePaths) = .ok (entries.map (·.1)) ∧
      (tmpPath ∉ inputs → inputs.map fs = entries.map (some ·.2))) ∧
    ∀ e, res = .error e → (guardRemove = none → fs' tmpPath = none) ∧
      (fs' outputPath = fs outputPath ∨
        overwrite = true ∧ fs' outputPath = none ∧ ∃ msg, e = .ioPath "rename" outputPath msg) := by
  unfold processBlocking at h
  dsimp only at h
  split at h
  · -- cancelled before the writer
    cases h
    obtain ⟨h₁, h₂, h₃⟩ := drop_outcome guardRemove htmp fun _ _ => rfl
    exact ⟨h₁, nofun, fun _ _ => ⟨h₂, .inl h₃⟩⟩
  · split at h
    · next hw =>
      cases h
      obtain ⟨h₁, h₂, h₃⟩ := drop_outcome guardRemove htmp (createArchive_spec hw).1
      exact ⟨h₁, nofun, fun _ _ => ⟨h₂, .inl h₃⟩⟩
    · next fs₁ _ hw =>
      obtain ⟨hf₁, hok⟩ := createArchive_spec hw
      obtain ⟨entries, hfile, hnames, hfiles⟩ := hok rfl
      split at h
      · -- cancelled after the writer
        cases h
        obtain ⟨h₁, h₂, h₃⟩ := drop_outcome guardRemove htmp hf₁
        exact ⟨h₁, nofun, fun _ _ => ⟨h₂, .inl h₃⟩⟩
      · split at h
        · next hr =>
          cases h
          obtain ⟨h₁, h₂, h₃⟩ := commit_outcome htmp hf₁ (fun _ _ => rfl) hr
          exact ⟨h₁, fun _ => ⟨h₂, entries, h₃.trans hfile, hnames, hfiles⟩, nofun⟩
        · split at h
          · next hov =>
            have hov : overwrite = true := (Bool.and_eq_true_iff.1 hov).1
            split at h
            · cases h
              obtain ⟨h₁, h₂, h₃⟩ := drop_outcome guardRemove htmp hf₁
              exact ⟨h₁, nofun, fun _ _ => ⟨h₂, .inl h₃⟩⟩
            · next fs₂ _ hrm =>
              have hf₂ : ∀ p, p ≠ outputPath → fs₂ p = fs₁ p := fun p hp => by
                rw [removeFile_eq_ok hrm, Fs.set_of_ne _ _ hp]
              split at h
              · -- the fallback's `rename` failed: the output is gone
                cases h
                refine ⟨fun p hp hq =>
                  (dropTmpFileGuard_of_ne _ _ hp).trans ((hf₂ p hq).trans (hf₁ p hp)), nofun,
                  fun _ he => ⟨fun hg => hg ▸ dropTmpFileGuard_self _ _,
                    .inr ⟨hov, ?_, _, (Except.error.inj he).symm⟩⟩⟩
                rw [dropTmpFileGuard_of_ne _ _ htmp.symm, removeFile_eq_ok hrm, Fs.set_self]
              · next hr =>
                cases h
                obtain ⟨h₁, h₂, h₃⟩ := commit_outcome htmp hf₁ hf₂ hr
                exact ⟨h₁, fun _ => ⟨h₂, entries, h₃.trans hfile, hnames, hfiles⟩, nofun⟩
          · cases h
            obtain ⟨h₁, h₂, h₃⟩ := drop_outcome guardRemove htmp hf₁
            exact ⟨h₁, nofun, fun _ _ => ⟨h₂, .inl h₃⟩⟩

/-- **What the closure leaves behind.** For every format, inputs, file system, answers of
the writer's calls, of the cancellation checks, of `rename` and `remove_file`, and of the
guard's `remove_file`: no path but the temporary and the output changes; on `Ok` the
temporary file is gone and the output holds the finished archive, its entries named by
`archive_entry_name` of the inputs; on `Err` the temporary file is gone unless the guard's
`remove_file` failed, and the output is as it was, unless `overwrite` is set and the error
is the fallback's `rename`, after which the output is gone. -/
theorem blocking_closure_outcomes (format : ArchiveFormat) (inputs : List String)
    (tmpPath outputPath : String) (overwrite preservePaths : Bool) (fs : Fs) (ans : Answers)
    (guardRemove : Option String) (res : Except Error Unit) (fs' : Fs)
    (htmp : tmpPath ≠ outputPath)
    (h : processBlocking format inputs tmpPath outputPath overwrite preservePaths fs ans
      guardRemove = (res, fs')) :
    (∀ p, p ≠ tmpPath → p ≠ outputPath → fs' p = fs p) ∧
    (res = .ok () → fs' tmpPath = none ∧ ∃ entries,
      fs' outputPath = some (.archive format entries true) ∧
      inputs.mapM (archiveEntryName · preservePaths) = .ok (entries.map (·.1))) ∧
    ∀ e, res = .error e → (guardRemove = none → fs' tmpPath = none) ∧
      (fs' outputPath = fs outputPath ∨
        overwrite = true ∧ fs' outputPath = none ∧ ∃ msg, e = .ioPath "rename" outputPath msg) := by
  obtain ⟨h₁, h₂, h₃⟩ := processBlocking_spec format inputs tmpPath outputPath overwrite
    preservePaths fs ans guardRemove res fs' htmp h
  refine ⟨h₁, fun hr => ?_, h₃⟩
  obtain ⟨ht, entries, hf, hn, -⟩ := h₂ hr
  exact ⟨ht, entries, hf, hn⟩

theorem blocking_closure_outcomes_commit :
    let fs : Fs := Fs.set (fun _ => none) "a.flv" (some (.data [7]))
    let r := processBlocking .zip ["a.flv"] "out.zip.tmp-1" "out.zip" false false fs [] none
    r.1 = .ok () ∧ "out.zip.tmp-1" ≠ "out.zip" ∧
    (∀ p, p ≠ "out.zip.tmp-1" → p ≠ "out.zip" → r.2 p = fs p) ∧
    (r.1 = .ok () → r.2 "out.zip.tmp-1" = none ∧ ∃ entries,
      r.2 "out.zip" = some (.archive .zip entries true) ∧
      ["a.flv"].mapM (archiveEntryName · false) = .ok (entries.map (·.1))) ∧
    ∀ e, r.1 = .error e → ((none : Option String) = none → r.2 "out.zip.tmp-1" = none) ∧
      (r.2 "out.zip" = fs "out.zip" ∨
        false = true ∧ r.2 "out.zip" = none ∧ ∃ msg, e = .ioPath "rename" "out.zip" msg) :=
  ⟨rfl, by decide, blocking_closure_outcomes .zip ["a.flv"] "out.zip.tmp-1" "out.zip" false false
    _ [] none _ _ (by decide) rfl⟩

/-- **A failed overwrite fallback loses the output.** An earlier archive at `out.zip`,
`overwrite` set, the writer and the token checks succeeding, the first `rename` failing
with a sharing violation, the fallback's `remove_file` succeeding and its `rename`
denied: the closure returns `Err`, and neither the earlier archive nor the new one is
left, the guard having removed the temporary file. -/
theorem failed_fallback_loses_output :
    ∃ fs', processBlocking .zip ["a.flv"] "out.zip.tmp-1" "out.zip" true false
        ((Fs.set (fun _ => none) "out.zip" (some (.data [1, 2, 3]))).set "a.flv" (some (.data [7])))
        (List.replicate 9 none ++ [some
          "The process cannot access the file because it is being used by another process. (os error 32)",
          none, some "Access is denied. (os error 5)"]) none =
      (.error (.ioPath "rename" "out.zip" "Access is denied. (os error 5)"), fs') ∧
    fs' "out.zip" = none ∧ fs' "out.zip.tmp-1" = none :=
  ⟨_, rfl, rfl, rfl⟩

end RustSrec.Pipeline
