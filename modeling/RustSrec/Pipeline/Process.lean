import RustSrec.Pipeline.OutputPath
import Mathlib.Data.List.Infix

/-!
# `CompressionProcessor::process`

`process` clamps the compression level, refuses an empty input list, picks the output with
`determine_output_path`, creates the output's directory, checks whether the output exists
(and refuses it when `overwrite` is off), then runs the blocking closure on
`tmp_output_path(output)` and reports the output as the one item produced, every input as
succeeded.

The configuration comes in parsed (`parse_config_or_default` falls back on the default).
Beside the files, the file system has directories, each named by its components.
`create_dir_all` walks the prefixes of its path's components from the outermost and
makes each missing one, every `mkdir` taking an answer; the directories it made stay
when a later one fails. `try_exists` answers, then reports whether the output is a file
or a directory. The closure is `processBlocking`; it cannot panic, so the `JoinError`
branch is left out, and so are the sizes, the metadata and the logs, which no modelled
path reads.

Over every run (`process_outcomes`): no file but the output and its temporary changes,
and no directory is removed; the directories added lie on the way to the output. On
`Ok` the output's directories exist, the output holds the finished archive of the
inputs' files, named by `archive_entry_name`, and the temporary file is gone. On `Err`
either no file changed (the directories made before the error stay), or the closure's
error outcomes hold.
-/

namespace RustSrec.Pipeline

/-- `CompressionProcessor::clamp_compression_level(level)`. -/
def clampCompressionLevel (level : UInt8) : Except Error UInt8 :=
  if level ≤ 9 then .ok level
  else .error (.pipelineError ("Invalid compression_level " ++ toString level ++ " (expected 0..=9)"))

/-- `ProcessorInput`, the fields `process` reads besides the configuration. -/
structure ProcessorInput where
  inputs : List String
  outputs : List String
  deriving DecidableEq, Repr

/-- `ProcessorOutput`, the fields `process` fills from the run; `failed_inputs` and
`skipped_inputs` are always empty. -/
structure ProcessorOutput where
  outputs : List String
  itemsProduced : List String
  succeededInputs : List String
  deriving DecidableEq, Repr

/-! ## Directories -/

/-- The directories that exist, each by its components. -/
abbrev Dirs := List (List Component)

/-- A path whose last component is `Normal`, which one `mkdir` makes. The root, `.` and
`..` are always there. -/
def endsNormal (d : List Component) : Bool :=
  match d.getLast? with
  | some (.normal _) => true
  | _ => false

@[simp] theorem endsNormal_nil : endsNormal [] = false := rfl

/-- The `mkdir` calls of `create_dir_all` over the prefixes `ds`, outermost first: a
prefix that exists or is no `Normal` component is passed, any other is made, and the
first error ends the walk. -/
def mkdirWalk : List (List Component) → Dirs → Answers → Except String Unit × Dirs × Answers
  | [], dirs, ans => (.ok (), dirs, ans)
  | d :: ds, dirs, ans =>
    if d ∈ dirs ∨ endsNormal d = false then mkdirWalk ds dirs ans
    else
      match ans.next with
      | (some e, ans) => (.error e, dirs, ans)
      | (none, ans) => mkdirWalk ds (dirs ++ [d]) ans

/-- `std::fs::create_dir_all(path)`. Its recursion (`mkdir`; on `NotFound` the parent
first, then `mkdir` again; an existing directory is success) makes the missing
prefixes of the path from the outermost, as the walk over every prefix does. -/
def createDirAll (path : String) (dirs : Dirs) (ans : Answers) : Except String Unit × Dirs × Answers :=
  mkdirWalk (components path).inits dirs ans

/-- `create_dir_all(parent)`, called when the output has a non-empty parent. -/
def createOutputDir (outputPath : String) (dirs : Dirs) (ans : Answers) :
    Except Error Unit × Dirs × Answers :=
  match parent outputPath with
  | some dir =>
    if dir = "" then (.ok (), dirs, ans)
    else
      match createDirAll dir dirs ans with
      | (.error e, dirs, ans) => (.error (.ioPath "create_dir_all" dir e), dirs, ans)
      | (.ok (), dirs, ans) => (.ok (), dirs, ans)
  | none => (.ok (), dirs, ans)

/-- The walk removes no directory and adds only prefixes it was given that end in a
`Normal` component; when it succeeds, every such prefix is a directory. -/
theorem mkdirWalk_spec : ∀ (ds : List (List Component)) (dirs : Dirs) (ans : Answers)
    {r : Except String Unit} {dirs' : Dirs} {ans' : Answers},
    mkdirWalk ds dirs ans = (r, dirs', ans') →
    dirs <+: dirs' ∧ (∀ d ∈ dirs', d ∈ dirs ∨ d ∈ ds ∧ endsNormal d = true) ∧
      (r = .ok () → ∀ d ∈ ds, endsNormal d = true → d ∈ dirs')
  | [], dirs, ans, _, _, _, h => by
    cases h
    exact ⟨List.prefix_refl _, fun d hd => .inl hd, fun _ _ hd => nomatch hd⟩
  | d :: ds, dirs, ans, r, dirs', ans', h => by
    unfold mkdirWalk at h
    split_ifs at h with hd
    · obtain ⟨h₁, h₂, h₃⟩ := mkdirWalk_spec ds dirs ans h
      refine ⟨h₁, fun x hx => (h₂ x hx).imp_right fun hx => ⟨.tail _ hx.1, hx.2⟩,
        fun hr => List.forall_mem_cons.2 ⟨fun hn => ?_, h₃ hr⟩⟩
      rcases hd with hd | hd
      · exact h₁.subset hd
      · simp [hd] at hn
    · split at h
      · cases h
        exact ⟨List.prefix_refl _, fun x hx => .inl hx, nofun⟩
      · obtain ⟨h₁, h₂, h₃⟩ := mkdirWalk_spec ds _ _ h
        refine ⟨(List.prefix_append _ _).trans h₁, fun x hx => ?_,
          fun hr => List.forall_mem_cons.2 ⟨fun _ => h₁.subset (by simp), h₃ hr⟩⟩
        simp only [List.mem_append, List.mem_singleton] at h₂
        rcases h₂ x hx with (hx | rfl) | hx
        · exact .inl hx
        · exact .inr ⟨.head _, by simpa using (not_or.1 hd).2⟩
        · exact .inr ⟨.tail _ hx.1, hx.2⟩

/-- `create_dir_all` of the output's parent removes no directory, adds only the
directories on the way to the output, and when it succeeds they all exist. -/
theorem createOutputDir_spec {p : String} {dirs : Dirs} {ans : Answers} {r : Except Error Unit}
    {dirs' : Dirs} {ans' : Answers} (h : createOutputDir p dirs ans = (r, dirs', ans')) :
    dirs <+: dirs' ∧
      (∀ d ∈ dirs', d ∈ dirs ∨ d <+: (components p).dropLast ∧ endsNormal d = true) ∧
      (r = .ok () → ∀ d, d <+: (components p).dropLast → endsNormal d = true → d ∈ dirs') := by
  have none_made : (components p).dropLast = [] →
      ∀ d, d <+: (components p).dropLast → endsNormal d = true → d ∈ dirs := by
    intro hnil d hd hn
    rw [hnil, List.prefix_nil] at hd
    subst hd
    cases hn
  unfold createOutputDir at h
  split at h
  · next q hq =>
    have hq' := components_parent hq
    split_ifs at h with he
    · cases h
      exact ⟨List.prefix_refl _, fun d hd => .inl hd,
        fun _ => none_made (by rw [← hq', he]; rfl)⟩
    · unfold createDirAll at h
      rcases hw : mkdirWalk (components q).inits dirs ans with ⟨r₀, d₀, a₀⟩
      obtain ⟨h₁, h₂, h₃⟩ := mkdirWalk_spec _ dirs ans hw
      simp only [List.mem_inits, hq'] at h₂ h₃
      rw [hw] at h
      cases r₀ with
      | error e => cases h; exact ⟨h₁, h₂, nofun⟩
      | ok u => cases u; cases h; exact ⟨h₁, h₂, fun _ => h₃ rfl⟩
  · next hq =>
    cases h
    refine ⟨List.prefix_refl _, fun d hd => .inl hd, fun _ => none_made ?_⟩
    rcases parent_eq_none_iff.1 hq with he | he <;> rw [he] <;> rfl

/-- `CompressionProcessor::process(input, ctx)`, with the parsed configuration, the UUID of
the temporary path, the answers of `create_dir_all` and `try_exists` and then of the
closure's calls, and the answer of the guard's `remove_file`. -/
def process (input : ProcessorInput) (config : CompressionConfig) (uuid : String) (fs : Fs)
    (dirs : Dirs) (ans : Answers) (guardRemove : Option String) :
    Except Error ProcessorOutput × Fs × Dirs :=
  match clampCompressionLevel config.compressionLevel with
  | .error e => (.error e, fs, dirs)
  | .ok level =>
    let config := { config with compressionLevel := level }
    if input.inputs.isEmpty then
      (.error (.pipelineError "No input files specified for compression"), fs, dirs)
    else
      let outputPath := determineOutputPath input.inputs config input.outputs
      match createOutputDir outputPath dirs ans with
      | (.error e, dirs, _) => (.error e, fs, dirs)
      | (.ok (), dirs, ans) =>
        match ans.next with
        | (some e, _) => (.error (.ioPath "try_exists" outputPath e), fs, dirs)
        | (none, ans) =>
          let outputExists := (fs outputPath).isSome || decide (components outputPath ∈ dirs)
          if outputExists && !config.overwrite then
            (.error (.pipelineError
              ("Output archive already exists and overwrite is disabled: " ++ outputPath)), fs, dirs)
          else
            match processBlocking config.format input.inputs (tmpOutputPath outputPath uuid)
                outputPath config.overwrite config.preservePaths fs ans guardRemove with
            | (.error e, fs) => (.error e, fs, dirs)
            | (.ok (), fs) => (.ok ⟨[outputPath], [outputPath], input.inputs⟩, fs, dirs)

example : (process ⟨[], []⟩ { CompressionConfig.default with compressionLevel := 12 } "u"
    (fun _ => none) [] [] none).1 =
    .error (.pipelineError "Invalid compression_level 12 (expected 0..=9)") := rfl

/-- An input that does not exist fails the run after `create_dir_all` made the output's
directory, which stays. -/
example : (process ⟨["a.flv"], []⟩ { CompressionConfig.default with outputPath := some "newdir/out.zip" }
    "u" (fun _ => none) [] [] none).2.2 = [[.normal "newdir"]] := by decide

/-! ## What a run does -/

/-- The output does not depend on the compression level. -/
@[simp] theorem determineOutputPath_level (inputs : List String) (config : CompressionConfig)
    (level : UInt8) (outputs : List String) :
    determineOutputPath inputs { config with compressionLevel := level } outputs =
      determineOutputPath inputs config outputs := rfl

theorem tmpOutputPath_ne (finalPath uuid : String) : tmpOutputPath finalPath uuid ≠ finalPath := by
  intro h
  have h₁ := congrArg String.length h
  have h₂ : ".tmp-".length = 5 := rfl
  simp only [tmpOutputPath, String.length_append, h₂] at h₁
  omega

section Run

variable {input : ProcessorInput} {config : CompressionConfig} {uuid : String} {fs : Fs}
  {dirs : Dirs} {ans : Answers} {guardRemove : Option String} {r : Except Error ProcessorOutput}
  {fs' : Fs} {dirs' : Dirs} {p : String}

/-- `process` fails with the files as they were, the directories as they were or as
`create_dir_all` left them, or it made the output's directory and, with inputs and the
output free or `overwrite` on, runs the closure on the output `determine_output_path`
gives and returns what it returns. -/
theorem process_cases (hp : determineOutputPath input.inputs config input.outputs = p)
    (h : process input config uuid fs dirs ans guardRemove = (r, fs', dirs')) :
    (fs' = fs ∧ (∃ e, r = .error e) ∧
      (dirs' = dirs ∨ ∃ r₀ ans₁, createOutputDir p dirs ans = (r₀, dirs', ans₁))) ∨
    ∃ ans₁ ans' res, createOutputDir p dirs ans = (.ok (), dirs', ans₁) ∧ input.inputs ≠ [] ∧
      ((fs p).isSome → config.overwrite = true) ∧
      processBlocking config.format input.inputs (tmpOutputPath p uuid) p config.overwrite
        config.preservePaths fs ans' guardRemove = (res, fs') ∧
      r = res.map fun () => ⟨[p], [p], input.inputs⟩ := by
  subst hp
  unfold process at h
  dsimp only at h
  split at h
  · cases h; exact .inl ⟨rfl, ⟨_, rfl⟩, .inl rfl⟩
  simp only [determineOutputPath_level] at h
  split at h
  · cases h; exact .inl ⟨rfl, ⟨_, rfl⟩, .inl rfl⟩
  next hne =>
  split at h
  · next hc => cases h; exact .inl ⟨rfl, ⟨_, rfl⟩, .inr ⟨_, _, hc⟩⟩
  next hc =>
  split at h
  · cases h; exact .inl ⟨rfl, ⟨_, rfl⟩, .inr ⟨_, _, hc⟩⟩
  split at h
  · cases h; exact .inl ⟨rfl, ⟨_, rfl⟩, .inr ⟨_, _, hc⟩⟩
  next hex =>
  have hne : input.inputs ≠ [] := by simpa using hne
  have hov : (fs (determineOutputPath input.inputs config input.outputs)).isSome →
      config.overwrite = true := fun hs => by simpa [hs] using hex
  split at h
  · next e _ hb => cases h; exact .inr ⟨_, _, .error e, hc, hne, hov, hb, rfl⟩
  · next _ hb => cases h; exact .inr ⟨_, _, .ok (), hc, hne, hov, hb, rfl⟩

end Run

/-- **What a run of the processor leaves behind.** For every input, configuration, UUID, file
system and answers: no file but the output `determine_output_path` gives and its temporary
path changes; no directory is removed, and every directory added is on the way to the
output, a prefix of its parent ending in a `Normal` component. On `Ok` the output is
reported as the one item produced and every input as succeeded, every directory on the
way to the output exists, the output holds the finished archive in the configured
format, its entries named by `archive_entry_name` of the inputs and, when the temporary
path is none of them, holding the inputs' files as they were before the run, and the
temporary file is gone. On `Err` either no file changed, or the temporary file is gone
unless the guard's `remove_file` failed and the output is as it was, unless `overwrite`
is set and the error is the fallback's `rename`, after which the output is gone. -/
theorem process_outcomes (input : ProcessorInput) (config : CompressionConfig) (uuid : String)
    (fs : Fs) (dirs : Dirs) (ans : Answers) (guardRemove : Option String)
    (r : Except Error ProcessorOutput) (fs' : Fs) (dirs' : Dirs)
    (h : process input config uuid fs dirs ans guardRemove = (r, fs', dirs')) :
    let p := determineOutputPath input.inputs config input.outputs
    let tmp := tmpOutputPath p uuid
    (∀ q, q ≠ tmp → q ≠ p → fs' q = fs q) ∧
    (dirs <+: dirs' ∧ ∀ d ∈ dirs', d ∈ dirs ∨ d <+: (components p).dropLast ∧ endsNormal d = true) ∧
    (∀ out, r = .ok out → out = ⟨[p], [p], input.inputs⟩ ∧ fs' tmp = none ∧
      (∀ d, d <+: (components p).dropLast → endsNormal d = true → d ∈ dirs') ∧ ∃ entries,
      fs' p = some (.archive config.format entries true) ∧
      input.inputs.mapM (archiveEntryName · config.preservePaths) = .ok (entries.map (·.1)) ∧
      (tmp ∉ input.inputs → input.inputs.map fs = entries.map (some ·.2))) ∧
    ∀ e, r = .error e → fs' = fs ∨ (guardRemove = none → fs' tmp = none) ∧
      (fs' p = fs p ∨ config.overwrite = true ∧ fs' p = none ∧ ∃ msg, e = .ioPath "rename" p msg) := by
  intro p tmp
  rcases process_cases rfl h with ⟨rfl, ⟨e, rfl⟩, hd⟩ | ⟨ans₁, ans', res, hc, -, -, hb, rfl⟩
  · refine ⟨fun _ _ _ => rfl, ?_, nofun, fun _ _ => .inl rfl⟩
    rcases hd with rfl | ⟨r₀, ans₁, hc⟩
    · exact ⟨List.prefix_refl _, fun d hd => .inl hd⟩
    · exact (createOutputDir_spec hc).imp_right And.left
  obtain ⟨hd₁, hd₂, hd₃⟩ := createOutputDir_spec hc
  obtain ⟨h₁, h₂, h₃⟩ := processBlocking_spec config.format input.inputs tmp p config.overwrite
    config.preservePaths fs ans' guardRemove res fs' (tmpOutputPath_ne _ _) hb
  refine ⟨h₁, ⟨hd₁, hd₂⟩, fun out hout => ?_, fun e he => .inr ?_⟩
  · cases res with
    | error => cases hout
    | ok => cases hout; exact ⟨rfl, (h₂ rfl).1, hd₃ rfl, (h₂ rfl).2⟩
  · cases res with
    | error e' => cases he; exact h₃ e rfl
    | ok => cases he

theorem process_outcomes_zip :
    let fs : Fs := Fs.set (fun _ => none) "rec/a.flv" (some (.data [7]))
    let r := process ⟨["rec/a.flv"], []⟩ .default "1" fs [] [] none
    r.1 = .ok ⟨["rec/a.zip"], ["rec/a.zip"], ["rec/a.flv"]⟩ ∧ r.2.2 = [[.normal "rec"]] ∧
    let p := determineOutputPath ["rec/a.flv"] .default []
    let tmp := tmpOutputPath p "1"
    (∀ q, q ≠ tmp → q ≠ p → r.2.1 q = fs q) ∧
    (([] : Dirs) <+: r.2.2 ∧
      ∀ d ∈ r.2.2, d ∈ ([] : Dirs) ∨ d <+: (components p).dropLast ∧ endsNormal d = true) ∧
    (∀ out, r.1 = .ok out → out = ⟨[p], [p], ["rec/a.flv"]⟩ ∧ r.2.1 tmp = none ∧
      (∀ d, d <+: (components p).dropLast → endsNormal d = true → d ∈ r.2.2) ∧ ∃ entries,
      r.2.1 p = some (.archive CompressionConfig.default.format entries true) ∧
      ["rec/a.flv"].mapM (archiveEntryName · CompressionConfig.default.preservePaths) =
        .ok (entries.map (·.1)) ∧
      (tmp ∉ ["rec/a.flv"] → ["rec/a.flv"].map fs = entries.map (some ·.2))) ∧
    ∀ e, r.1 = .error e → r.2.1 = fs ∨ ((none : Option String) = none → r.2.1 tmp = none) ∧
      (r.2.1 p = fs p ∨ CompressionConfig.default.overwrite = true ∧ r.2.1 p = none ∧
        ∃ msg, e = .ioPath "rename" p msg) :=
  ⟨rfl, rfl, process_outcomes ⟨["rec/a.flv"], []⟩ .default "1" _ [] [] none _ _ _ rfl⟩

end RustSrec.Pipeline
