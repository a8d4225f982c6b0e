import Mathlib.Data.List.Basic
import Mathlib.Data.String.Basic

/-!
# Archive entry names

`archive_entry_name(input_path, preserve_paths)` names the entry under which the
compression processor stores an input file: its file name, or, keeping paths, its
`Normal` components joined with `/`. `Path::components` is modelled as on Unix: a
leading `/` is `RootDir`, a leading `.` piece of a relative path is `CurDir`, and the
pieces between separators are parsed one by one, empty pieces and `.` skipped and `..`
read as `ParentDir`. There is no `Prefix` on Unix.

A `Normal` component is never empty, `.`, `..`, nor holds a `/`
(`normalName_of_mem_components`), so every name `archive_entry_name` returns is a
non-empty `/`-join of such segments, and an extractor that resolves `.` and `..` puts
the entry inside its directory (`archive_entry_name_safe`).
-/

namespace RustSrec.Pipeline

/-- `crate::Error`, as the compression code builds it; an `std::io::Error` is its
message. -/
inductive Error where
  | pipelineError (msg : String)
  | ioPath (op path : String) (error : String)
  deriving DecidableEq, Repr

/-! ## `std::path` on Unix -/

/-- `std::path::Component` without `Prefix`, which only Windows paths have. -/
inductive Component where
  | rootDir
  | curDir
  | parentDir
  | normal (s : String)
  deriving DecidableEq, Repr

/-- `Components::parse_single_component`: empty pieces and `.` are skipped. -/
def parseSingleComponent (s : String) : Option Component :=
  if s = "" ∨ s = "." then none
  else if s = ".." then some .parentDir
  else some (.normal s)

/-- `Path::new(path).components()`: `RootDir` for a leading `/`, `CurDir` when a
relative path starts with a `.` piece (`include_cur_dir`), then the pieces between
separators. -/
def components (path : String) : List Component :=
  (match path.data with
    | '/' :: _ => [.rootDir]
    | ['.'] | '.' :: '/' :: _ => [.curDir]
    | _ => []) ++
  ((path.data.splitOn '/').map String.mk).filterMap parseSingleComponent

/-- `Path::file_name`: the last component, if it is `Normal`. -/
def fileName (path : String) : Option String :=
  match (components path).getLast? with
  | some (.normal s) => some s
  | _ => none

/-- `archive_entry_name(input_path, preserve_paths)`. The input is a `&str`, so
`to_str` and `to_string_lossy` give back the component's text. -/
def archiveEntryName (inputPath : String) (preservePaths : Bool) : Except Error String :=
  if !preservePaths then
    match fileName inputPath with
    | some name => .ok name
    | none => .error (.pipelineError ("Invalid input filename (missing file_name): " ++ inputPath))
  else
    let parts := (components inputPath).filterMap fun
      | .normal s => some s
      | _ => none
    if parts.isEmpty then
      .error (.pipelineError ("Invalid input path for archive entry: " ++ inputPath))
    else .ok ("/".intercalate parts)

example : archiveEntryName "/rec/./a/../b.mp4" true = .ok "rec/a/b.mp4" := rfl
example : archiveEntryName "/rec/a/../" false = .error
    (.pipelineError "Invalid input filename (missing file_name): /rec/a/../") := rfl

/-! ## What an extractor does with a name -/

/-- Where an extractor that resolves `.` and `..` writes entry `name` under the
directory `dir` (its segments): an absolute name starts from the root. -/
def extractTarget (dir : List String) (name : String) : List String :=
  (name.split (· == '/')).foldl
    (fun p seg => if seg = "" ∨ seg = "." then p else if seg = ".." then p.dropLast else p ++ [seg])
    (if name.data.head? = some '/' then [] else dir)

/-! ## `Normal` components -/

/-- What a `Normal` component's text is: not empty, `.` or `..`, and without `/`. -/
def NormalName (s : String) : Prop := s ≠ "" ∧ s ≠ "." ∧ s ≠ ".." ∧ '/' ∉ s.data

theorem not_mem_of_mem_splitOn {c : Char} :
    ∀ {l piece : List Char}, piece ∈ l.splitOn c → c ∉ piece
  | [], _, h => by simp_all [List.splitOn]
  | x :: xs, piece, h => by
    have ih : ∀ {piece}, piece ∈ xs.splitOnP (· == c) → c ∉ piece :=
      fun h => not_mem_of_mem_splitOn h
    rw [List.splitOn, List.splitOnP_cons] at h
    split_ifs at h with hx
    · rcases List.mem_cons.1 h with rfl | h
      · exact List.not_mem_nil c
      · exact ih h
    · obtain ⟨hd, tl, hs⟩ := List.exists_cons_of_ne_nil (List.splitOnP_ne_nil (· == c) xs)
      rw [hs] at h ih
      rcases List.mem_cons.1 h with rfl | h
      · exact fun hc => (List.mem_cons.1 hc).elim (fun e => hx (by simp [e])) (ih (.head _))
      · exact ih (.tail _ h)

theorem normalName_of_mem_components {path s : String} (h : .normal s ∈ components path) :
    NormalName s := by
  rw [components, List.mem_append] at h
  rcases h with h | h
  · split at h <;> simp at h
  · obtain ⟨piece, hp, hs⟩ := List.mem_filterMap.1 h
    obtain ⟨l, hl, rfl⟩ := List.mem_map.1 hp
    simp only [parseSingleComponent] at hs
    split_ifs at hs with h₁ h₂
    · cases hs
    · obtain rfl : String.mk l = s := by simpa using hs
      exact ⟨fun e => h₁ (.inl e), fun e => h₁ (.inr e), h₂, not_mem_of_mem_splitOn hl⟩

/-- Every name `archive_entry_name` returns is a non-empty `/`-join of `Normal` names:
the file name alone, or every `Normal` component. -/
theorem archiveEntryName_eq_ok {inputPath name : String} {preservePaths : Bool}
    (h : archiveEntryName inputPath preservePaths = .ok name) :
    ∃ parts, parts ≠ [] ∧ (∀ s ∈ parts, NormalName s) ∧ name = "/".intercalate parts := by
  cases preservePaths
  · rw [archiveEntryName, if_pos (show (!false) = true from rfl)] at h
    split at h
    · next s hs =>
      obtain rfl : s = name := by simpa using h
      unfold fileName at hs
      split at hs
      · next hl =>
        obtain rfl := Option.some.inj hs
        exact ⟨[_], List.cons_ne_nil _ _, by
          simpa using normalName_of_mem_components (List.mem_of_getLast?_eq_some hl), rfl⟩
      · cases hs
    · cases h
  · rw [archiveEntryName, if_neg (show ¬(!true) = true from Bool.false_ne_true)] at h
    dsimp only at h
    split at h
    · cases h
    · next hne =>
      obtain rfl := (Except.ok.inj h).symm
      refine ⟨_, fun e => hne (by rw [e]; rfl), fun s hs => ?_, rfl⟩
      obtain ⟨c, hc, hs⟩ := List.mem_filterMap.1 hs
      split at hs
      · cases hs; exact normalName_of_mem_components hc
      · cases hs

/-! ## Splitting a name -/

theorem intercalate_go_data (acc sep : String) (l : List String) :
    (String.intercalate.go acc sep l).data = acc.data ++ (l.map fun a => sep.data ++ a.data).flatten := by
  induction l generalizing acc with
  | nil => simp [String.intercalate.go]
  | cons a l ih => simp [String.intercalate.go, ih, List.append_assoc]

theorem intercalate_data (sep : String) :
    ∀ l : List String, (sep.intercalate l).data = sep.data.intercalate (l.map String.data)
  | [] => rfl
  | a :: l => by
    rw [String.intercalate, intercalate_go_data]
    induction l generalizing a with
    | nil => simp [List.intercalate]
    | cons b l ih =>
      have := ih b
      simp only [List.map_cons, List.flatten_cons, List.intercalate, List.intersperse_cons₂] at this ⊢
      rw [← this, List.append_assoc]

/-- A `/`-join of pieces without `/` splits back into them. -/
theorem split_intercalate {parts : List String} (hne : parts ≠ [])
    (h : ∀ s ∈ parts, '/' ∉ s.data) : ("/".intercalate parts).split (· == '/') = parts := by
  rw [String.split_of_valid, intercalate_data]
  have := List.splitOn_intercalate (parts.map String.data) '/' (by simpa using h)
    (by simpa using hne)
  rw [List.splitOn] at this
  simp [this, Function.comp_def]

/-- An extraction of pieces that are neither empty, `.` nor `..` appends them. -/
theorem foldl_extract {segs : List String} (h : ∀ s ∈ segs, NormalName s) (p : List String) :
    segs.foldl (fun p seg =>
        if seg = "" ∨ seg = "." then p else if seg = ".." then p.dropLast else p ++ [seg]) p =
      p ++ segs := by
  induction segs generalizing p with
  | nil => simp
  | cons s segs ih =>
    obtain ⟨h₁, h₂, h₃, -⟩ := h s (.head _)
    rw [List.foldl_cons, if_neg (by tauto), if_neg h₃, ih (fun s hs => h s (.tail _ hs))]
    simp

/-- **Archive entry names stay inside the extraction directory.** For every input path
and both values of `preserve_paths`, a name `archive_entry_name` returns is non-empty,
does not start with `/`, has no empty, `.` or `..` segment, and an extractor that
resolves `.` and `..` writes it below its directory. -/
theorem archive_entry_name_safe (inputPath : String) (preservePaths : Bool) (name : String)
    (h : archiveEntryName inputPath preservePaths = .ok name) :
    name ≠ "" ∧ name.data.head? ≠ some '/' ∧
    (∀ seg ∈ name.split (· == '/'), seg ≠ "" ∧ seg ≠ "." ∧ seg ≠ "..") ∧
    ∀ dir, dir <+: extractTarget dir name := by
  obtain ⟨parts, hne, hparts, rfl⟩ := archiveEntryName_eq_ok h
  have hsplit := split_intercalate hne fun s hs => (hparts s hs).2.2.2
  obtain ⟨a, l, rfl⟩ := List.exists_cons_of_ne_nil hne
  obtain ⟨ha₁, -, -, ha₄⟩ := hparts a (.head _)
  obtain ⟨c, cs, hc⟩ : ∃ c cs, a.data = c :: cs :=
    List.exists_cons_of_ne_nil fun e => ha₁ (String.ext e)
  have hhead : ("/".intercalate (a :: l)).data.head? = some c := by
    rw [intercalate_data, List.map_cons, hc]
    cases l <;> simp [List.intercalate, List.intersperse_cons_cons]
  have hc' : c ≠ '/' := fun e => ha₄ (by simp [hc, e])
  refine ⟨fun e => by simp [e] at hhead, by rw [hhead]; simpa using hc', ?_, fun dir => ?_⟩
  · rw [hsplit]
    exact fun s hs => ⟨(hparts s hs).1, (hparts s hs).2.1, (hparts s hs).2.2.1⟩
  · rw [extractTarget, hsplit, hhead, if_neg (by simpa using hc'), foldl_extract hparts]
    exact List.prefix_append _ _

theorem archive_entry_name_safe_rec :
    archiveEntryName "/rec/./a/../b.mp4" true = .ok "rec/a/b.mp4" ∧
    "rec/a/b.mp4" ≠ "" ∧ "rec/a/b.mp4".data.head? ≠ some '/' ∧
    (∀ seg ∈ "rec/a/b.mp4".split (· == '/'), seg ≠ "" ∧ seg ≠ "." ∧ seg ≠ "..") ∧
    ∀ dir, dir <+: extractTarget dir "rec/a/b.mp4" :=
  ⟨rfl, archive_entry_name_safe "/rec/./a/../b.mp4" true _ rfl⟩

end RustSrec.Pipeline
