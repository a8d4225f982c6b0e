import RustSrec.Pipeline.Compression

/-!
# Where the archive goes

`determine_output_path` takes `config.output_path`, else the processor input's first
output, else the first input's file stem with the format's extension, in the first
input's directory (`Path::parent`, or `.` when it has none, then `Path::join`), else
`archive.<ext>`.

`Path::parent`, `Path::file_stem` and `Path::join` are modelled as on Unix, over the
pieces between separators that `Components` parses (`components`, from the archive entry
names). `parent` drops the last component and then, as `Components::as_path` does, the
empty and `.` pieces before it; `join` puts a `/` between a base and a relative path
unless the base is empty or ends with one. In terms of components, `join` appends one
(`components_join`) and `parent` drops the last (`components_parent`): `parent` undoes
`join` with a file name (`parent_join`), and the archive named after the first input sits
beside it (`default_output_beside_input`). That archive is the first input itself exactly
when both are zip files (`default_output_is_input_iff`).
-/

namespace RustSrec.Pipeline

/-! ## `std::path` on Unix -/

/-- The components `Components` reads before a path's body: `RootDir` for a leading `/`,
`CurDir` for a relative path that is `.` or starts with `./`. -/
def headComps : List Char → List Component
  | '/' :: _ => [.rootDir]
  | ['.'] | '.' :: '/' :: _ => [.curDir]
  | _ => []

/-- How many bytes those take. -/
def headLen (path : List Char) : Nat := (headComps path).length

/-- The component one piece between separators parses to. -/
def parsePiece (p : List Char) : Option Component := parseSingleComponent (String.mk p)

/-- `Components::trim_right` on a body's pieces: drop the trailing pieces that are no
component, `""` and `"."`. -/
def trimPieces (ps : List (List Char)) : List (List Char) :=
  (ps.reverse.dropWhile fun p => (parsePiece p).isNone).reverse

/-- `Path::parent` on Unix: the path up to its last component, without the empty and `.`
pieces before that component (`Components::as_path`); `Some("")` for `.`, and `None`
when the last component is `RootDir` or there is none. -/
def parent (path : String) : Option String :=
  let head := path.data.take (headLen path.data)
  let kept := trimPieces ((path.data.drop (headLen path.data)).splitOn '/')
  if kept = [] then (if head = ['.'] then some "" else none)
  else some (String.mk (head ++ ['/'].intercalate (trimPieces kept.dropLast)))

example : (["a/b.flv", "b.flv", "/b.flv", "./b.flv", "a//b/", "a/./b", "/", ".", ""].map parent) =
    [some "a", some "", some "/", some ".", some "a", some "a", none, some "", none] := by decide

/-- `rsplit_file_at_dot(file)`: the parts of a file name before and after its last `.`;
`..`, and a name whose only `.` leads it, have no extension. -/
def rsplitFileAtDot (file : String) : Option String × Option String :=
  if file = ".." then (some file, none)
  else
    match file.data.reverse.span (· ≠ '.') with
    | (_, []) => (none, some file)
    | (after, _ :: before) =>
      if before = [] then (some file, none)
      else (some (String.mk before.reverse), some (String.mk after.reverse))

/-- `Path::file_stem`: the file name without its extension. -/
def fileStem (path : String) : Option String :=
  (fileName path).bind fun name => (rsplitFileAtDot name).1.or (rsplitFileAtDot name).2

example : (["rec/a.flv", "a.tar.gz", ".hidden", "noext", "a.", "/"].map fileStem) =
    [some "a", some "a.tar", some ".hidden", some "noext", some "a", none] := by decide

/-- `Path::join(base, path)` on Unix, as `PathBuf::push` does it: an absolute `path`
replaces the base; otherwise a `/` goes between them unless the base is empty or ends
with one. -/
def join (base path : String) : String :=
  if path.data.head? = some '/' then path
  else if base.data = [] ∨ base.data.getLast? = some '/' then base ++ path
  else base ++ "/" ++ path

/-! ## Pieces and components -/

@[simp] theorem parsePiece_nil : parsePiece [] = none := rfl

@[simp] theorem parsePiece_dot : parsePiece ['.'] = none := rfl

theorem parsePiece_of_normalName {n : String} (h : NormalName n) :
    parsePiece n.data = some (.normal n) := by
  simp [parsePiece, parseSingleComponent, h.1, h.2.1, h.2.2.1]

theorem components_eq (path : String) :
    components path = headComps path.data ++ (path.data.splitOn '/').filterMap parsePiece := by
  rw [components, List.filterMap_map]; rfl

/-- The four shapes `headComps` tells apart. -/
theorem headComps_cases (l : List Char) :
    (∃ t, l = '/' :: t) ∨ l = ['.'] ∨ (∃ t, l = '.' :: '/' :: t) ∨ headComps l = [] := by
  unfold headComps; split <;> simp

/-- A path's components are its head's and those of its body's pieces: the pieces that the
head's byte starts (`.`, or the empty one before `/`) parse to nothing. -/
theorem components_split (l : List Char) :
    components ⟨l⟩ = headComps l ++ ((l.drop (headLen l)).splitOn '/').filterMap parsePiece := by
  rw [components_eq]
  rcases headComps_cases l with ⟨t, rfl⟩ | rfl | ⟨t, rfl⟩ | h
  all_goals simp_all [headLen, headComps, List.splitOn, List.splitOnP_cons]

theorem headComps_take (l : List Char) : headComps (l.take (headLen l)) = headComps l := by
  rcases headComps_cases l with ⟨t, rfl⟩ | rfl | ⟨t, rfl⟩ | h <;> simp_all [headLen, headComps]

theorem length_take_headLen (l : List Char) : (l.take (headLen l)).length = headLen l := by
  rcases headComps_cases l with ⟨t, rfl⟩ | rfl | ⟨t, rfl⟩ | h <;> simp_all [headLen, headComps]

/-- The head components look at most at two bytes, and at whether the path is `.`. -/
theorem headComps_append {l : List Char} (h₁ : l ≠ []) (h₂ : l ≠ ['.']) (r : List Char) :
    headComps (l ++ r) = headComps l := by
  rcases l with _ | ⟨c, _ | ⟨d, l⟩⟩
  · exact absurd rfl h₁
  · have hc : c ≠ '.' := fun e => h₂ (e ▸ rfl)
    unfold headComps; split <;> simp_all
  · unfold headComps; split <;> simp_all

/-- `splitOn` cut after a separator-free last piece. -/
theorem splitOn_append_sep {n : List Char} (hn : '/' ∉ n) :
    ∀ l : List Char, (l ++ '/' :: n).splitOn '/' = l.splitOn '/' ++ [n]
  | [] => by
    simp [List.splitOn, List.splitOnP_eq_single (· == '/') n
      (fun x hx e => hn (by simpa using (beq_iff_eq.1 e) ▸ hx))]
  | c :: l => by
    have ih := splitOn_append_sep hn l
    simp only [List.splitOn] at ih ⊢
    rw [List.cons_append, List.splitOnP_cons, List.splitOnP_cons, ih]
    split_ifs
    · rfl
    · obtain ⟨hd, tl, hs⟩ := List.exists_cons_of_ne_nil (List.splitOnP_ne_nil (· == '/') l)
      rw [hs]; rfl

theorem intercalate_cons₂ {α : Type} (sep a b : List α) (l : List (List α)) :
    sep.intercalate (a :: b :: l) = a ++ sep ++ sep.intercalate (b :: l) := by
  simp [List.intercalate, List.intersperse_cons₂]

/-- Joining a prefix of the pieces gives a prefix of the path. -/
theorem intercalate_isPrefix_append {α : Type} (sep : List α) (S : List (List α)) :
    ∀ R : List (List α), ∃ t, sep.intercalate (R ++ S) = sep.intercalate R ++ t
  | [] => ⟨_, rfl⟩
  | [a] => by
    rcases S with _ | ⟨b, S⟩
    · exact ⟨[], by simp [List.intercalate]⟩
    · exact ⟨sep ++ sep.intercalate (b :: S), by simp [intercalate_cons₂, List.intercalate]⟩
  | a :: b :: R => by
    obtain ⟨t, ht⟩ := intercalate_isPrefix_append sep S (b :: R)
    exact ⟨t, by simp only [List.cons_append, intercalate_cons₂] at ht ⊢; simp [ht]⟩

/-! ## Trimming -/

theorem trimPieces_append (ps : List (List Char)) :
    ∃ t, ps = trimPieces ps ++ t ∧ ∀ p ∈ t, parsePiece p = none := by
  refine ⟨(ps.reverse.takeWhile fun p => (parsePiece p).isNone).reverse, ?_, fun p hp => ?_⟩
  · rw [trimPieces, ← List.reverse_append, List.takeWhile_append_dropWhile, List.reverse_reverse]
  · simpa using List.mem_takeWhile_imp (List.mem_reverse.1 hp)

theorem isPrefix_trimPieces (ps : List (List Char)) : trimPieces ps <+: ps :=
  let ⟨t, ht, _⟩ := trimPieces_append ps; ⟨t, ht.symm⟩

theorem filterMap_trimPieces (ps : List (List Char)) :
    (trimPieces ps).filterMap parsePiece = ps.filterMap parsePiece := by
  obtain ⟨t, ht, hn⟩ := trimPieces_append ps
  conv_rhs => rw [ht]
  rw [List.filterMap_append, List.filterMap_eq_nil_iff.2 hn, List.append_nil]

/-- What is left ends with a piece that is a component. -/
theorem trimPieces_getLast (ps : List (List Char)) :
    ∀ p ∈ (trimPieces ps).getLast?, (parsePiece p).isSome := by
  intro p hp
  have := List.head?_dropWhile_not (fun p => (parsePiece p).isNone) ps.reverse
  simp only [trimPieces, List.getLast?_reverse, Option.mem_def] at hp
  rw [hp] at this
  simpa using this

/-! ## `join` appends a component, `parent` drops one -/

theorem headComps_append_sep {l : List Char} (h : l ≠ []) (r : List Char) :
    headComps (l ++ '/' :: r) = headComps l := by
  by_cases h' : l = ['.']
  · subst h'; rfl
  · exact headComps_append h h' _

/-- A separator and a piece add that piece's component. -/
theorem components_append_sep (l : List Char) {r : List Char} {c : Component} (hr : '/' ∉ r)
    (hc : parsePiece r = some c) :
    components ⟨l ++ '/' :: r⟩ = components ⟨l ++ ['/']⟩ ++ [c] := by
  have hh : headComps (l ++ '/' :: r) = headComps (l ++ ['/']) := by
    rcases l with _ | ⟨a, l⟩
    · rfl
    · rw [headComps_append_sep (List.cons_ne_nil a l), headComps_append_sep (List.cons_ne_nil a l)]
  rw [components_eq, components_eq]
  dsimp only
  rw [hh, splitOn_append_sep hr, splitOn_append_sep (List.not_mem_nil '/')]
  simp [List.filterMap_append, hc]

/-- A trailing separator adds nothing. -/
theorem components_append_slash {l : List Char} (hl : l ≠ []) :
    components ⟨l ++ ['/']⟩ = components ⟨l⟩ := by
  rw [components_eq, components_eq]
  dsimp only
  rw [headComps_append_sep hl, splitOn_append_sep (List.not_mem_nil '/')]
  simp [List.filterMap_append]

theorem components_of_normalName {n : String} (hn : NormalName n) :
    components n = [.normal n] := by
  have hslash := hn.2.2.2
  have hh : headComps n.data = [] := by
    rcases headComps_cases n.data with ⟨t, ht⟩ | ht | ⟨t, ht⟩ | h
    · exact absurd (ht ▸ List.mem_cons_self _ _) hslash
    · exact absurd (String.ext ht) hn.2.1
    · exact absurd (ht ▸ List.mem_cons_of_mem _ (List.mem_cons_self _ _)) hslash
    · exact h
  rw [components_eq, hh, List.splitOn, List.splitOnP_eq_single (· == '/') n.data
    (fun x hx e => hslash (beq_iff_eq.1 e ▸ hx))]
  simp [parsePiece_of_normalName hn]

/-- `join` appends the name as one more component, whatever the base. -/
theorem components_join (q : String) {n : String} (hn : NormalName n) :
    components (join q n) = components q ++ [.normal n] := by
  have hslash := hn.2.2.2
  have hc := parsePiece_of_normalName hn
  obtain ⟨l⟩ := q
  rw [join, if_neg (show ¬n.data.head? = some '/' from fun h => hslash (List.mem_of_mem_head? h))]
  dsimp only
  split_ifs with hq
  · rcases hq with hq | hq
    · cases hq
      exact components_of_normalName hn
    · obtain ⟨l', rfl⟩ : ∃ l', l = l' ++ ['/'] :=
        ⟨l.dropLast, (List.dropLast_append_getLast? _ hq).symm⟩
      have : (⟨l' ++ ['/']⟩ ++ n : String) = ⟨l' ++ '/' :: n.data⟩ := by
        simp [String.ext_iff]
      rw [this, components_append_sep l' hslash hc]
  · push_neg at hq
    have : (⟨l⟩ ++ "/" ++ n : String) = ⟨l ++ '/' :: n.data⟩ := by simp [String.ext_iff]
    rw [this, components_append_sep l hslash hc, components_append_slash hq.1]

/-- A path cut after a prefix of its body's pieces, the last of them a component, keeps its
head and has those pieces' components. -/
theorem components_take_pieces {l : List Char} {R : List (List Char)}
    (hRP : R <+: (l.drop (headLen l)).splitOn '/')
    (hR : ∀ p ∈ R.getLast?, (parsePiece p).isSome) :
    components ⟨l.take (headLen l) ++ ['/'].intercalate R⟩ =
      headComps l ++ R.filterMap parsePiece := by
  have hslash : ∀ p ∈ R, '/' ∉ p := fun p hp => not_mem_of_mem_splitOn (hRP.subset hp)
  have key (hh : headComps (l.take (headLen l) ++ ['/'].intercalate R) = headComps l) :
      components ⟨l.take (headLen l) ++ ['/'].intercalate R⟩ =
        headComps l ++ ((['/'].intercalate R).splitOn '/').filterMap parsePiece := by
    have hlen : headLen (l.take (headLen l) ++ ['/'].intercalate R) = headLen l :=
      congrArg List.length hh
    rw [components_split, hh, hlen, List.drop_left' (length_take_headLen l)]
  rcases eq_or_ne R [] with rfl | hne
  · exact key (by simpa [List.intercalate] using headComps_take l)
  have hI : ∀ w, w = [] ∨ w = ['.'] → ['/'].intercalate R ≠ w := by
    rintro w hw e
    have hRw := List.splitOn_intercalate R '/' hslash hne
    rw [e] at hRw
    subst hRw
    rcases hw with rfl | rfl <;> simp [List.splitOn] at hR
  obtain ⟨S, hS⟩ := hRP
  obtain ⟨t, ht⟩ := intercalate_isPrefix_append ['/'] S R
  rw [hS, List.intercalate_splitOn] at ht
  have hne' : l.take (headLen l) ++ ['/'].intercalate R ≠ [] := by simp [hI [] (.inl rfl)]
  have hdot : l.take (headLen l) ++ ['/'].intercalate R ≠ ['.'] := fun e => by
    rcases List.append_eq_cons_iff.1 e with ⟨-, e⟩ | ⟨_, -, e⟩
    exacts [hI _ (.inr rfl) e, hI _ (.inl rfl) (List.append_eq_nil.1 e.symm).2]
  rw [key, List.splitOn_intercalate R '/' hslash hne]
  calc headComps (l.take (headLen l) ++ ['/'].intercalate R)
      = headComps (l.take (headLen l) ++ ['/'].intercalate R ++ t) :=
        (headComps_append hne' hdot t).symm
    _ = headComps l := by rw [List.append_assoc, ← ht, List.take_append_drop]

/-- `parent` drops the last component. -/
theorem components_parent {x q : String} (h : parent x = some q) :
    components q = (components x).dropLast := by
  obtain ⟨l⟩ := x
  have hx := components_split l
  rw [← filterMap_trimPieces] at hx
  unfold parent at h
  dsimp only at h
  split_ifs at h with hk hh
  · cases h
    rw [hx, hk, ← headComps_take, hh]
    rfl
  · cases h
    set kept := trimPieces ((l.drop (headLen l)).splitOn '/')
    obtain ⟨c, hc⟩ := Option.isSome_iff_exists.1
      (trimPieces_getLast _ _ (List.getLast?_eq_getLast kept hk))
    have hRP : trimPieces kept.dropLast <+: (l.drop (headLen l)).splitOn '/' :=
      (isPrefix_trimPieces _).trans ((List.dropLast_prefix _).trans (isPrefix_trimPieces _))
    rw [components_take_pieces hRP (trimPieces_getLast _), hx, filterMap_trimPieces,
      ← List.dropLast_append_getLast hk, List.filterMap_append]
    simp [hc]

theorem trimPieces_eq_nil_iff {ps : List (List Char)} :
    trimPieces ps = [] ↔ ps.filterMap parsePiece = [] := by
  rw [← filterMap_trimPieces]
  refine ⟨fun h => by rw [h]; rfl, fun h => by_contra fun hne => ?_⟩
  obtain ⟨c, hc⟩ := Option.isSome_iff_exists.1
    (trimPieces_getLast ps _ (List.getLast?_eq_getLast _ hne))
  exact List.not_mem_nil c (h ▸ List.mem_filterMap.2 ⟨_, List.getLast_mem hne, hc⟩)

theorem parsePiece_ne_rootDir (p : List Char) : parsePiece p ≠ some .rootDir := by
  unfold parsePiece parseSingleComponent
  split_ifs <;> simp

/-- `parent` returns `None` exactly for a path with no component or only the root, as
`Path::parent` documents. -/
theorem parent_eq_none_iff {x : String} :
    parent x = none ↔ components x = [] ∨ components x = [.rootDir] := by
  obtain ⟨l⟩ := x
  rw [components_split]
  unfold parent
  dsimp only
  split_ifs with hk hh
  · rw [trimPieces_eq_nil_iff.1 hk, ← headComps_take, hh]
    simp [headComps]
  · rw [trimPieces_eq_nil_iff.1 hk, List.append_nil]
    simp only [true_iff]
    rcases headComps_cases l with ⟨t, rfl⟩ | rfl | ⟨t, rfl⟩ | h
    · exact .inr rfl
    · exact absurd rfl hh
    · exact absurd rfl hh
    · exact .inl h
  · have hne := mt trimPieces_eq_nil_iff.2 hk
    simp only [reduceCtorEq, false_iff, not_or, List.append_eq_nil, hne, and_false,
      not_false_eq_true, true_and]
    intro e
    rcases List.append_eq_cons_iff.1 e with ⟨-, e⟩ | ⟨_, -, e⟩
    · obtain ⟨p, -, hp⟩ := List.mem_filterMap.1 (e ▸ List.mem_singleton_self _)
      exact parsePiece_ne_rootDir p hp
    · exact hne (List.append_eq_nil.1 e.symm).2

theorem components_of_fileName {x n : String} (h : fileName x = some n) :
    components x = (components x).dropLast ++ [.normal n] := by
  unfold fileName at h
  split at h
  · next s hs => cases h; exact (List.dropLast_append_getLast? _ hs).symm
  · cases h

theorem parent_isSome_of_fileName {x n : String} (h : fileName x = some n) : (parent x).isSome := by
  rw [Option.isSome_iff_ne_none]
  intro hp
  rcases parent_eq_none_iff.1 hp with h' | h' <;> simp [fileName, h'] at h

theorem fileName_join (q : String) {n : String} (hn : NormalName n) :
    fileName (join q n) = some n := by
  rw [fileName, components_join q hn, List.getLast?_concat]

/-- `Path::parent` undoes `Path::join` with a file name: the parent of `join q n` has the
components of `q`. -/
theorem parent_join (q : String) {n : String} (hn : NormalName n) :
    ∃ q', parent (join q n) = some q' ∧ components q' = components q := by
  obtain ⟨q', hq'⟩ := Option.isSome_iff_exists.1 (parent_isSome_of_fileName (fileName_join q hn))
  exact ⟨q', hq', by rw [components_parent hq', components_join q hn, List.dropLast_concat]⟩

theorem parent_join_rec : NormalName "a.zip" ∧
    ∃ q', parent (join "rec/" "a.zip") = some q' ∧ components q' = components "rec/" :=
  ⟨⟨by decide, by decide, by decide, by decide⟩,
    parent_join "rec/" ⟨by decide, by decide, by decide, by decide⟩⟩

/-! ## File stems -/

/-- What `rsplit_file_at_dot` returns: the name as the stem and no extension, the name as the
extension and no stem, or a stem and an extension without `.` around the last `.`. -/
theorem rsplitFileAtDot_cases (file : String) :
    rsplitFileAtDot file = (some file, none) ∨ rsplitFileAtDot file = (none, some file) ∨
    ∃ b a, rsplitFileAtDot file = (some b, some a) ∧ file.data = b.data ++ '.' :: a.data ∧
      '.' ∉ a.data := by
  unfold rsplitFileAtDot
  split_ifs
  · exact .inl rfl
  rw [List.span_eq_take_drop]
  split
  · exact .inr (.inl rfl)
  next after c before heq =>
  split_ifs
  · exact .inl rfl
  have h₁ := congrArg Prod.fst heq
  have h₂ := congrArg Prod.snd heq
  dsimp only at h₁ h₂
  have hc : c = '.' := by
    have := List.head?_dropWhile_not (· ≠ '.') file.data.reverse
    rw [h₂] at this
    simpa using this
  have hrev := List.takeWhile_append_dropWhile (· ≠ '.') file.data.reverse
  rw [h₁, h₂, hc] at hrev
  refine .inr (.inr ⟨_, _, rfl, ?_, fun hd => ?_⟩)
  · rw [← List.reverse_reverse file.data, ← hrev]
    simp
  · have := List.mem_takeWhile_imp (h₁ ▸ List.mem_reverse.1 hd)
    simp at this

/-- Both parts `rsplit_file_at_dot` returns are cut from the name. -/
theorem rsplitFileAtDot_subset (file : String) :
    ∀ s ∈ (rsplitFileAtDot file).1.or (rsplitFileAtDot file).2, s.data ⊆ file.data := by
  intro s hs
  rcases rsplitFileAtDot_cases file with h | h | ⟨b, a, h, hd, -⟩ <;> rw [h] at hs <;> cases hs
  · exact List.Subset.refl _
  · exact List.Subset.refl _
  · exact hd ▸ List.subset_append_left _ _

theorem normalName_of_fileName {path name : String} (h : fileName path = some name) :
    NormalName name := by
  unfold fileName at h
  split at h
  · next s hs => cases h; exact normalName_of_mem_components (List.mem_of_getLast?_eq_some hs)
  · cases h

theorem fileStem_slash {path s : String} (h : fileStem path = some s) : '/' ∉ s.data := by
  obtain ⟨name, hname, hs⟩ := Option.bind_eq_some.1 h
  exact fun hc => (normalName_of_fileName hname).2.2.2 (rsplitFileAtDot_subset name s hs hc)

/-! ## `determine_output_path` -/

/-- `ArchiveFormat::extension`. -/
def ArchiveFormat.extension : ArchiveFormat → String
  | .zip => "zip"
  | .tarGz => "tar.gz"

/-- `CompressionConfig`. -/
structure CompressionConfig where
  format : ArchiveFormat
  compressionLevel : UInt8
  outputPath : Option String
  overwrite : Bool
  preservePaths : Bool
  deriving DecidableEq, Repr

/-- `CompressionConfig::default()`: zip at level 6, no output path, overwrite, and
entries at the archive's root. -/
def CompressionConfig.default : CompressionConfig := ⟨.zip, 6, none, true, false⟩

/-- `CompressionProcessor::determine_output_path(inputs, config, processor_input)`, with
the processor input's `outputs`. -/
def determineOutputPath (inputs : List String) (config : CompressionConfig)
    (outputs : List String) : String :=
  match config.outputPath with
  | some output => output
  | none =>
    match outputs.head? with
    | some output => output
    | none =>
      match inputs.head? with
      | some first =>
        join ((parent first).getD ".")
          (((fileStem first).getD "archive") ++ "." ++ config.format.extension)
      | none => "archive." ++ config.format.extension

/-- `<stem>.<ext>` is a file name. -/
theorem normalName_archiveName {stem : String} (hs : '/' ∉ stem.data) (format : ArchiveFormat) :
    NormalName (stem ++ "." ++ format.extension) := by
  have hlen : 2 < (stem ++ "." ++ format.extension).length := by
    have : 2 ≤ format.extension.length := by cases format <;> decide
    have : ".".length = 1 := rfl
    simp only [String.length_append]
    omega
  refine ⟨?_, ?_, ?_, ?_⟩ <;> try (intro h; rw [h] at hlen; contradiction)
  cases format <;> simp [ArchiveFormat.extension, hs]

theorem determineOutputPath_default (first : String) (rest : List String)
    (config : CompressionConfig) (hcfg : config.outputPath = none) :
    determineOutputPath (first :: rest) config [] =
      join ((parent first).getD ".")
        ((fileStem first).getD "archive" ++ "." ++ config.format.extension) := by
  rw [determineOutputPath, hcfg]
  rfl

theorem archiveName_normalName (first : String) (format : ArchiveFormat) :
    NormalName ((fileStem first).getD "archive" ++ "." ++ format.extension) := by
  have hstem : '/' ∉ ((fileStem first).getD "archive").data := by
    cases h : fileStem first
    · decide
    · exact fileStem_slash h
  exact normalName_archiveName hstem format

/-- With no configured or given output, the archive named after the first input sits in
that input's directory: its components are the input's but the last, then `<stem>.<ext>`;
`./archive.<ext>` when the input has no parent. -/
theorem default_output_beside_input (first : String) (rest : List String)
    (config : CompressionConfig) (hcfg : config.outputPath = none) :
    components (determineOutputPath (first :: rest) config []) =
      (if (parent first).isSome then (components first).dropLast else [.curDir]) ++
        [.normal ((fileStem first).getD "archive" ++ "." ++ config.format.extension)] := by
  rw [determineOutputPath_default first rest config hcfg,
    components_join _ (archiveName_normalName first _)]
  cases h : parent first
  · rfl
  · rw [Option.getD_some, components_parent h]
    rfl

theorem default_output_beside_input_rec : CompressionConfig.default.outputPath = none ∧
    components (determineOutputPath ["rec/a.flv", "b.flv"] .default []) =
      (if (parent "rec/a.flv").isSome then (components "rec/a.flv").dropLast else [.curDir]) ++
        [.normal ((fileStem "rec/a.flv").getD "archive" ++ "." ++ CompressionConfig.default.format.extension)] :=
  ⟨rfl, default_output_beside_input "rec/a.flv" ["b.flv"] .default rfl⟩

theorem append_dot_ne (s e : String) : s ++ "." ++ e ≠ s := fun h => by
  have h₁ := congrArg String.length h
  have h₂ : ".".length = 1 := rfl
  simp only [String.length_append, h₂] at h₁
  omega

/-- **The default archive can be its own input.** With no configured or given output, the
generated path names the first input itself (has its components) exactly when the format is
zip and the input's extension is `zip`; a tar.gz archive never does, its extension having a
`.`. -/
theorem default_output_is_input_iff (first : String) (rest : List String)
    (config : CompressionConfig) (hcfg : config.outputPath = none) {name : String}
    (hname : fileName first = some name) :
    components (determineOutputPath (first :: rest) config []) = components first ↔
      config.format = .zip ∧ ∃ stem, rsplitFileAtDot name = (some stem, some "zip") := by
  obtain ⟨q, hq⟩ := Option.isSome_iff_exists.1 (parent_isSome_of_fileName hname)
  have hstem : fileStem first = (rsplitFileAtDot name).1.or (rsplitFileAtDot name).2 := by
    rw [fileStem, hname]; rfl
  rw [determineOutputPath_default first rest config hcfg,
    components_join _ (archiveName_normalName first _), hq, Option.getD_some,
    components_parent hq]
  conv_lhs => rhs; rw [components_of_fileName hname]
  simp only [List.append_cancel_left_eq, List.cons.injEq, Component.normal.injEq, and_true,
    hstem]
  rcases rsplitFileAtDot_cases name with h | h | ⟨b, a, h, hd, ha⟩ <;> rw [h]
  · simp [append_dot_ne]
  · simp [append_dot_ne]
  · have : b ++ "." ++ config.format.extension = name ↔ config.format.extension = a := by
      rw [String.ext_iff, hd]
      simp [String.ext_iff]
    show b ++ "." ++ config.format.extension = name ↔ _
    rw [this]
    cases config.format
    · simp [ArchiveFormat.extension, eq_comm]
    · simp only [ArchiveFormat.extension, reduceCtorEq, false_and, iff_false]
      rintro rfl
      exact ha (by decide)

theorem default_output_is_input_iff_zip : CompressionConfig.default.outputPath = none ∧
    fileName "rec/a.zip" = some "a.zip" ∧
    (components (determineOutputPath ["rec/a.zip"] .default []) = components "rec/a.zip" ↔
      CompressionConfig.default.format = .zip ∧
        ∃ stem, rsplitFileAtDot "a.zip" = (some stem, some "zip")) :=
  ⟨rfl, by decide, default_output_is_input_iff "rec/a.zip" [] .default rfl (by decide)⟩

example : determineOutputPath ["rec/a.flv", "rec/b.flv"] .default [] = "rec/a.zip" := by decide
example : determineOutputPath ["/"] { CompressionConfig.default with format := .tarGz } [] =
    "./archive.tar.gz" := by decide

end RustSrec.Pipeline
