import StaticLiteral.Proofs.Directories
import StaticLiteral.Proofs.Program.Sources

/-!
# Programs in another directory

The files of a program may be moved into another directory together. A specifier that stays among
them leads to the same file as before: `resolve_module_moved`. Only the directory of all files is
another thing by itself than inside of a directory.
-/

namespace StaticLiteral

namespace Path

variable {start dir path t : Text} {names : List Text}

/-! ## Moved paths -/

/-- The path in another directory. -/
def moved (dir path : Text) : Text := join dir (path.dropWhile (· == slash))

/-- The path is that of a file below a root. -/
structure Below (start path : Text) : Prop where
  root_eq : root path = start
  names_ne_nil : innerNames path ≠ []
  not_climbing : dotDot ∉ innerNames path

/-- The text can be a file's own name. -/
structure IsFileName (t : Text) : Prop extends IsName t where
  ne_dot_dot : t ≠ dotDot

/-- What stands in front of the paths of all files that are moved to a directory. -/
def front (dir : Text) : Text := join (root dir ++ Text.join [slash] (outerNames dir)) []

/-- What is left of slashes at the front begins with none. -/
theorem head_drop_slashes (path : Text) : (path.dropWhile (· == slash)).head? ≠ some slash := by
  induction path with
  | nil => simp
  | cons c path ih =>
      by_cases hc : c = slash
      · simpa [hc] using ih
      · simp [hc]

/-- Slashes at the front add no names. -/
theorem components_drop_slashes (path : Text) :
    components (path.dropWhile (· == slash)) = components path := by
  induction path with
  | nil => rfl
  | cons c path ih =>
      by_cases hc : c = slash
      · simpa [hc] using ih
      · simp [hc]

/-- A moved path has its names behind those of its new directory. -/
theorem components_moved (dir path : Text) :
    components (moved dir path) = components dir ++ components path := by
  rw [moved, components_path_join dir (head_drop_slashes path), components_drop_slashes]

/-- A moved path has the root of its new directory. -/
theorem root_moved (dir path : Text) : root (moved dir path) = root dir :=
  root_join dir (head_drop_slashes path)

/-- What is left of the names of a path are names. -/
theorem is_name_of_mem_inner_names {name : Text} (h : name ∈ innerNames path) : IsName name := by
  rcases mem_of_mem_resolve_dots h with h | h | rfl
  · exact absurd h List.not_mem_nil
  · exact is_name_of_mem_components h
  · exact ⟨by decide, by decide, by decide⟩

/-- What is left of the names of a directory are names. -/
theorem is_name_of_mem_outer_names {name : Text} (h : name ∈ outerNames path) : IsName name := by
  rcases mem_of_mem_resolve_dots h with h | h | rfl
  · exact absurd h List.not_mem_nil
  · exact is_name_of_mem_components h
  · exact ⟨by decide, by decide, by decide⟩

/-- The path of a moved file stands behind the front of its new directory. -/
theorem normalize_moved (dir : Text) (h : Below start path) :
    normalize (moved dir path) = front dir ++ Text.join [slash] (innerNames path) := by
  have hnames : ∀ name ∈ innerNames path, IsName name := fun _ => is_name_of_mem_inner_names
  rw [normalize_eq dir (root_moved dir path) (components_moved dir path) h.not_climbing]
  refine (assemble_append dir (fun _ => is_name_of_mem_outer_names) h.names_ne_nil hnames).trans ?_
  exact join_eq_append _ (head_join_ne hnames)

/-- A root has itself as its root. -/
theorem root_root (path : Text) : root (root path) = root path := by
  rcases root_cases path with h | h | h <;> rw [h] <;> rfl

/-- A root has no names. -/
theorem outer_names_root (path : Text) : outerNames (root path) = [] := by
  rcases root_cases path with h | h | h <;> rw [h] <;> rfl

/-- Names stay what they are behind a root. -/
theorem moved_root (path : Text) (ht : t.head? ≠ some slash) :
    moved dir (root path ++ t) = join dir t := by
  have hdrop : t.dropWhile (· == slash) = t := by
    cases t with
    | nil => rfl
    | cons c t => exact List.dropWhile_cons_of_neg (by simpa using ht)
  rw [moved]
  rcases root_cases path with h | h | h <;> rw [h] <;> simp [hdrop]

/-- A path below a root is where it is moved to the root. -/
theorem normalize_below (h : Below start path) :
    normalize path = start ++ Text.join [slash] (innerNames path) := by
  obtain ⟨rfl, hne, hinside⟩ := h
  have hcomponents : components path = components (root path) ++ components path := by
    rcases root_cases path with h | h | h <;> rw [h] <;> rfl
  rw [normalize_eq (root path) (root_root path).symm hcomponents hinside, outer_names_root,
    root_root, List.nil_append]
  exact assemble_of_ne_nil _ hne fun _ => is_name_of_mem_inner_names

/-- Names behind a root are the names of the path. -/
theorem components_root_append (path : Text) (h : ∀ name ∈ names, IsName name) :
    components (root path ++ Text.join [slash] names) = names := by
  have hjoin := components_join h
  rcases root_cases path with hroot | hroot | hroot <;> rw [hroot] <;> simpa using hjoin

/-- What is left of the names of a path stays when it is resolved again. -/
theorem resolve_inner_names (path : Text) :
    resolveDots false [] (innerNames path) = innerNames path := by
  have hsettled : Settled false (innerNames path).reverse := settled_resolve_dots .nil _
  exact resolve_dots_of_settled (by simpa using hsettled)

/-- The normalized path of a file below a root is below that root and has the same names. -/
theorem below_normalize (h : Below start path) :
    Below start (normalize path) ∧ innerNames (normalize path) = innerNames path := by
  have hnames : ∀ name ∈ innerNames path, IsName name := fun _ => is_name_of_mem_inner_names
  have hinner : innerNames (normalize path) = innerNames path := by
    rw [normalize_below h, innerNames, ← h.root_eq, components_root_append path hnames,
      resolve_inner_names]
  refine ⟨⟨?_, hinner ▸ h.names_ne_nil, hinner ▸ h.not_climbing⟩, hinner⟩
  rw [normalize_below h, root_append (.inl (head_join_ne hnames)), ← h.root_eq, root_root]

/-- Two names of a file are one. -/
theorem IsFileName.append {first second : Text} (hfirst : IsFileName first)
    (hsecond : IsFileName second) : IsFileName (first ++ second) where
  ne_nil h := hfirst.ne_nil (List.append_eq_nil_iff.mp h).1
  ne_dot h := by
    rcases List.append_eq_singleton_iff.mp h with ⟨h, -⟩ | ⟨-, h⟩
    · exact hfirst.ne_nil h
    · exact hsecond.ne_nil h
  slash_not_mem h := (List.mem_append.mp h).elim hfirst.slash_not_mem hsecond.slash_not_mem
  ne_dot_dot h := by
    match first, hfirst with
    | [], hfirst => exact hfirst.ne_nil rfl
    | [c], hfirst =>
        obtain ⟨hc, -⟩ := List.cons_eq_cons.mp h
        exact hfirst.ne_dot (congrArg (fun c => [c]) hc)
    | c :: d :: rest, _ =>
        obtain ⟨-, h⟩ := List.cons_eq_cons.mp h
        obtain ⟨-, h⟩ := List.cons_eq_cons.mp h
        exact hsecond.ne_nil (List.append_eq_nil_iff.mp h).2

/-- Names of files behind a root are a normalized path. -/
theorem normalize_file_names (path : Text) (hne : names ≠ [])
    (h : ∀ name ∈ names, IsFileName name) :
    normalize (root path ++ Text.join [slash] names) = root path ++ Text.join [slash] names := by
  have hnames : ∀ name ∈ names, IsName name := fun name hname => (h name hname).toIsName
  have hsettled : ∀ {isRooted : Bool} {taken : List Text}, (∀ name ∈ taken, name ≠ dotDot) →
      Settled isRooted taken := by
    intro isRooted taken htaken
    induction taken with
    | nil => exact .nil
    | cons name taken ih =>
        exact .name (ih fun other hmem => htaken other (List.mem_cons_of_mem _ hmem))
          (htaken name List.mem_cons_self)
  rw [normalize, root_append (.inl (head_join_ne hnames)), root_root,
    components_root_append path hnames,
    resolve_dots_of_settled (hsettled (by simpa using fun name hname => (h name hname).ne_dot_dot))]
  exact assemble_of_ne_nil _ hne hnames

/-! ## Specifiers -/

/-- The names that a specifier in a file leads to, seen from the root. -/
def targetNames (fromFile specifier : Text) : List Text :=
  resolveDots false [] ((components fromFile).dropLast ++ components specifier)

/-- A specifier leads to names. -/
theorem is_name_of_mem_target_names {name fromFile specifier : Text}
    (h : name ∈ targetNames fromFile specifier) : IsName name := by
  rcases mem_of_mem_resolve_dots h with h | h | rfl
  · exact absurd h List.not_mem_nil
  · rcases List.mem_append.mp h with h | h
    · exact is_name_of_mem_components (List.dropLast_subset _ h)
    · exact is_name_of_mem_components h
  · exact ⟨by decide, by decide, by decide⟩

/-- A relative specifier does not begin with a slash. -/
theorem head_ne_of_is_relative {specifier : Text} (h : isRelative specifier) :
    specifier.head? ≠ some slash := by
  intro hhead
  obtain ⟨t, rfl⟩ := List.head?_eq_some_iff.mp hhead
  revert h
  simp [isRelative, Text.startsWith, dot, dotDot, slash, Text.ofString, List.isPrefixOf]

/-- What a relative specifier in a moved file leads to. -/
theorem normalize_specifier {file specifier : Text} (dir : Text) (hne : names ≠ [])
    (hnames : ∀ name ∈ names, IsName name) (hrelative : isRelative specifier)
    (hfile : file = root path ++ Text.join [slash] names)
    (hinside : dotDot ∉ targetNames file specifier) :
    normalize (join (directory (moved dir file)) specifier) =
      assemble (root dir) (outerNames dir ++ targetNames file specifier) := by
  obtain ⟨before, name, rfl⟩ : ∃ before name, names = before ++ [name] :=
    ⟨_, _, (List.dropLast_append_getLast hne).symm⟩
  have hbefore : ∀ other ∈ before, IsName other := fun other hmem =>
    hnames other (List.mem_append_left _ hmem)
  have hname : IsName name := hnames name (by simp)
  have hlast : Text.join [slash] (before ++ [name]) = join (Text.join [slash] before) name :=
    join_names_append hbefore (List.cons_ne_nil _ _) (by simpa using hname)
  have hmoved : moved dir file = join (join dir (Text.join [slash] before)) name := by
    rw [hfile, moved_root path (head_join_ne hnames), join_eq_append dir (head_join_ne hnames),
      hlast, ← join_append_of_open (is_open_join_nil dir) hname.head_ne,
      ← join_eq_append dir (head_join_ne hbefore)]
  have hspecifier := head_ne_of_is_relative hrelative
  obtain ⟨hcomponents, hroot⟩ := directory_join (join dir (Text.join [slash] before)) hname
  rw [components_path_join dir (head_join_ne hbefore), components_join hbefore] at hcomponents
  rw [root_join dir (head_join_ne hbefore)] at hroot
  have htarget : targetNames file specifier =
      resolveDots false [] (before ++ components specifier) := by
    rw [targetNames, hfile, components_root_append path hnames, List.dropLast_concat]
  rw [hmoved, htarget]
  refine normalize_eq dir ?_ ?_ (htarget ▸ hinside)
  · rw [root_join _ hspecifier, hroot]
  · rw [components_path_join _ hspecifier, hcomponents, List.append_assoc]

end Path

/-- The file in another directory. -/
def SourceFile.moved (dir : Text) (source : SourceFile) : SourceFile :=
  { source with fileName := Path.moved dir source.fileName }

/-! ## Candidates -/

/-- The paths that are tried for a path. -/
def candidatesOf (config : Config) (base : Text) : List Text :=
  let stems := base :: (withoutCompiledSuffix? base).toList
  stems
    ++ stems.flatMap (fun stem => config.moduleExtensions.map (stem ++ ·))
    ++ stems.flatMap (fun stem => config.indexFiles.map (Path.join stem))

open StaticLiteral.Path

variable {config : Config} {lead inner fromFile specifier : Text}

/-- The names that are added to paths are the names of files. -/
def Config.IsPlain (config : Config) : Prop :=
  ∀ t ∈ config.moduleExtensions ++ config.indexFiles, IsFileName t

/-- The candidates for a specifier are those for the path that it leads to. -/
theorem module_candidates_eq (config : Config) (fromFile specifier : Text) :
    moduleCandidates config fromFile specifier =
      candidatesOf config (normalize (join (directory fromFile) specifier)) := rfl

/-- Behind what is open an end without slashes is an end by itself. -/
theorem ends_with_append {stop : Text} (hlead : IsOpen lead) (hstop : slash ∉ stop) :
    (lead ++ inner).endsWith stop = inner.endsWith stop := by
  rw [Bool.eq_iff_iff, Text.endsWith, Text.endsWith, List.isSuffixOf_iff_suffix,
    List.isSuffixOf_iff_suffix]
  refine ⟨fun h => ?_, fun h => h.trans (List.suffix_append _ _)⟩
  rcases hlead with rfl | ⟨s, rfl⟩
  · exact h
  · rw [List.append_assoc, List.singleton_append] at h
    rcases List.suffix_or_suffix_of_suffix h (List.suffix_append s (slash :: inner)) with h | h
    · rcases List.suffix_cons_iff.mp h with rfl | h
      · exact absurd List.mem_cons_self hstop
      · exact h
    · exact absurd (h.subset List.mem_cons_self) hstop

/-- What is left without the end of a compiled file has that end behind it. -/
theorem eq_append_of_without_compiled_suffix {path stem : Text}
    (h : withoutCompiledSuffix? path = some stem) : path = stem ++ Text.ofString ".js" := by
  unfold withoutCompiledSuffix? at h
  split at h
  · next hend =>
      obtain ⟨s, rfl⟩ := List.isSuffixOf_iff_suffix.mp hend
      cases h
      simp [Text.ofString]
  · cases h

/-- Behind what is open the end of a compiled file is taken away by itself. -/
theorem without_compiled_suffix_append (hlead : IsOpen lead) (inner : Text) :
    withoutCompiledSuffix? (lead ++ inner) =
      (withoutCompiledSuffix? inner).map (lead ++ ·) := by
  unfold withoutCompiledSuffix?
  rw [ends_with_append hlead (by decide)]
  split
  · next hend =>
      have hlength : 3 ≤ inner.length :=
        (List.isSuffixOf_iff_suffix.mp hend).length_le
      have hkept : (lead ++ inner).length - 3 = lead.length + (inner.length - 3) := by
        rw [List.length_append]
        omega
      rw [hkept, List.take_length_add_append]
      rfl
  · rfl

/-- Behind what is open the candidates are found by themselves. -/
theorem candidates_append (hlead : IsOpen lead)
    (hindex : ∀ index ∈ config.indexFiles, index.head? ≠ some slash) (inner : Text) :
    candidatesOf config (lead ++ inner) = (candidatesOf config inner).map (lead ++ ·) := by
  have hjoin : ∀ stem : Text, config.indexFiles.map (join (lead ++ stem)) =
      (config.indexFiles.map (join stem)).map (lead ++ ·) := by
    intro stem
    rw [List.map_map]
    exact List.map_congr_left fun index hmem => join_append_of_open hlead (hindex index hmem)
  unfold candidatesOf
  rw [without_compiled_suffix_append hlead]
  cases withoutCompiledSuffix? inner <;> simp [hjoin, Function.comp_def]

/-- What is tried for nothing is what may be added to a path. -/
theorem candidates_nil (hindex : ∀ index ∈ config.indexFiles, index.head? ≠ some slash) :
    candidatesOf config [] = [] :: (config.moduleExtensions ++ config.indexFiles) := by
  have hjoin : config.indexFiles.map (join []) = config.indexFiles := by
    refine (List.map_congr_left fun index hmem => ?_).trans (List.map_id _)
    exact join_of_open (.inl rfl) (hindex index hmem)
  simp [candidatesOf, withoutCompiledSuffix?, Text.endsWith, Text.ofString, hjoin]

/-- What is tried for the name of a file are names of files. -/
theorem exists_names_of_mem_candidates (hplain : config.IsPlain) {name path : Text}
    (hname : IsFileName name) (hstem : ∀ stem ∈ withoutCompiledSuffix? name, IsFileName stem)
    (hpath : path ∈ candidatesOf config name) :
    ∃ names, names ≠ [] ∧ (∀ name ∈ names, IsFileName name) ∧
      path = Text.join [slash] names := by
  have hstems : ∀ stem ∈ name :: (withoutCompiledSuffix? name).toList, IsFileName stem := by
    intro stem hmem
    rcases List.mem_cons.mp hmem with rfl | hmem
    · exact hname
    · exact hstem stem (Option.mem_toList.mp hmem)
  rcases List.mem_append.mp hpath with hpath | hpath
  · rcases List.mem_append.mp hpath with hpath | hpath
    · exact ⟨[path], by simp, by simpa using hstems path hpath, rfl⟩
    · obtain ⟨stem, hmem, hpath⟩ := List.mem_flatMap.mp hpath
      obtain ⟨e, he, rfl⟩ := List.mem_map.mp hpath
      have hextension := hplain e (List.mem_append_left _ he)
      exact ⟨[stem ++ e], by simp, by simpa using (hstems stem hmem).append hextension, rfl⟩
  · obtain ⟨stem, hmem, hpath⟩ := List.mem_flatMap.mp hpath
    obtain ⟨index, hi, rfl⟩ := List.mem_map.mp hpath
    have hindex := hplain index (List.mem_append_right _ hi)
    have hjoin : Text.join [slash] ([stem] ++ [index]) = join stem index :=
      join_names_append (by simpa using (hstems stem hmem).toIsName) (List.cons_ne_nil _ _)
        (by simpa using hindex.toIsName)
    exact ⟨[stem, index], by simp, by simpa using ⟨hstems stem hmem, hindex⟩, hjoin.symm⟩

namespace Program

variable {p : Program} {sources : List SourceFile} {path : Text}

variable {inners : List Text}

/-- A specifier that leads behind the front of all files leads to a file as it does behind any
other. -/
theorem resolve_module_front (hrelative : isRelative specifier) (hlead : IsOpen lead)
    (hbase : normalize (join (directory fromFile) specifier) = lead ++ inner)
    (hindex : ∀ index ∈ p.config.indexFiles, index.head? ≠ some slash)
    (hfiles : ∀ t, (p.file? (lead ++ t)).isSome ↔ t ∈ inners) :
    p.resolveModule fromFile specifier =
      ((candidatesOf p.config inner).find? (· ∈ inners)).map (lead ++ ·) := by
  rw [resolveModule, if_pos hrelative, module_candidates_eq, hbase, candidates_append hlead hindex,
    List.find?_map]
  congr 2
  funext t
  exact Bool.eq_iff_iff.mpr ((hfiles t).trans decide_eq_true_iff.symm)

/-- The paths of files as they are seen from the directory of all of them. -/
def innerPaths (sources : List SourceFile) : List Text :=
  sources.map fun source => Text.join [slash] (innerNames source.fileName)

variable {f : BoundFile} {start : Text}

/-- The files of a program stand behind their root. -/
theorem is_some_file_start (hbelow : ∀ source ∈ sources, Below start source.fileName) (t : Text) :
    ((ofSources config sources).file? (start ++ t)).isSome ↔ t ∈ innerPaths sources := by
  rw [is_some_file_iff, innerPaths, List.mem_map]
  refine exists_congr fun source => and_congr_right fun hmem => ?_
  rw [normalize_below (hbelow source hmem), List.append_cancel_left_eq]

/-- The files of a moved program stand behind the front of their new directory. -/
theorem is_some_file_moved (dir : Text)
    (hbelow : ∀ source ∈ sources, Below start source.fileName) (path : Text) :
    ((ofSources config (sources.map (SourceFile.moved dir))).file? path).isSome ↔
      ∃ t ∈ innerPaths sources, front dir ++ t = path := by
  rw [is_some_file_iff, innerPaths]
  simp only [List.mem_map, exists_exists_and_eq_and]
  refine exists_congr fun source => and_congr_right fun hmem => ?_
  rw [SourceFile.moved, normalize_moved dir (hbelow source hmem)]

/-- Every file of a program is below the root of all of them. -/
theorem below_of_mem (hbelow : ∀ source ∈ sources, Below start source.fileName)
    (hf : f ∈ (ofSources config sources).files) :
    Below start f.path ∧ f.path = start ++ Text.join [slash] (innerNames f.path) := by
  have hfound : ((ofSources config sources).file? f.path).isSome := by rw [file_eq_of_mem hf]; rfl
  obtain ⟨source, hmem, hpath⟩ := is_some_file_iff.mp hfound
  obtain ⟨hnormal, hnames⟩ := below_normalize (hbelow source hmem)
  rw [← hpath]
  exact ⟨hnormal, by rw [hnames, ← normalize_below (hbelow source hmem)]⟩

variable (hbelow : ∀ source ∈ sources, Below start source.fileName)
  (hf : f ∈ (ofSources config sources).files)
  (hindex : ∀ index ∈ config.indexFiles, index.head? ≠ some slash)
  (hrelative : isRelative specifier) (hinside : dotDot ∉ targetNames f.path specifier)

include hbelow

/-- A file of a moved program is found where the file is moved to. -/
theorem normalize_moved_of_mem (dir : Text) {t : Text} (ht : t ∈ innerPaths sources) :
    normalize (moved dir (start ++ t)) = front dir ++ t := by
  obtain ⟨source, hmem, rfl⟩ := List.mem_map.mp ht
  obtain ⟨hnormal, hnames⟩ := below_normalize (hbelow source hmem)
  rw [← normalize_below (hbelow source hmem), normalize_moved dir hnormal, hnames]

include hf hrelative hinside

/-- What a relative specifier leads to in a moved program. -/
theorem normalize_specifier_moved (dir : Text) :
    normalize (join (directory (moved dir f.path)) specifier) =
      assemble (root dir) (outerNames dir ++ targetNames f.path specifier) := by
  obtain ⟨hfile, hpath⟩ := below_of_mem hbelow hf
  exact normalize_specifier dir hfile.names_ne_nil (fun _ => is_name_of_mem_inner_names) hrelative
    (hfile.root_eq ▸ hpath) hinside

/-- What a relative specifier leads to in a program. -/
theorem normalize_specifier_start :
    normalize (join (directory f.path) specifier) =
      assemble start (targetNames f.path specifier) := by
  obtain ⟨hfile, hpath⟩ := below_of_mem hbelow hf
  have hmoved : moved start f.path = f.path := by
    have hhead := head_join_ne fun name (hname : name ∈ innerNames f.path) =>
      is_name_of_mem_inner_names hname
    have hopen : IsOpen start := hfile.root_eq ▸ is_open_root f.path
    calc moved start f.path
        = moved start (root f.path ++ Text.join [slash] (innerNames f.path)) := by
          rw [hfile.root_eq, ← hpath]
      _ = join start (Text.join [slash] (innerNames f.path)) := moved_root f.path hhead
      _ = start ++ Text.join [slash] (innerNames f.path) := join_of_open hopen hhead
      _ = f.path := hpath.symm
  have hstart := normalize_specifier_moved hbelow hf hrelative hinside start
  rwa [hmoved, ← hfile.root_eq, root_root, outer_names_root, List.nil_append, hfile.root_eq]
    at hstart

/-- A specifier that leads below the directory of all files leads to the same file, wherever that
directory is. -/
theorem resolve_module_inner (hindex : ∀ index ∈ config.indexFiles, index.head? ≠ some slash)
    (htarget : targetNames f.path specifier ≠ []) (dir : Text) :
    (ofSources config (sources.map (SourceFile.moved dir))).resolveModule (moved dir f.path)
        specifier =
      ((ofSources config sources).resolveModule f.path specifier).map
        fun path => normalize (moved dir path) := by
  have htargets : ∀ name ∈ targetNames f.path specifier, IsName name :=
    fun _ => is_name_of_mem_target_names
  have hstart : IsOpen start := (below_of_mem hbelow hf).1.root_eq ▸ is_open_root f.path
  have hbaseStart := normalize_specifier_start hbelow hf hrelative hinside
  rw [assemble_of_ne_nil start htarget htargets] at hbaseStart
  have hbaseMoved := normalize_specifier_moved hbelow hf hrelative hinside dir
  rw [assemble_append dir (fun _ => is_name_of_mem_outer_names) htarget htargets,
    join_eq_append _ (head_join_ne htargets)] at hbaseMoved
  have hfiles : ∀ t, ((ofSources config (sources.map (SourceFile.moved dir))).file?
      (front dir ++ t)).isSome ↔ t ∈ innerPaths sources :=
    fun t => (is_some_file_moved dir hbelow _).trans (by simp)
  rw [resolve_module_front hrelative hstart hbaseStart hindex (is_some_file_start hbelow),
    resolve_module_front hrelative (is_open_join_nil _) hbaseMoved hindex hfiles, Option.map_map]
  refine Option.map_congr fun t ht => ?_
  have hmem : t ∈ innerPaths sources := by simpa using List.find?_some ht
  exact (normalize_moved_of_mem hbelow dir hmem).symm

/-! ## The directory of all files -/

omit hf hrelative hinside in
/-- The path of a file, seen from the directory of all files, is split into names. -/
theorem is_name_of_mem_split {t piece : Text} (ht : t ∈ innerPaths sources)
    (hpiece : piece ∈ Text.split slash t) : IsName piece := by
  obtain ⟨source, hmem, rfl⟩ := List.mem_map.mp ht
  have hnames : ∀ name ∈ innerNames source.fileName, IsName name :=
    fun _ => is_name_of_mem_inner_names
  rw [Text.split_join (hbelow source hmem).names_ne_nil fun name h => (hnames name h).slash_not_mem]
    at hpiece
  exact hnames piece hpiece

omit hf hrelative hinside in
/-- Behind a root the files are found that are found from the directory of all files. -/
theorem find_file_start (ts : List Text) :
    (ts.map (start ++ ·)).find? (fun path => ((ofSources config sources).file? path).isSome) =
      (ts.find? (· ∈ innerPaths sources)).map (start ++ ·) := by
  rw [List.find?_map]
  congr 2
  funext t
  exact Bool.eq_iff_iff.mpr ((is_some_file_start hbelow t).trans decide_eq_true_iff.symm)

/-- A specifier for the directory of all files behind a root leads to an index file, or to a file
that has an extension as its name. -/
theorem resolve_module_root (hindex : ∀ index ∈ config.indexFiles, index.head? ≠ some slash)
    (htarget : targetNames f.path specifier = []) (hstart : start ≠ []) :
    (ofSources config sources).resolveModule f.path specifier =
      ((config.moduleExtensions ++ config.indexFiles).map (start ++ ·)).find?
        fun path => ((ofSources config sources).file? path).isSome := by
  have hopen : IsOpen start := (below_of_mem hbelow hf).1.root_eq ▸ is_open_root f.path
  have hbase := normalize_specifier_start hbelow hf hrelative hinside
  have hassemble : assemble start [] = start ++ [] :=
    if_neg (by simpa [Text.join] using hstart)
  rw [htarget, hassemble] at hbase
  have hnil : [] ∉ innerPaths sources := fun h =>
    (is_name_of_mem_split hbelow h (List.mem_singleton_self [])).ne_nil rfl
  rw [resolve_module_front hrelative hopen hbase hindex (is_some_file_start hbelow),
    find_file_start hbelow]
  show ((candidatesOf config []).find? _).map _ = _
  rw [candidates_nil hindex, List.find?_cons_of_neg (by simpa using hnil)]

/-- A specifier for the directory of all files, if there is no root, leads to a file that has a dot
and an extension as its name, and not to an index file. -/
theorem resolve_module_dot (hindex : ∀ index ∈ config.indexFiles, index.head? ≠ some slash)
    (htarget : targetNames f.path specifier = []) (hstart : start = []) :
    (ofSources config sources).resolveModule f.path specifier =
      (config.moduleExtensions.map (dot ++ ·)).find?
        fun path => ((ofSources config sources).file? path).isSome := by
  subst hstart
  have hbase := normalize_specifier_start hbelow hf hrelative hinside
  rw [htarget, show assemble [] [] = dot from rfl] at hbase
  have hfile : ∀ path, ((ofSources config sources).file? path).isSome ↔
      path ∈ innerPaths sources := is_some_file_start hbelow
  have hdot : ¬ ((ofSources config sources).file? dot).isSome := fun h =>
    (is_name_of_mem_split hbelow ((hfile _).mp h) (List.mem_singleton_self dot)).ne_dot rfl
  have hindexes : (config.indexFiles.map (join dot)).find?
      (fun path => ((ofSources config sources).file? path).isSome) = none := by
    refine List.find?_eq_none.mpr fun path hpath h => ?_
    obtain ⟨index, hmem, rfl⟩ := List.mem_map.mp hpath
    have hopen : ¬ IsOpen dot := by
      rintro (hnil | ⟨s, hs⟩)
      · cases hnil
      · exact absurd (congrArg List.getLast? hs) (by simp [dot, slash, Text.ofString])
    have hpiece : dot ∈ Text.split slash (join dot index) := by
      rw [join_of_not_open hopen (hindex index hmem), Text.split_append_cons]
      exact List.mem_append_left _ (List.mem_singleton_self dot)
    exact (is_name_of_mem_split hbelow ((hfile _).mp h) hpiece).ne_dot rfl
  have hcandidates : candidatesOf config dot =
      dot :: (config.moduleExtensions.map (dot ++ ·) ++ config.indexFiles.map (join dot)) := by
    have hsuffix : withoutCompiledSuffix? dot = none := by decide
    simp [candidatesOf, hsuffix]
  rw [resolveModule, if_pos hrelative, module_candidates_eq, hbase]
  show (candidatesOf config dot).find? _ = _
  rw [hcandidates, List.find?_cons_of_neg
    (p := fun path => ((ofSources config sources).file? path).isSome) hdot, List.find?_append,
    hindexes, Option.or_none]

/-- The path of a directory with a name, and no slash behind it. -/
def plainPath (dir : Text) : Text := root dir ++ Text.join [slash] (outerNames dir)

omit hf hrelative hinside in
/-- Only behind a slash there are files in a directory with a name. -/
theorem not_file_of_append {dir stem after t : Text} (hdir : outerNames dir ≠ [])
    (hstem : plainPath dir = stem ++ after) (ht : ∀ inner, t ≠ after ++ slash :: inner) :
    ¬ ((ofSources config (sources.map (SourceFile.moved dir))).file? (stem ++ t)).isSome := by
  intro hfound
  obtain ⟨inner, -, hinner⟩ := (is_some_file_moved dir hbelow _).mp hfound
  have hopen := not_is_open_join (root dir) hdir fun _ => is_name_of_mem_outer_names
  rw [plainPath] at hstem
  rw [front, join_of_not_open hopen (by simp), hstem, List.append_assoc, List.append_assoc,
    List.append_cancel_left_eq] at hinner
  exact ht inner hinner.symm

omit hf hrelative hinside in
/-- With something added that has no slash, a directory with a name is no file. -/
theorem not_file_of_stem {dir stem t : Text} (hdir : outerNames dir ≠ [])
    (hstem : stem ∈ plainPath dir :: (withoutCompiledSuffix? (plainPath dir)).toList)
    (ht : slash ∉ t) :
    ¬ ((ofSources config (sources.map (SourceFile.moved dir))).file? (stem ++ t)).isSome := by
  obtain ⟨after, hafter⟩ : ∃ after, plainPath dir = stem ++ after := by
    rcases List.mem_cons.mp hstem with rfl | hstem
    · exact ⟨[], (List.append_nil _).symm⟩
    · exact ⟨_, eq_append_of_without_compiled_suffix (Option.mem_toList.mp hstem)⟩
  refine not_file_of_append hbelow hdir hafter fun inner => ?_
  rintro rfl
  exact ht (by simp)

omit hf hrelative hinside in
/-- There is no index file in what is left of a directory without the end of its name. -/
theorem not_file_of_index {dir stem index : Text} (hdir : outerNames dir ≠ [])
    (hstem : stem ∈ withoutCompiledSuffix? (plainPath dir)) (hindex : IsName index) :
    ¬ ((ofSources config (sources.map (SourceFile.moved dir))).file? (join stem index)).isSome := by
  by_cases hopen : IsOpen stem
  · rw [join_of_open hopen hindex.head_ne]
    exact not_file_of_stem hbelow hdir (List.mem_cons_of_mem _ (Option.mem_toList.mpr hstem))
      hindex.slash_not_mem
  · rw [join_of_not_open hopen hindex.head_ne]
    refine not_file_of_append hbelow hdir (eq_append_of_without_compiled_suffix hstem) fun inner =>
      ?_
    simp [Text.ofString, slash]

/-- A candidate for the directory of all files behind a root is a normalized path. -/
theorem normalize_candidate_root (hplain : config.IsPlain)
    (htarget : targetNames f.path specifier = []) (hstart : start ≠ []) {path : Text}
    (hpath : path ∈ moduleCandidates config f.path specifier) : normalize path = path := by
  have hroot := (below_of_mem hbelow hf).1.root_eq
  have hindex : ∀ index ∈ config.indexFiles, index.head? ≠ some slash := fun index hmem =>
    (hplain index (List.mem_append_right _ hmem)).head_ne
  have hassemble : assemble start [] = start ++ [] :=
    if_neg (by simpa [Text.join] using hstart)
  rw [module_candidates_eq, normalize_specifier_start hbelow hf hrelative hinside, htarget,
    hassemble, candidates_append (hroot ▸ is_open_root f.path) hindex, candidates_nil hindex]
    at hpath
  obtain ⟨added, hadded, rfl⟩ := List.mem_map.mp hpath
  rcases List.mem_cons.mp hadded with rfl | hadded
  · rw [List.append_nil, ← hroot]
    rcases root_cases f.path with h | h | h <;> rw [h]
    · exact absurd (hroot.symm.trans h) hstart
    · rfl
    · rfl
  · have hnormal := normalize_file_names f.path (List.cons_ne_nil added [])
      (by simpa using hplain added hadded)
    rwa [hroot] at hnormal

/-- A candidate for something with a name is a normalized path, if names are added only to names. -/
theorem normalize_candidate_names (hplain : config.IsPlain)
    (hstem : ∀ name ∈ (targetNames f.path specifier).getLast?,
      ∀ stem ∈ withoutCompiledSuffix? name, IsFileName stem)
    (htarget : targetNames f.path specifier ≠ []) {path : Text}
    (hpath : path ∈ moduleCandidates config f.path specifier) : normalize path = path := by
  have hroot := (below_of_mem hbelow hf).1.root_eq
  have hstart : IsOpen start := hroot ▸ is_open_root f.path
  have hindex : ∀ index ∈ config.indexFiles, index.head? ≠ some slash := fun index hmem =>
    (hplain index (List.mem_append_right _ hmem)).head_ne
  have htargets : ∀ name ∈ targetNames f.path specifier, IsFileName name := fun name hname =>
    ⟨is_name_of_mem_target_names hname, fun heq => hinside (heq ▸ hname)⟩
  obtain ⟨before, name, hlast⟩ : ∃ before name, targetNames f.path specifier = before ++ [name] :=
    ⟨_, _, (List.dropLast_append_getLast htarget).symm⟩
  rw [module_candidates_eq, normalize_specifier_start hbelow hf hrelative hinside] at hpath
  rw [hlast] at hstem htargets hpath
  have hbefore : ∀ other ∈ before, IsFileName other := fun other hmem =>
    htargets other (List.mem_append_left _ hmem)
  have hbeforeNames : ∀ other ∈ before, IsName other := fun other hmem =>
    (hbefore other hmem).toIsName
  -- What is added is added to the last name, behind the others.
  have hbehind : ∀ {names : List Text}, names ≠ [] → (∀ other ∈ names, IsFileName other) →
      start ++ Text.join [slash] (before ++ names) =
        start ++ join (Text.join [slash] before) [] ++ Text.join [slash] names := by
    intro names hne h
    have hnames : ∀ other ∈ names, IsName other := fun other hmem => (h other hmem).toIsName
    rw [join_names_append hbeforeNames hne hnames, join_eq_append _ (head_join_ne hnames),
      List.append_assoc]
  have hname : IsFileName name := htargets name (by simp)
  have hopen : IsOpen (start ++ join (Text.join [slash] before) []) :=
    (is_open_append hstart).mpr (is_open_join_nil _)
  rw [assemble_of_ne_nil start (by simp) fun other hmem => (htargets other hmem).toIsName,
    hbehind (by simp) (by simpa using hname), candidates_append hopen hindex] at hpath
  obtain ⟨inner, hinner, rfl⟩ := List.mem_map.mp hpath
  obtain ⟨names, hne, hnames, rfl⟩ :=
    exists_names_of_mem_candidates hplain hname (hstem name (by simp)) hinner
  rw [← hbehind hne hnames, ← hroot]
  exact normalize_file_names f.path (by simp [hne])
    (by simpa [or_imp, forall_and] using ⟨hbefore, hnames⟩)

/-- Every candidate for a specifier is a normalized path, if names are added only to names. -/
theorem normalize_candidate (hplain : config.IsPlain)
    (hstem : ∀ name ∈ (targetNames f.path specifier).getLast?,
      ∀ stem ∈ withoutCompiledSuffix? name, IsFileName stem)
    (hne : targetNames f.path specifier ≠ [] ∨ start ≠ []) {path : Text}
    (hpath : path ∈ moduleCandidates config f.path specifier) : normalize path = path := by
  by_cases htarget : targetNames f.path specifier = []
  · exact normalize_candidate_root hbelow hf hrelative hinside hplain htarget
      (hne.resolve_left (not_not_intro htarget)) hpath
  · exact normalize_candidate_names hbelow hf hrelative hinside hplain hstem htarget hpath

/-- The first candidate that is a file when it is normalized is found, but for the directory of all
files without a root. -/
theorem resolve_module_eq_normalized (hplain : config.IsPlain)
    (hstem : ∀ name ∈ (targetNames f.path specifier).getLast?,
      ∀ stem ∈ withoutCompiledSuffix? name, IsFileName stem)
    (hne : targetNames f.path specifier ≠ [] ∨ start ≠ []) :
    (ofSources config sources).resolveModule f.path specifier =
      ((moduleCandidates config f.path specifier).map normalize).find? fun path =>
        ((ofSources config sources).file? path).isSome := by
  have hnormal : (moduleCandidates config f.path specifier).map normalize =
      moduleCandidates config f.path specifier :=
    (List.map_congr_left fun path hpath => normalize_candidate hbelow hf hrelative hinside hplain
      hstem hne hpath).trans (List.map_id _)
  rw [hnormal]
  exact if_pos hrelative

/-- A specifier for the directory of all files leads to an index file, if that directory has a
name. -/
theorem resolve_module_directory (hplain : config.IsPlain)
    (htarget : targetNames f.path specifier = []) {dir : Text} (hdir : outerNames dir ≠ []) :
    (ofSources config (sources.map (SourceFile.moved dir))).resolveModule (moved dir f.path)
        specifier =
      ((config.indexFiles.map (start ++ ·)).find? fun path =>
        ((ofSources config sources).file? path).isSome).map
          fun path => normalize (moved dir path) := by
  let base := plainPath dir
  let stems := (withoutCompiledSuffix? base).toList
  let isFile path := ((ofSources config (sources.map (SourceFile.moved dir))).file? path).isSome
  have hbase := normalize_specifier_moved hbelow hf hrelative hinside dir
  rw [htarget, List.append_nil, assemble_of_ne_nil _ hdir fun _ => is_name_of_mem_outer_names]
    at hbase
  have hextension : ∀ e ∈ config.moduleExtensions, slash ∉ e := fun e he =>
    (hplain e (List.mem_append_left _ he)).slash_not_mem
  have hindex : ∀ index ∈ config.indexFiles, IsName index := fun index hmem =>
    (hplain index (List.mem_append_right _ hmem)).toIsName
  have hcandidates : candidatesOf config base =
      (base :: stems ++ (base :: stems).flatMap fun stem => config.moduleExtensions.map (stem ++ ·))
      ++ (config.indexFiles.map (join base)
        ++ stems.flatMap fun stem => config.indexFiles.map (join stem)) := rfl
  have hbefore : (base :: stems ++ (base :: stems).flatMap
      fun stem => config.moduleExtensions.map (stem ++ ·)).find? isFile = none := by
    refine List.find?_eq_none.mpr fun path hpath => ?_
    rcases List.mem_append.mp hpath with hpath | hpath
    · rw [← List.append_nil path]
      exact not_file_of_stem hbelow hdir hpath List.not_mem_nil
    · obtain ⟨stem, hstem, hpath⟩ := List.mem_flatMap.mp hpath
      obtain ⟨e, he, rfl⟩ := List.mem_map.mp hpath
      exact not_file_of_stem hbelow hdir hstem (hextension e he)
  have hbehind : (stems.flatMap fun stem => config.indexFiles.map (join stem)).find? isFile =
      none := by
    refine List.find?_eq_none.mpr fun path hpath => ?_
    obtain ⟨stem, hstem, hpath⟩ := List.mem_flatMap.mp hpath
    obtain ⟨index, hmem, rfl⟩ := List.mem_map.mp hpath
    exact not_file_of_index hbelow hdir (Option.mem_toList.mp hstem) (hindex index hmem)
  have hbetween : (config.indexFiles.map (join base)).find? isFile =
      (config.indexFiles.find? (· ∈ innerPaths sources)).map (front dir ++ ·) := by
    have hfront : config.indexFiles.map (join base) = config.indexFiles.map (front dir ++ ·) :=
      List.map_congr_left fun index hmem => join_eq_append base (hindex index hmem).head_ne
    rw [hfront, List.find?_map]
    congr 2
    funext t
    exact Bool.eq_iff_iff.mpr ((is_some_file_moved dir hbelow _).trans (by simp))
  rw [resolveModule, if_pos hrelative, module_candidates_eq, hbase]
  show (candidatesOf config base).find? isFile = _
  rw [hcandidates, List.find?_append, hbefore, Option.none_or, List.find?_append, hbehind,
    Option.or_none, hbetween, find_file_start hbelow, Option.map_map]
  refine Option.map_congr fun t ht => ?_
  have hmem : t ∈ innerPaths sources := by simpa using List.find?_some ht
  exact (normalize_moved_of_mem hbelow dir hmem).symm

omit hbelow hf hrelative hinside

/-- The files of a program stand below one root, and none of the specifiers that matter climbs out
of it. In another directory a specifier then leads to the same file, if it leads below the directory
of all files. If it leads to that directory itself, an index file is found there only if the
directory has a name or a root. Where it is found, it is the first candidate that is a file when it
is normalized. -/
theorem resolve_module_moved (config : Config) (sources : List SourceFile) (dir specifier : Text)
    (hbelow : ∀ source ∈ sources, Below start source.fileName)
    (hf : f ∈ (ofSources config sources).files)
    (hindex : ∀ index ∈ config.indexFiles, index.head? ≠ some slash)
    (hinside : dotDot ∉ targetNames f.path specifier) :
    let p := ofSources config sources
    let q := ofSources config (sources.map (SourceFile.moved dir))
    let isFile path := (p.file? path).isSome
    let target := targetNames f.path specifier
    (target ≠ [] →
      q.resolveModule (moved dir f.path) specifier =
        (p.resolveModule f.path specifier).map fun path => normalize (moved dir path)) ∧
    (target = [] → isRelative specifier →
      p.resolveModule f.path specifier =
        (if start = [] then config.moduleExtensions.map (dot ++ ·)
          else (config.moduleExtensions ++ config.indexFiles).map (start ++ ·)).find? isFile ∧
      (config.IsPlain → outerNames dir ≠ [] →
        q.resolveModule (moved dir f.path) specifier =
          ((config.indexFiles.map (start ++ ·)).find? isFile).map
            fun path => normalize (moved dir path))) ∧
    (target ≠ [] ∨ start ≠ [] → isRelative specifier → config.IsPlain →
      (∀ name ∈ target.getLast?, ∀ stem ∈ withoutCompiledSuffix? name, IsFileName stem) →
      p.resolveModule f.path specifier =
        ((moduleCandidates config f.path specifier).map normalize).find? isFile) := by
  intro p q isFile target
  refine ⟨fun htarget => ?_, fun htarget hrelative => ⟨?_, fun hplain hdir => ?_⟩,
    fun hne hrelative hplain hstem => ?_⟩
  · by_cases hrelative : isRelative specifier
    · exact resolve_module_inner hbelow hf hrelative hinside hindex htarget dir
    · rw [resolveModule, resolveModule, if_neg hrelative, if_neg hrelative]
      rfl
  · split
    · next hstart => exact resolve_module_dot hbelow hf hrelative hinside hindex htarget hstart
    · next hstart => exact resolve_module_root hbelow hf hrelative hinside hindex htarget hstart
  · exact resolve_module_directory hbelow hf hrelative hinside hplain htarget hdir
  · exact resolve_module_eq_normalized hbelow hf hrelative hinside hplain hstem hne

/-- An index file is found under the name of its directory, also after the program was moved. -/
theorem resolve_module_moved_index :
    let app := Text.ofString "src/app.ts"
    let dir := Text.ofString "home/me"
    let sources : List SourceFile :=
      [{ fileName := app }, { fileName := Text.ofString "src/util/index.ts" }]
    (ofSources {} (sources.map (SourceFile.moved dir))).resolveModule (moved dir app)
        (Text.ofString "./util") = some (Text.ofString "home/me/src/util/index.ts") := by
  intro app dir sources
  have hbelow : ∀ source ∈ sources, Below [] source.fileName :=
    List.forall_mem_cons.mpr ⟨⟨by decide, by decide, by decide⟩,
      List.forall_mem_cons.mpr ⟨⟨by decide, by decide, by decide⟩, by simp⟩⟩
  have hsome : ((ofSources {} sources).file? app).isSome := by decide +kernel
  obtain ⟨f, hfile⟩ := Option.isSome_iff_exists.mp hsome
  have hpath : f.path = app := by simpa using List.find?_some hfile
  have hinside : dotDot ∉ targetNames app (Text.ofString "./util") := by decide +kernel
  have htarget : targetNames app (Text.ofString "./util") ≠ [] := by decide +kernel
  have hmoved := (resolve_module_moved {} sources dir (Text.ofString "./util") hbelow
    (List.mem_of_find?_eq_some hfile) (by decide) (hpath ▸ hinside)).1 (hpath ▸ htarget)
  have hfound : (ofSources {} sources).resolveModule app (Text.ofString "./util") =
      some (Text.ofString "src/util/index.ts") := by decide +kernel
  have hindex : normalize (moved dir (Text.ofString "src/util/index.ts")) =
      Text.ofString "home/me/src/util/index.ts" := by decide +kernel
  rw [hpath, hfound, Option.map_some, hindex] at hmoved
  exact hmoved

/-- In a program without a directory of its own no index file is found for the directory of all
files. In a directory it is found, and its path is that of a candidate. -/
theorem index_file_lost_at_root :
    let sources := ["a.ts", "index.ts"].map fun name =>
      ({ fileName := Text.ofString name } : SourceFile)
    let p := ofSources {} sources
    p.resolveModule (Text.ofString "a.ts") (Text.ofString ".") = none ∧
      ((moduleCandidates {} (Text.ofString "a.ts") (Text.ofString ".")).map normalize).find?
        (fun path => (p.file? path).isSome) = some (Text.ofString "index.ts") ∧
      (ofSources {} (sources.map (SourceFile.moved (Text.ofString "d")))).resolveModule
        (Text.ofString "d/a.ts") (Text.ofString ".") = some (Text.ofString "d/index.ts") := by
  decide +kernel

end Program

end StaticLiteral
