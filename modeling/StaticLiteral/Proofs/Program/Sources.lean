import Mathlib.Data.List.Find
import StaticLiteral.Proofs.Program.Identity

/-!
# The files of a program

A program holds its files under their normalized names. If files are changed one by one and keep
their normalized names, the program holds the changed files where it held the files: `file_map`.
-/

namespace StaticLiteral

namespace SourceFile

/-- The file bound under its normalized name. -/
def bound (source : SourceFile) : BoundFile :=
  BoundFile.ofSource (Path.normalize source.fileName) source

variable {source : SourceFile}

/-- Where the statements of the file are bound. -/
def site (source : SourceFile) : Site := BoundFile.site source.bound.path source

/-- The tree of a file is laid out. -/
theorem laid_bound (source : SourceFile) : source.bound.root.Laid := BoundFile.laid_root _ _

/-- A file that is not too deep has the facts of its tree, with the symbols settled. -/
theorem facts_eq (h : source.bound.isTooDeep = false) :
    source.bound.facts =
      BoundFile.settled source.bound.path (Binding.ofNode source.site source.bound.root) :=
  if_neg (of_decide_eq_false h)

end SourceFile

/-- An entry is one that was there before, or the new one. -/
theorem mem_put_entry {α : Type} {key : Text} {value : α} {entries : List (Text × α)}
    {entry : Text × α} (h : entry ∈ putEntry key value entries) :
    entry = (key, value) ∨ entry ∈ entries := by
  induction entries with
  | nil => simpa [putEntry] using h
  | cons first rest ih =>
      obtain ⟨k, v⟩ := first
      unfold putEntry at h
      split at h
      · next hkey =>
          rcases List.mem_cons.mp h with rfl | h
          · exact .inl (by rw [hkey])
          · exact .inr (List.mem_cons_of_mem _ h)
      · rcases List.mem_cons.mp h with rfl | h
        · exact .inr List.mem_cons_self
        · exact (ih h).imp_right (List.mem_cons_of_mem _)

/-- Values may be changed before or after they are put into a table. -/
theorem put_entry_map {α β : Type} (f : α → β) (key : Text) (value : α)
    (entries : List (Text × α)) :
    putEntry key (f value) (entries.map fun entry => (entry.1, f entry.2)) =
      (putEntry key value entries).map fun entry => (entry.1, f entry.2) := by
  induction entries with
  | nil => rfl
  | cons first rest ih =>
      obtain ⟨k, v⟩ := first
      simp only [putEntry, List.map_cons]
      split <;> simp [ih]

namespace Program

variable {config : Config} {sources : List SourceFile} {f : BoundFile}

/-- The files of a program under their normalized names. -/
def table (sources : List SourceFile) : List (Text × SourceFile) :=
  sources.foldl (fun table f => putEntry (Path.normalize f.fileName) f table) []

/-- Every file stands under its normalized name. -/
theorem fst_of_mem_table {entry : Text × SourceFile} (h : entry ∈ table sources) :
    entry.1 = Path.normalize entry.2.fileName := by
  have hfold : ∀ (sources : List SourceFile) (rows : List (Text × SourceFile)),
      (∀ row ∈ rows, row.1 = Path.normalize row.2.fileName) →
      ∀ row ∈ sources.foldl (fun table f => putEntry (Path.normalize f.fileName) f table) rows,
        row.1 = Path.normalize row.2.fileName := by
    intro sources
    induction sources with
    | nil => exact fun rows h => h
    | cons f rest ih =>
        intro rows hrows
        refine ih _ fun row hrow => ?_
        rcases mem_put_entry hrow with rfl | hrow
        · rfl
        · exact hrows row hrow
  exact hfold sources [] (by simp) entry h

variable {change : SourceFile → SourceFile}

/-- Files that keep their normalized names are changed one by one. -/
theorem table_map
    (hname : ∀ source, Path.normalize (change source).fileName = Path.normalize source.fileName)
    (sources : List SourceFile) :
    table (sources.map change) = (table sources).map fun entry => (entry.1, change entry.2) := by
  have hfold : ∀ rows : List (Text × SourceFile),
      (sources.map change).foldl
          (fun table f => putEntry (Path.normalize f.fileName) f table)
          (rows.map fun entry => (entry.1, change entry.2)) =
        (sources.foldl (fun table f => putEntry (Path.normalize f.fileName) f table) rows).map
          fun entry => (entry.1, change entry.2) := by
    induction sources with
    | nil => exact fun rows => rfl
    | cons f rest ih =>
        intro rows
        rw [List.map_cons, List.foldl_cons, List.foldl_cons, ← ih, ← put_entry_map, hname]
  exact hfold []

/-- A file of a program is bound under its normalized name. -/
theorem exists_source (hf : f ∈ (ofSources config sources).files) :
    ∃ source : SourceFile, f = source.bound := by
  obtain ⟨⟨path, source⟩, hentry, rfl⟩ := List.mem_map.mp hf
  obtain rfl : path = Path.normalize source.fileName := fst_of_mem_table hentry
  exact ⟨source, rfl⟩

/-- A file is found under its path if no other file has the same path. -/
theorem file_eq_of_nodup {p : Program} (hnodup : (p.files.map (·.path)).Nodup) (hf : f ∈ p.files) :
    p.file? f.path = some f := by
  unfold file?
  cases hfind : p.files.find? (·.path = f.path) with
  | none => simpa using List.find?_eq_none.mp hfind f hf
  | some g =>
      have hpath : g.path = f.path := by simpa using List.find?_some hfind
      rw [List.inj_on_of_nodup_map hnodup (List.mem_of_find?_eq_some hfind) hf hpath]

/-- A file of a program is found under its path. -/
theorem file_eq_of_mem (hf : f ∈ (ofSources config sources).files) :
    (ofSources config sources).file? f.path = some f :=
  file_eq_of_nodup (files_of_sources config sources).2 hf

/-- The files of a program stand under the normalized names of its sources. -/
theorem mem_keys_table_iff {path : Text} :
    path ∈ (table sources).map (·.1) ↔
      ∃ source ∈ sources, Path.normalize source.fileName = path := by
  have hfold : ∀ (sources : List SourceFile) (rows : List (Text × SourceFile)),
      path ∈ (sources.foldl
        (fun table f => putEntry (Path.normalize f.fileName) f table) rows).map (·.1) ↔
      path ∈ rows.map (·.1) ∨ ∃ source ∈ sources, Path.normalize source.fileName = path := by
    intro sources
    induction sources with
    | nil => simp
    | cons source rest ih =>
        intro rows
        rw [List.foldl_cons, ih, mem_keys_put_entry_iff]
        simp only [List.mem_cons, exists_eq_or_imp, eq_comm (a := path)]
        tauto
  exact (hfold sources []).trans (by simp)

/-- The files of a program are found under the normalized names of its sources. -/
theorem is_some_file_iff {path : Text} : ((ofSources config sources).file? path).isSome ↔
    ∃ source ∈ sources, Path.normalize source.fileName = path := by
  rw [← mem_keys_table_iff, file?, List.find?_isSome]
  constructor
  · rintro ⟨f, hf, hpath⟩
    obtain ⟨entry, hentry, rfl⟩ := List.mem_map.mp hf
    exact List.mem_map.mpr ⟨entry, hentry, of_decide_eq_true hpath⟩
  · intro h
    obtain ⟨entry, hentry, rfl⟩ := List.mem_map.mp h
    exact ⟨_, List.mem_map.mpr ⟨entry, hentry, rfl⟩, decide_eq_true rfl⟩

/-- Nodes with the same identity stand in the same file. -/
theorem file_eq_of_id_eq {g : BoundFile} {n m : Node} (hf : f ∈ (ofSources config sources).files)
    (hg : g ∈ (ofSources config sources).files) (hn : n ∈ f.root.parts) (hm : m ∈ g.root.parts)
    (hid : n.id = m.id) : f = g := by
  have hpath : f.path = g.path := by
    obtain ⟨source, rfl⟩ := exists_source hf
    obtain ⟨other, rfl⟩ := exists_source hg
    exact ((source.laid_bound.encloses hn).1.trans (congrArg NodeId.file hid)).trans
      (other.laid_bound.encloses hm).1.symm
  exact Option.some.inj ((file_eq_of_mem hf).symm.trans (hpath ▸ file_eq_of_mem hg))

/-- A program of changed files holds the changed files. -/
theorem files_map
    (hname : ∀ source, Path.normalize (change source).fileName = Path.normalize source.fileName) :
    (ofSources config (sources.map change)).files =
      (ofSources config sources).files.map fun f => (change f.source).bound := by
  show (table (sources.map change)).map _ = ((table sources).map _).map _
  rw [table_map hname, List.map_map, List.map_map]
  refine List.map_congr_left fun entry hentry => ?_
  simp only [Function.comp_apply, SourceFile.bound, fst_of_mem_table hentry, BoundFile.ofSource,
    hname]

/-- A changed file is found where the file was found. -/
theorem file_map
    (hname : ∀ source, Path.normalize (change source).fileName = Path.normalize source.fileName)
    (path : Text) :
    (ofSources config (sources.map change)).file? path =
      ((ofSources config sources).file? path).map fun f => (change f.source).bound := by
  have hpath : ∀ f ∈ (ofSources config sources).files,
      ((change f.source).bound.path = path ↔ f.path = path) := by
    intro f hf
    obtain ⟨source, rfl⟩ := exists_source hf
    simp only [SourceFile.bound, BoundFile.ofSource, hname]
  rw [file?, file?, files_map hname, List.find?_map]
  congr 1
  exact List.find?_congr fun f hf => decide_eq_decide.mpr (hpath f hf)

end Program

end StaticLiteral
