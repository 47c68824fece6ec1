import StaticLiteral.Proofs.Binding.Exports
import StaticLiteral.Proofs.Binding.Origins
import StaticLiteral.Proofs.Paths
import StaticLiteral.Proofs.Program.Reexports
import StaticLiteral.Proofs.Program.SharedScopes
import StaticLiteral.Proofs.Resolution.Correspondence

/-!
# The files of a program

Files meet only where a specifier in one of them leads to another. `files_are_isolated` compares the
programs of two lists of files, one of which has the files of the other one in some order, and
further files that no specifier in the others may mean: every node of the smaller program has the
same value, symbol and type in both.
-/

namespace StaticLiteral

namespace BoundFile

open Binding

variable {path : Text} {source : SourceFile} {fact : Fact}

/-- A module whose exports a file exports again is named by a node of the file. -/
theorem exists_specifier_of_reexport {specifier : Text}
    (h : fact ∈ (ofSource path source).facts) (hreexport : fact.reexport? = some specifier) :
    ∃ part ∈ (ofSource path source).root.parts, part.moduleSpecifier? = some specifier := by
  obtain ⟨visible, hsettled⟩ := exists_settled path source
  obtain ⟨origin, horigin, rfl⟩ := hsettled fact h
  cases origin with
  | reexports star =>
      obtain rfl := Option.some.inj hreexport
      obtain ⟨_, part, hvisits, _, i, specifiers, rfl⟩ := exists_star_of_reexports horigin
      exact ⟨_, hvisits.mem_parts, rfl⟩
  | _ => cases hreexport

/-- An alias of a file points from the file, under its name or its path; a module that it names is
named by a node of the file. -/
theorem origin_of_alias {s : BoundSymbol} {origin : AliasOrigin}
    (h : fact ∈ (ofSource path source).facts) (hs : fact.symbol? = some s)
    (hkind : s.kind = .aliasOf origin) :
    (∃ name ∈ [source.fileName, path], origin.sourceFile = some name) ∧
      ∀ module, origin.module = some module →
        ∃ part ∈ (ofSource path source).root.parts, part.moduleSpecifier? = some module := by
  obtain ⟨visible, hsettled⟩ := exists_settled path source
  obtain ⟨bound, hbound, rfl⟩ := hsettled fact h
  rw [symbol_map_symbol] at hs
  obtain ⟨t, ht, rfl⟩ := Option.map_eq_some_iff.mp hs
  unfold settle at hkind
  split at hkind
  · next before hbefore =>
      obtain ⟨hfile, hmodule⟩ := origin_of_mem hbound ht hbefore
      split at hkind
      · obtain rfl := SymbolKind.aliasOf.inj hkind
        exact ⟨⟨path, by simp, rfl⟩, hmodule⟩
      · obtain rfl := SymbolKind.aliasOf.inj (hbefore.symm.trans hkind)
        exact ⟨⟨source.fileName, by simp, hfile⟩, hmodule⟩
  · next hnone => exact absurd hkind (hnone origin)

end BoundFile

namespace Program

variable {config : Config} {sources : List SourceFile}

/-! ## Files under different paths -/

/-- The paths of the files are all different once they are normalized. -/
def PathsDiffer (sources : List SourceFile) : Prop :=
  (sources.map fun source => Path.normalize source.fileName).Nodup

instance (sources : List SourceFile) : Decidable (PathsDiffer sources) :=
  inferInstanceAs (Decidable (List.Nodup _))

/-- An entry under a new key stands behind the others. -/
theorem put_entry_of_not_mem {α : Type} {key : Text} {value : α} {entries : List (Text × α)}
    (h : key ∉ entries.map (·.1)) : putEntry key value entries = entries ++ [(key, value)] := by
  induction entries with
  | nil => rfl
  | cons entry rest ih =>
      obtain ⟨hne, hrest⟩ := not_or.mp (List.mem_cons.not.mp h)
      obtain ⟨k, v⟩ := entry
      rw [putEntry, if_neg (Ne.symm hne), ih hrest]
      rfl

/-- Files under different paths are all bound, in their order. -/
theorem files_of_paths_differ (config : Config) (h : PathsDiffer sources) :
    (ofSources config sources).files = sources.map SourceFile.bound := by
  have hfold : ∀ (sources : List SourceFile) (rows : List (Text × SourceFile)),
      (rows.map (·.1) ++ sources.map fun source => Path.normalize source.fileName).Nodup →
      sources.foldl (fun table f => putEntry (Path.normalize f.fileName) f table) rows =
        rows ++ sources.map fun source => (Path.normalize source.fileName, source) := by
    intro sources
    induction sources with
    | nil => exact fun rows _ => (List.append_nil rows).symm
    | cons source rest ih =>
        intro rows hnodup
        have hnew : Path.normalize source.fileName ∉ rows.map (·.1) := fun hmem =>
          (List.nodup_append.mp hnodup).2.2 _ hmem _ (by simp) rfl
        rw [List.foldl_cons, put_entry_of_not_mem hnew, ih]
        · simp
        · simpa using hnodup
  show (table sources).map _ = _
  rw [table, hfold sources [] (by simpa [PathsDiffer] using h), List.nil_append, List.map_map]
  rfl

/-- A file is found under its path. -/
theorem file_eq_some_iff {path : Text} {f : BoundFile} :
    (ofSources config sources).file? path = some f ↔
      f ∈ (ofSources config sources).files ∧ f.path = path := by
  constructor
  · intro h
    exact ⟨List.mem_of_find?_eq_some h, by simpa using List.find?_some h⟩
  · rintro ⟨hf, rfl⟩
    exact file_eq_of_mem hf

/-- A specifier leads to a file of the program. -/
theorem exists_file_of_resolve {origin specifier path : Text}
    (h : (ofSources config sources).resolveModule origin specifier = some path) :
    ∃ f ∈ (ofSources config sources).files, f.path = path := by
  unfold resolveModule at h
  split at h
  · have hfound := List.find?_some h
    obtain ⟨f, hf⟩ := Option.isSome_iff_exists.mp hfound
    exact ⟨f, file_eq_some_iff.mp hf⟩
  · cases h

/-! ## More files -/

/-- A program has the files of another one, and further ones that are not met from there: under no
path that a specifier of the smaller program may mean, seen from a file under its name or its path,
is there a file that was not there before. -/
structure Extends (p q : Program) : Prop where
  config : q.config = p.config
  file : ∀ f ∈ p.files, q.file? f.path = p.file? f.path
  module : ∀ f ∈ p.files, ∀ part ∈ f.root.parts, ∀ specifier,
    part.moduleSpecifier? = some specifier → Path.isRelative specifier →
    ∀ origin ∈ [f.source.fileName, f.path],
    ∀ path ∈ moduleCandidates p.config origin specifier, q.file? path = p.file? path
  named : ∀ f ∈ p.files, q.file? f.source.fileName = p.file? f.source.fileName

namespace Extends

variable {q : Program} {f : BoundFile} {n : Node} {s : BoundSymbol} {path name : Text}
  (h : (ofSources config sources).Extends q)
include h

/-- A file has the facts that it had. -/
theorem facts_eq (hf : f ∈ (ofSources config sources).files) :
    q.factsOf f.path = (ofSources config sources).factsOf f.path := by
  rw [factsOf, h.file f hf, factsOf]

/-- The facts about a node are those that there were. -/
theorem facts_of_node_eq (hn : (ofSources config sources).Placed n) :
    q.factsOf n.id.file = (ofSources config sources).factsOf n.id.file := by
  obtain ⟨f, hf, hn⟩ := hn
  have hpath : n.id.file = f.path := by
    obtain ⟨path, source, rfl⟩ := (files_of_sources config sources).1 f hf
    exact ((BoundFile.laid_root path source).encloses hn).1.symm
  rw [hpath, h.facts_eq hf]

/-- A name is looked up as what it was. -/
theorem lookup_eq (hn : (ofSources config sources).Placed n) (space : Space) (name : Text) :
    q.lookup? space name n = (ofSources config sources).lookup? space name n := by
  have hscope : q.scopeOf? n = (ofSources config sources).scopeOf? n := by
    rw [scopeOf?, h.facts_of_node_eq hn, scopeOf?]
  rw [lookup?, hscope, lookup?]
  cases hrecorded : (ofSources config sources).scopeOf? n with
  | none => rfl
  | some recorded =>
      obtain ⟨f, hf, hn⟩ := hn
      have hframes := frames_of_scope hf hn hrecorded
      refine find_some_congr fun frame hframe => ?_
      rcases hframes frame hframe with hglobal | hown
      · rw [hglobal]
        rfl
      · rw [declared_of_is_of hown, declared_of_is_of hown, h.facts_eq hf]

/-- A node has the symbol that it had. -/
theorem symbol_at_eq (hn : (ofSources config sources).Placed n) :
    q.symbolAt? n = (ofSources config sources).symbolAt? n := by
  simp only [symbolAt?, h.facts_of_node_eq hn, h.lookup_eq hn]

/-- A literal has the symbol that it had. -/
theorem literal_symbol_eq (hn : (ofSources config sources).Placed n) :
    q.literalSymbol? n = (ofSources config sources).literalSymbol? n := by
  rw [literalSymbol?, h.facts_of_node_eq hn, literalSymbol?]

/-! ### Modules and exports -/

/-- A specifier means the file that it meant. -/
theorem resolve_module_eq (hf : f ∈ (ofSources config sources).files) {part : Node}
    (hpart : part ∈ f.root.parts) {specifier : Text}
    (hspecifier : part.moduleSpecifier? = some specifier) {origin : Text}
    (horigin : origin ∈ [f.source.fileName, f.path]) :
    q.resolveModule origin specifier =
      (ofSources config sources).resolveModule origin specifier := by
  rw [resolveModule, resolveModule, h.config]
  split
  · next hrelative =>
      refine List.find?_congr fun path hpath => ?_
      rw [h.module f hf part hpart specifier hspecifier hrelative origin horigin path hpath]
  · rfl

/-- A file exports again the files that it did. -/
theorem reexported_eq (hf : f ∈ (ofSources config sources).files) :
    q.reexported f.path = (ofSources config sources).reexported f.path := by
  rw [reexported, h.facts_eq hf, reexported]
  refine List.filterMap_congr fun specifier hspecifier => ?_
  obtain ⟨fact, hfact, hreexport⟩ := List.mem_filterMap.mp hspecifier
  rw [factsOf, file_eq_of_mem hf] at hfact
  have hnode : ∃ part ∈ f.root.parts, part.moduleSpecifier? = some specifier := by
    obtain ⟨path, source, rfl⟩ := (files_of_sources config sources).1 f hf
    exact BoundFile.exists_specifier_of_reexport hfact hreexport
  obtain ⟨part, hpart, hspecifier⟩ := hnode
  exact h.resolve_module_eq hf hpart hspecifier (by simp)

/-- From files that there were, files are met in the order in which they were, and no others. -/
theorem preorder {visited starts order : List Text}
    (horder : (ofSources config sources).Preorder visited starts order)
    (hstarts : starts ⊆ (ofSources config sources).files.map (·.path)) :
    q.Preorder visited starts order ∧ order ⊆ (ofSources config sources).files.map (·.path) := by
  induction horder with
  | done visited => exact ⟨.done visited, List.nil_subset _⟩
  | skip hvisited _ ih =>
      obtain ⟨hrest, hsub⟩ := ih (List.cons_subset.mp hstarts).2
      exact ⟨.skip hvisited hrest, hsub⟩
  | @enter visited starts below after path hnew inside _ ihinside ihrest =>
      obtain ⟨hpath, hothers⟩ := List.cons_subset.mp hstarts
      obtain ⟨f, hf, rfl⟩ := List.mem_map.mp hpath
      obtain ⟨hinside, hbelow⟩ := ihinside fun next hnext => reexported_is_file hnext
      obtain ⟨hrest, hafter⟩ := ihrest hothers
      rw [← h.reexported_eq hf] at hinside
      refine ⟨.enter hnew hinside hrest, ?_⟩
      exact List.append_subset.mpr ⟨List.cons_subset.mpr ⟨hpath, hbelow⟩, hafter⟩

/-- A file exports under a name what it did. -/
theorem export_eq (hf : f ∈ (ofSources config sources).files) (name : Text) :
    q.export? f.path name = (ofSources config sources).export? f.path name := by
  have hown : ∀ g ∈ (ofSources config sources).files,
      q.ownExport? g.path name = (ofSources config sources).ownExport? g.path name :=
    fun g hg => by rw [ownExport?, h.facts_eq hg, ownExport?]
  rw [export?, export?]
  split
  · exact hown f hf
  · have hpath : [f.path] ⊆ (ofSources config sources).files.map (·.path) := by
      simpa using ⟨f, hf, rfl⟩
    obtain ⟨horder, hfiles⟩ := h.preorder (preorder_export_sources _ f.path) hpath
    rw [(preorder_export_sources q f.path).unique horder]
    refine find_some_congr fun file hfile => ?_
    obtain ⟨g, hg, rfl⟩ := List.mem_map.mp (hfiles hfile)
    exact hown g hg

/-! ### Aliases -/

/-- A name of a file is what it was. -/
theorem local_eq (hf : f ∈ (ofSources config sources).files) {origin : Text}
    (horigin : origin ∈ [f.source.fileName, f.path]) (name : Text) :
    q.local? origin name = (ofSources config sources).local? origin name := by
  have hfile : q.file? origin = (ofSources config sources).file? origin := by
    simp only [List.mem_cons, List.not_mem_nil, or_false] at horigin
    rcases horigin with rfl | rfl
    · exact h.named f hf
    · exact h.file f hf
  simp only [local?, declared?, factsOf, hfile]

/-- An alias of a file leads to what it led to. -/
theorem target_eq (hf : f ∈ (ofSources config sources).files) {fact : Fact} (hfact : fact ∈ f.facts)
    (hs : fact.symbol? = some s) {origin : AliasOrigin} (hkind : s.kind = .aliasOf origin) :
    q.target? origin = (ofSources config sources).target? origin := by
  have horigin : (∃ name ∈ [f.source.fileName, f.path], origin.sourceFile = some name) ∧
      ∀ module, origin.module = some module →
        ∃ part ∈ f.root.parts, part.moduleSpecifier? = some module := by
    obtain ⟨path, source, rfl⟩ := (files_of_sources config sources).1 f hf
    exact BoundFile.origin_of_alias hfact hs hkind
  obtain ⟨⟨file, hfile, hsource⟩, hmodule⟩ := horigin
  simp only [target?, hsource, Option.getD_some]
  cases hspecifier : origin.module with
  | none =>
      cases origin.importName with
      | none => rfl
      | some name => exact h.local_eq hf hfile name
  | some specifier =>
      obtain ⟨part, hpart, hnamed⟩ := hmodule specifier hspecifier
      dsimp only
      rw [h.resolve_module_eq hf hpart hnamed hfile]
      cases hpath : (ofSources config sources).resolveModule file specifier with
      | none => rfl
      | some path =>
          obtain ⟨g, hg, rfl⟩ := exists_file_of_resolve hpath
          cases origin.importName with
          | none => exact congrArg (Option.map BoundFile.moduleSymbol) (h.file g hg)
          | some name => exact h.export_eq hg name

/-- What stands behind a symbol of the smaller program stood behind it there. -/
theorem aliased_eq (hs : s ∈ (ofSources config sources).symbols) :
    q.aliased s = (ofSources config sources).aliased s := by
  rw [aliased, aliased]
  cases hkind : s.kind with
  | aliasOf origin =>
      rcases mem_symbols_cases hs with
        ⟨f, hf, fact, hfact, hsymbol, _⟩ | ⟨name, rfl⟩ | ⟨f, hf, rfl⟩ | rfl
      · exact congrArg (Option.getD · unknownSymbol) (h.target_eq hf hfact hsymbol hkind)
      all_goals cases hkind
  | _ => rfl

/-- The larger program corresponds to the smaller one, on the nodes and symbols of that. -/
theorem matches_self : (ofSources config sources).Matches q
    (fun n m => n = m ∧ (ofSources config sources).Placed n)
    (fun s t => s = t ∧ s ∈ (ofSources config sources).symbols) where
  similar := by
    rintro n _ ⟨rfl, hn⟩
    exact .refl fun c hc => ⟨rfl, hn.of_mem_children (n.operands_subset_children hc)⟩
  id := by
    rintro s _ ⟨rfl, _⟩
    rfl
  name := by
    rintro s _ ⟨rfl, _⟩
    rfl
  kind := by
    rintro s _ ⟨rfl, _⟩
    rfl
  isConst := by
    rintro s _ ⟨rfl, _⟩
    rfl
  characterNames := congrArg Config.characterNames h.config
  declaration := by
    rintro s _ ⟨rfl, hs⟩
    exact rel_self fun d hd => ⟨rfl, placed_of_symbol hs hd⟩
  symbolAt := by
    rintro n _ ⟨rfl, hn⟩
    rw [h.symbol_at_eq hn]
    exact rel_self fun s hs => ⟨rfl, symbol_at_mem_symbols hs⟩
  lookup := by
    rintro n _ ⟨rfl, hn⟩ space name _
    rw [h.lookup_eq hn]
    exact rel_self fun s hs => ⟨rfl, lookup_mem_symbols hs⟩
  literalSymbol := by
    rintro n _ ⟨rfl, hn⟩
    rw [h.literal_symbol_eq hn]
    exact rel_self fun s hs => ⟨rfl, literal_mem_symbols hs⟩
  aliased := by
    rintro s _ ⟨rfl, hs⟩
    exact ⟨(h.aliased_eq hs).symm, aliased_mem_symbols hs⟩

/-- Nodes of the smaller program have the types that they had. -/
theorem types_eq (hn : (ofSources config sources).Placed n) :
    q.typeOfExpression n = (ofSources config sources).typeOfExpression n ∧
      typeOfAnnotation q n = typeOfAnnotation (ofSources config sources) n := by
  have hsame : ∀ {a b : TypeAnswer}, Parallel (Ty.Related fun s t =>
      s = t ∧ s ∈ (ofSources config sources).symbols) a b → b = a := fun hparallel =>
    hparallel.eq_of_imp fun t u htu => htu.eq_of_same fun _ _ hst => hst.1
  have htypes := Typing.parallels h.matches_self true Typing.depthLimit
  exact ⟨hsame (htypes.expression ⟨rfl, hn⟩ [] false), hsame (htypes.annotation ⟨rfl, hn⟩ [])⟩

/-- Symbols of the smaller program have the types that they had. -/
theorem type_of_eq (hs : s ∈ (ofSources config sources).symbols) :
    q.typeOf s = (ofSources config sources).typeOf s := by
  have htypes := Typing.parallels h.matches_self true Typing.depthLimit
  exact (htypes.symbol ⟨rfl, hs⟩ []).eq_of_imp fun t u htu => htu.eq_of_same fun _ _ hst => hst.1

end Extends

/-- No specifier in the first file, seen from the file under its name or its path, may mean the
second file. -/
def Unmet (config : Config) (source added : SourceFile) : Prop :=
  ∀ part ∈ source.bound.root.parts, ∀ specifier, part.moduleSpecifier? = some specifier →
    Path.isRelative specifier → ∀ origin ∈ [source.fileName, source.bound.path],
      added.bound.path ∉ moduleCandidates config origin specifier

/-- Specifiers that cannot mean a file can be told from all specifiers that occur. -/
theorem unmet_iff {source added : SourceFile} : Unmet config source added ↔
    ∀ specifier ∈ source.bound.root.parts.filterMap Node.moduleSpecifier?,
      Path.isRelative specifier → ∀ origin ∈ [source.fileName, source.bound.path],
        added.bound.path ∉ moduleCandidates config origin specifier := by
  constructor
  · intro h specifier hspecifier
    obtain ⟨part, hpart, hspecifier⟩ := List.mem_filterMap.mp hspecifier
    exact h part hpart specifier hspecifier
  · intro h part hpart specifier hspecifier
    exact h specifier (List.mem_filterMap.mpr ⟨part, hpart, hspecifier⟩)

instance (config : Config) (source added : SourceFile) : Decidable (Unmet config source added) :=
  decidable_of_iff (∀ specifier ∈ source.bound.root.parts.filterMap Node.moduleSpecifier?,
    Path.isRelative specifier → ∀ origin ∈ [source.fileName, source.bound.path],
      (moduleCandidates config origin specifier).contains added.bound.path = false)
    (by simp only [unmet_iff, List.contains_eq_mem, decide_eq_false_iff_not])

/-- A program with the files of another one in any order, and with further files that no specifier
there may mean, extends it. -/
theorem extends_of_perm {added others : List SourceFile} (hdiffer : PathsDiffer others)
    (hperm : others.Perm (added ++ sources))
    (hunmet : ∀ source ∈ sources, ∀ file ∈ added, Unmet config source file) :
    (ofSources config sources).Extends (ofSources config others) := by
  have hall : PathsDiffer (added ++ sources) := (hperm.map _).nodup_iff.mp hdiffer
  have hsources : PathsDiffer sources := by
    refine List.Nodup.sublist ?_ hall
    rw [List.map_append]
    exact List.sublist_append_right _ _
  -- Where no file was added, both programs have the same file.
  have hsame : ∀ path, (∀ file ∈ added, file.bound.path ≠ path) →
      (ofSources config others).file? path = (ofSources config sources).file? path := by
    intro path hpath
    refine Option.ext fun f => ?_
    rw [file_eq_some_iff, file_eq_some_iff, files_of_paths_differ config hdiffer,
      files_of_paths_differ config hsources, (hperm.map _).mem_iff, List.map_append,
      List.mem_append]
    constructor
    · rintro ⟨hadded | hf, hf'⟩
      · obtain ⟨file, hfile, rfl⟩ := List.mem_map.mp hadded
        exact absurd hf' (hpath file hfile)
      · exact ⟨hf, hf'⟩
    · rintro ⟨hf, hf'⟩
      exact ⟨.inr hf, hf'⟩
  have hapart : ∀ source ∈ sources, ∀ file ∈ added, file.bound.path ≠ source.bound.path := by
    intro source hsource file hfile
    rw [PathsDiffer, List.map_append] at hall
    exact (List.nodup_append.mp hall).2.2 _ (List.mem_map_of_mem hfile) _
      (List.mem_map_of_mem hsource)
  have hbound : ∀ f ∈ (ofSources config sources).files, ∃ source ∈ sources, source.bound = f := by
    intro f hf
    rw [files_of_paths_differ config hsources] at hf
    exact List.mem_map.mp hf
  constructor
  case config => rfl
  case file =>
    intro f hf
    obtain ⟨source, hsource, rfl⟩ := hbound f hf
    exact hsame _ fun file hfile => hapart source hsource file hfile
  case module =>
    intro f hf part hpart specifier hspecifier hrelative origin horigin path hpath
    obtain ⟨source, hsource, rfl⟩ := hbound f hf
    refine hsame path fun file hfile heq => ?_
    exact hunmet source hsource file hfile part hpart specifier hspecifier hrelative origin horigin
      (heq ▸ hpath)
  case named =>
    intro f hf
    obtain ⟨source, hsource, rfl⟩ := hbound f hf
    refine hsame _ fun file hfile heq => ?_
    -- A name that is a path of some file is its own path.
    have hpath : source.bound.path = source.fileName := by
      have hnormal := Path.normalize_normalize file.fileName
      rwa [show Path.normalize file.fileName = source.fileName from heq] at hnormal
    exact hapart source hsource file hfile (heq.trans hpath.symm)

/-- Files are isolated from each other, and their order does not matter. Take the files of a program
in any order, and further files that no specifier in them may mean: every node has the value, the
symbol and the types that it had, and every symbol has the type that it had. A name is looked up in
a file as a symbol that this file declares, or as a name that every file can use; it makes no
difference if all declarations stand in one table, and of the scope that all files share this table
holds the names that every file can use and nothing else. -/
theorem files_are_isolated (config : Config) {added others : List SourceFile}
    (hdiffer : PathsDiffer others) (hperm : others.Perm (added ++ sources))
    (hunmet : ∀ source ∈ sources, ∀ file ∈ added, Unmet config source file) :
    let p := ofSources config sources
    let q := ofSources config others
    (∀ n, p.Placed n → q.Placed n ∧ q.resolve n = p.resolve n ∧ q.symbolAt? n = p.symbolAt? n ∧
      q.typeOfExpression n = p.typeOfExpression n ∧ typeOfAnnotation q n = typeOfAnnotation p n) ∧
    (∀ s ∈ p.symbols, s ∈ q.symbols ∧ q.typeOf s = p.typeOf s) ∧
    (∀ f ∈ q.files, ∀ n ∈ f.root.parts, ∀ space name s, q.lookup? space name n = some s →
      (space = .value ∧ name ∈ ambientNames ∧ s = ambientSymbol name) ∨
      ∃ fact ∈ f.facts, fact.symbol? = some s ∧ ∃ x : NodeId, s.id = .node x ∧ x.file = f.path) ∧
    (∀ scope space name,
      q.declared? scope space name = Declared.latest? q.declarations scope space name) ∧
    Declared.names q.declarations .global .value = ambientNames ∧
    Declared.names q.declarations .global .type = [] := by
  intro p q
  have h : p.Extends q := extends_of_perm hdiffer hperm hunmet
  have hmem : ∀ f ∈ p.files, f ∈ q.files := fun f hf =>
    (file_eq_some_iff.mp ((h.file f hf).trans (file_eq_of_mem hf))).1
  refine ⟨fun n hn => ⟨?_, ?_, h.symbol_at_eq hn, h.types_eq hn⟩, fun s hs => ⟨?_, h.type_of_eq hs⟩,
    fun f hf n hn space name s hs => ?_, declared_eq_latest config others,
    names_global config others⟩
  · obtain ⟨f, hf, hn⟩ := hn
    exact ⟨f, hmem f hf, hn⟩
  · exact Resolution.resolve_eq h.matches_self ⟨rfl, hn⟩
  · simp only [symbols, List.mem_append, List.mem_flatMap, List.mem_map] at hs ⊢
    exact hs.imp_left (Or.imp (Or.imp_left (Exists.imp fun f => And.imp_left (hmem f)))
      (Exists.imp fun f => And.imp_left (hmem f)))
  · refine (lookup_in_file hf hn hs).imp_right ?_
    rintro ⟨fact, hfact, hsymbol⟩
    refine ⟨fact, hfact, hsymbol, ?_⟩
    obtain ⟨path, source, rfl⟩ := (files_of_sources config others).1 f hf
    exact BoundFile.exists_node_of_mem hfact hsymbol

/-- The law at a file that imports a constant of another one, and a third file that declares the
name of the constant, too, and stands before both of them. -/
theorem files_are_isolated_import :
    let name (t : String) := Node.identifier {} (Text.ofString t)
    let constant (value : String) := Node.variableStatement {} .const
      [.variableDeclaration {} (name "x") none (some (.stringLiteral {} (Text.ofString value)))]
      true false
    let importing : SourceFile :=
      { fileName := Text.ofString "a.ts"
        statements := [
          .importDeclaration {} (Text.ofString "./b")
            [.importSpecifier {} (name "x") (some (Text.ofString "x")) false],
          .expressionStatement {} (name "x")] }
    let exporting : SourceFile :=
      { fileName := Text.ofString "b.ts", statements := [constant "v"] }
    let other : SourceFile := { fileName := Text.ofString "c.ts", statements := [constant "w"] }
    let place := Node.place (Text.ofString "a.ts") [0, 1, 0] (name "x")
    (ofSources {} [other, exporting, importing]).resolve place =
      (ofSources {} [importing, exporting]).resolve place := by
  intro name constant importing exporting other place
  have hdiffer : PathsDiffer [other, exporting, importing] := by decide
  have hperm : [other, exporting, importing].Perm ([other] ++ [importing, exporting]) :=
    (List.Perm.swap importing exporting []).cons other
  have hunmet : ∀ source ∈ [importing, exporting], ∀ file ∈ [other], Unmet {} source file := by
    decide
  have hfile : importing.bound ∈ (ofSources {} [importing, exporting]).files := by
    rw [files_of_paths_differ {} (by decide)]
    exact List.mem_cons_self
  have hplace : place ∈ importing.bound.root.parts := List.mem_of_getElem? (i := 5) (by cbv)
  exact ((files_are_isolated {} hdiffer hperm hunmet).1 place ⟨_, hfile, hplace⟩).2.1

end Program

end StaticLiteral
