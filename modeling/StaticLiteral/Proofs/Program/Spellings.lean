import StaticLiteral.Proofs.Binding.FileNames
import StaticLiteral.Proofs.Program.DefaultExports
import StaticLiteral.Proofs.Program.Relocation

/-!
# The spelling of file names

A file is bound under its normalized name, however its name is spelled, and its aliases are made
with the name as it was spelled. Those that the file's scope or its table of exports holds in the
end are settled: they record the normalized name. `Program.aliases_of_spelled_file` says which
aliases do so, and which lead to what they lead to if every file is given under its normalized name.
-/

namespace StaticLiteral

/-! ## Specifiers in files of another spelling -/

namespace Path

/-- The path ends in the name of a file: neither in a slash nor in dots. -/
def EndsInName (path : Text) : Prop := ∃ base name, path = join base name ∧ IsFileName name

variable {path specifier : Text}

/-- Seen from the directory of a file, a path is what it is seen from the directory of the file's
normalized name. -/
theorem normalize_join_directory (h : EndsInName path) (hspecifier : specifier.head? ≠ some slash) :
    normalize (join (directory (normalize path)) specifier) =
      normalize (join (directory path) specifier) := by
  obtain ⟨base, name, rfl, hname⟩ := h
  have hroot : root (join base name) = root base := root_join base hname.head_ne
  have hone : Text.join [slash] [name] = name := rfl
  have hcomponents : components (join base name) = components base ++ [name] := by
    have hself : components (Text.join [slash] [name]) = [name] :=
      components_join (by simpa using hname.toIsName)
    rw [components_path_join base hname.head_ne]
    exact congrArg _ hself
  have houter : ∀ other ∈ outerNames base, IsName other := fun _ => is_name_of_mem_outer_names
  have hnormal : normalize (join base name) =
      join (root base ++ Text.join [slash] (outerNames base)) name := by
    have hlast : resolveDots (!(root base).isEmpty) (outerNames base).reverse [name] =
        outerNames base ++ [name] := by
      simp [resolveDots, hname.ne_dot_dot]
    have hnames : resolveDots (!(root base).isEmpty) [] (components base ++ [name]) =
        outerNames base ++ [name] := by
      rw [resolve_dots_append]
      exact hlast
    rw [normalize, hroot, hcomponents, hnames,
      assemble_append base houter (List.cons_ne_nil _ _) (by simpa using hname.toIsName), hone]
  obtain ⟨hnames, hstart⟩ := directory_join base hname.toIsName
  obtain ⟨hnames', hstart'⟩ :=
    directory_join (root base ++ Text.join [slash] (outerNames base)) hname.toIsName
  rw [components_root_append base houter] at hnames'
  rw [root_append (.inl (head_join_ne houter)), root_root] at hstart'
  -- What is left of the directory stays when it is resolved again.
  have hagain : resolveDots (!(root base).isEmpty) [] (outerNames base) = outerNames base := by
    have hsettled : Settled (!(root base).isEmpty) (outerNames base).reverse :=
      settled_resolve_dots .nil _
    exact resolve_dots_of_settled (by simpa using hsettled)
  have hleft : resolveDots (!(root base).isEmpty) [] (components base) = outerNames base := rfl
  rw [hnormal]
  simp only [normalize, root_join _ hspecifier, components_path_join _ hspecifier, hnames, hnames',
    hstart, hstart', resolve_dots_append, hagain, hleft]

end Path

/-! ## The facts about a file of another spelling -/

namespace Fact

/-- Changing symbols changes nothing about what is exported again. -/
theorem reexports_map (f : BoundSymbol → BoundSymbol) (facts : List Fact) :
    (facts.map (mapSymbol f)).filterMap reexport? = facts.filterMap reexport? := by
  rw [List.filterMap_map]
  congr 1
  funext fact
  cases fact <;> rfl

/-- A symbol that is changed twice is changed. -/
theorem map_symbol_map_symbol (f g : BoundSymbol → BoundSymbol) (fact : Fact) :
    (fact.mapSymbol f).mapSymbol g = fact.mapSymbol (g ∘ f) := by
  cases fact <;> rfl

variable {facts : List Fact} {name : Text} {s : BoundSymbol}

/-- The names of a scope are those that are found there. -/
theorem mem_names_in_iff {scope : ScopeId} {space : Space} :
    (name, s) ∈ namesIn facts scope space ↔ declaredIn? facts scope space name = some s := by
  constructor
  · intro h
    obtain ⟨other, -, hlatest⟩ := List.mem_filterMap.mp h
    obtain ⟨t, ht, heq⟩ := Option.map_eq_some_iff.mp hlatest
    obtain ⟨rfl, rfl⟩ := Prod.mk.inj heq
    exact ht
  · intro h
    refine List.mem_filterMap.mpr ⟨name, List.mem_eraseDups.mpr ?_, Option.map_eq_some_iff.mpr
      ⟨s, h, rfl⟩⟩
    obtain ⟨d, hfind, -⟩ := Option.map_eq_some_iff.mp h
    have hfound := List.find?_some hfind
    simp only [Bool.and_eq_true, decide_eq_true_eq] at hfound
    have hmem := List.mem_reverse.mp (List.mem_of_find?_eq_some hfind)
    exact List.mem_map.mpr ⟨d, List.mem_filter.mpr ⟨hmem, by simp [hfound]⟩, hfound.2⟩

/-- The rows of a table are those that are found there. -/
theorem mem_table_iff {table : Table} :
    (name, s) ∈ tableOf facts table ↔ entered? facts table name = some s := by
  refine ⟨fun h => ?_, mem_table_of_entered⟩
  obtain ⟨other, -, hentered⟩ := List.mem_filterMap.mp h
  obtain ⟨t, ht, heq⟩ := Option.map_eq_some_iff.mp hentered
  obtain ⟨rfl, rfl⟩ := Prod.mk.inj heq
  exact ht

end Fact

namespace BoundFile

variable {path : Text} {visible : List SymbolId} {s : BoundSymbol}

/-- A settled alias is one of the file's path. -/
theorem settle_eq : settle path visible s = if s.id ∈ visible then s.inFile path else s := by
  unfold settle Symbol.inFile
  cases s.kind <;> simp

/-- In the file of its path an alias is what it is there, settled or not. -/
theorem in_file_settle : (settle path visible s).inFile path = s.inFile path := by
  rw [settle_eq]
  split <;> simp

/-- An alias that names the path of its file is settled. -/
theorem settle_in_file : settle path visible (s.inFile path) = s.inFile path := by
  rw [settle_eq]
  split <;> simp

end BoundFile

namespace SourceFile

open BoundFile

variable {source : SourceFile}

/-- The file under its normalized name. -/
def normalized (source : SourceFile) : SourceFile :=
  { source with fileName := Path.normalize source.fileName }

/-- The file under its normalized name is bound as the file is, with all aliases in that file. -/
theorem bound_normalized (source : SourceFile) :
    source.normalized.bound.path = source.bound.path ∧
      source.normalized.bound.statements = source.bound.statements ∧
      source.normalized.bound.facts = source.bound.facts.map (Fact.inFile source.bound.path) := by
  have hpath : source.normalized.bound.path = source.bound.path :=
    Path.normalize_normalize source.fileName
  have hstatements : source.normalized.bound.statements = source.bound.statements := by
    show Node.placeAll source.normalized.bound.path _ _ _ = _
    rw [hpath]
    rfl
  refine ⟨hpath, hstatements, ?_⟩
  have hdeep : source.normalized.bound.isTooDeep = source.bound.isTooDeep := by
    show decide (heightLimit < Node.heightOfAll source.normalized.bound.statements) = _
    rw [hstatements]
    rfl
  cases hbound : source.bound.isTooDeep with
  | true =>
      have hnone : source.bound.facts = [] := if_pos (of_decide_eq_true hbound)
      have hnone' : source.normalized.bound.facts = [] :=
        if_pos (of_decide_eq_true (hdeep.trans hbound))
      rw [hnone, hnone', List.map_nil]
  | false =>
      have hsite : source.normalized.site = source.site.named source.bound.path := by
        rw [site, hpath]
        rfl
      have hfacts : Binding.ofNode source.normalized.site source.normalized.bound.root =
          (Binding.ofNode source.site source.bound.root).map
            (Fact.inFile source.bound.path) := by
        rw [← Binding.of_node_named, hsite]
        show Binding.ofNodes _ source.normalized.bound.statements = _
        rw [hstatements]
        rfl
      rw [facts_eq (hdeep.trans hbound), facts_eq hbound, settled, settled, hfacts, hpath,
        List.map_map, List.map_map]
      refine List.map_congr_left fun fact _ => ?_
      simp only [Function.comp_apply, Fact.inFile, Fact.map_symbol_map_symbol, Function.comp_def,
        settle_in_file, in_file_settle]

end SourceFile

/-! ## Aliases that are settled -/

namespace BoundFile

variable {path : Text} {facts : List Fact} {s t : BoundSymbol} {source : SourceFile} {fact : Fact}
  {origin : AliasOrigin}

/-- The facts leave the symbol in the scope of the file or in its table of exports. -/
def Shows (path : Text) (facts : List Fact) (s : BoundSymbol) : Prop :=
  (∃ name, Fact.declaredIn? facts (.file path) .value name = some s) ∨
    ∃ name, Fact.entered? facts .exports name = some s

/-- The symbols that are settled are those that facts show. -/
theorem mem_visible_iff : s ∈ visibleSymbols path facts ↔ Shows path facts s := by
  simp only [visibleSymbols, List.mem_append, List.mem_map, Prod.exists, Fact.mem_names_in_iff,
    Fact.mem_table_iff, exists_eq_right, Shows]

/-- What is shown is some fact about it. -/
theorem exists_fact_of_shows (h : Shows path facts s) :
    ∃ fact ∈ facts, fact.symbol? = some s := by
  rcases h with ⟨name, h⟩ | ⟨name, h⟩
  · exact Fact.declared_in_mem h
  · exact Fact.entered_mem h

/-- Changing symbols changes those that are shown. -/
theorem shows_map_iff (f : BoundSymbol → BoundSymbol) :
    Shows path (facts.map (Fact.mapSymbol f)) s ↔ ∃ t, Shows path facts t ∧ f t = s := by
  simp only [Shows, Binding.declared_in_map, Fact.entered_map, Option.map_eq_some_iff]
  constructor
  · rintro (⟨name, t, ht, hs⟩ | ⟨name, t, ht, hs⟩)
    · exact ⟨t, .inl ⟨name, ht⟩, hs⟩
    · exact ⟨t, .inr ⟨name, ht⟩, hs⟩
  · rintro ⟨t, ⟨name, ht⟩ | ⟨name, ht⟩, hs⟩
    · exact .inl ⟨name, t, ht, hs⟩
    · exact .inr ⟨name, t, ht, hs⟩

/-- An alias of a file records the path of the file exactly if the name of the file was spelled like
that or the file shows the alias; any other one records the name as it was spelled. -/
theorem source_file_iff (h : fact ∈ source.bound.facts) (hs : fact.symbol? = some s)
    (hkind : s.kind = .aliasOf origin) :
    (origin.sourceFile = some source.bound.path ↔
      source.fileName = source.bound.path ∨ Shows source.bound.path source.bound.facts s) ∧
    (origin.sourceFile ≠ some source.bound.path → origin.sourceFile = some source.fileName) := by
  have hbound : source.bound.isTooDeep = false := by
    by_contra hdeep
    have hnone : source.bound.facts = [] :=
      if_pos (of_decide_eq_true (Bool.not_eq_false _ ▸ hdeep))
    exact List.not_mem_nil (hnone ▸ h)
  rw [source.facts_eq hbound] at h ⊢
  generalize hraw : Binding.ofNode source.site source.bound.root = raw at h ⊢
  rw [settled] at h ⊢
  generalize hvisible : (((visibleSymbols source.bound.path raw).filter (·.kind.isAlias)).map
    (·.id)) = visible at h ⊢
  obtain ⟨made, hmade, rfl⟩ := List.mem_map.mp h
  rw [symbol_map_symbol] at hs
  obtain ⟨t, ht, rfl⟩ := Option.map_eq_some_iff.mp hs
  -- Settling leaves no other aliases than there were.
  have halias : ∀ u : BoundSymbol, settle source.bound.path visible u =
      settle source.bound.path visible t → u.kind.isAlias := by
    intro u hu
    by_contra hnot
    rw [settle_of_not_alias (Bool.eq_false_iff.mpr hnot)] at hu
    rw [hu, hkind] at hnot
    exact hnot rfl
  have hshown : t.id ∈ visible ↔ Shows source.bound.path
      (raw.map (Fact.mapSymbol (settle source.bound.path visible)))
      (settle source.bound.path visible t) := by
    rw [shows_map_iff, ← hvisible, List.mem_map]
    constructor
    · rintro ⟨u, hu, hid⟩
      have hshows := mem_visible_iff.mp (List.mem_of_mem_filter hu)
      obtain ⟨other, hother, hsymbol⟩ := exists_fact_of_shows hshows
      rw [← hraw] at hmade hother
      obtain rfl := Binding.symbol_eq_of_id_eq source.laid_bound hother hmade hsymbol ht hid
      exact ⟨u, hshows, rfl⟩
    · rintro ⟨u, hshows, hu⟩
      refine ⟨u, List.mem_filter.mpr ⟨mem_visible_iff.mpr hshows, ?_⟩, ?_⟩
      · exact halias u (hvisible ▸ hu)
      · rw [← id_settle source.bound.path, hu, id_settle]
  rw [← hshown]
  obtain ⟨before, hbefore⟩ : ∃ before, t.kind = .aliasOf before := by
    have := halias t rfl
    cases hkind : t.kind <;> simp_all [SymbolKind.isAlias]
  have hfile : before.sourceFile = some source.fileName :=
    (Binding.origin_of_mem (hraw ▸ hmade) ht hbefore).1
  rw [settle_eq] at hkind
  split at hkind
  case isTrue hmem =>
    rw [Symbol.in_file_of_alias hbefore] at hkind
    obtain rfl := SymbolKind.aliasOf.inj hkind
    exact ⟨⟨fun _ => .inr hmem, fun _ => rfl⟩, fun hne => absurd rfl hne⟩
  case isFalse hmem =>
    obtain rfl := SymbolKind.aliasOf.inj (hbefore.symm.trans hkind)
    simp [hfile, hmem]

end BoundFile

/-! ## Programs of another spelling -/

namespace Program

variable {config : Config} {sources : List SourceFile} {f : BoundFile} {fact : Fact}
  {s : BoundSymbol} {origin : AliasOrigin}

/-- The program of the files under their normalized names. -/
def respelled (config : Config) (sources : List SourceFile) : Program :=
  ofSources config (sources.map SourceFile.normalized)

/-- Files are found as they are under their normalized names. -/
theorem file_respelled (path : Text) : (respelled config sources).file? path =
    ((ofSources config sources).file? path).map fun f => f.source.normalized.bound :=
  file_map (fun source => Path.normalize_normalize source.fileName) path

/-- All aliases of a file are in the file of its path. -/
theorem facts_respelled (path : Text) : (respelled config sources).factsOf path =
    ((ofSources config sources).factsOf path).map (Fact.inFile path) := by
  rw [factsOf, file_respelled, factsOf]
  cases hfile : (ofSources config sources).file? path with
  | none => rfl
  | some f =>
      obtain ⟨hf, rfl⟩ := file_eq_some_iff.mp hfile
      obtain ⟨source, rfl⟩ := exists_source hf
      exact (source.bound_normalized).2.2

/-- Specifiers lead to the same files when file names are spelled as paths. -/
theorem resolve_module_respelled (fromFile specifier : Text) :
    (respelled config sources).resolveModule fromFile specifier =
      (ofSources config sources).resolveModule fromFile specifier := by
  simp only [resolveModule, file_respelled, Option.isSome_map]
  rfl

/-- Files export the same files again when file names are spelled as paths. -/
theorem reexported_respelled (path : Text) :
    (respelled config sources).reexported path = (ofSources config sources).reexported path := by
  have hsame : ((respelled config sources).factsOf path).filterMap Fact.reexport? =
      ((ofSources config sources).factsOf path).filterMap Fact.reexport? := by
    rw [facts_respelled]
    exact Fact.reexports_map _ _
  rw [reexported, reexported, hsame]
  exact List.filterMap_congr fun specifier _ => resolve_module_respelled path specifier

/-- The files whose exports a file exports again are the same. -/
theorem export_sources_respelled (path : Text) :
    (respelled config sources).exportSources path =
      (ofSources config sources).exportSources path := by
  have hvisit : ∀ depth, (respelled config sources).visitFrom depth =
      (ofSources config sources).visitFrom depth := by
    intro depth
    induction depth with
    | zero => rfl
    | succ depth ih =>
        funext visited path
        rw [visitFrom, visitFrom, reexported_respelled, ih]
  have hcount : (respelled config sources).files.length =
      (ofSources config sources).files.length := by
    rw [respelled, files_map fun source => Path.normalize_normalize source.fileName,
      List.length_map]
  rw [exportSources, exportSources, hcount, hvisit]

/-- A symbol that is found in a file has the identity that it had. -/
theorem id_of_in_file (path : Text) (found : Option BoundSymbol) :
    (found.map (Symbol.inFile path)).map (·.id) = found.map (·.id) := by
  cases found <;> simp

/-- Files export symbols of the same identity when file names are spelled as paths. -/
theorem id_of_own_export_respelled (path name : Text) :
    ((respelled config sources).ownExport? path name).map (·.id) =
      ((ofSources config sources).ownExport? path name).map (·.id) := by
  rw [ownExport?, ownExport?, facts_respelled]
  exact (congrArg _ (Fact.entered_map _ _ _ _)).trans (id_of_in_file path _)

/-- Under the same name a file exports the same. -/
theorem id_of_export_respelled (path name : Text) :
    ((respelled config sources).export? path name).map (·.id) =
      ((ofSources config sources).export? path name).map (·.id) := by
  rw [export?, export?]
  split
  · exact id_of_own_export_respelled path name
  · rw [export_sources_respelled, List.map_findSome?, List.map_findSome?]
    exact find_some_congr fun file _ => id_of_own_export_respelled file name

/-- Under the same name a file declares the same. -/
theorem id_of_local_respelled (path name : Text) :
    ((respelled config sources).local? path name).map (·.id) =
      ((ofSources config sources).local? path name).map (·.id) := by
  have hdeclared : ∀ space, (respelled config sources).declared? (.file path) space name =
      ((ofSources config sources).declared? (.file path) space name).map
        (Symbol.inFile path) := by
    intro space
    rw [declared?, declared?, facts_respelled]
    exact Binding.declared_in_map _ _ _ _ _
  rw [local?, local?, hdeclared, hdeclared]
  cases (ofSources config sources).declared? (.file path) .value name with
  | none => exact id_of_in_file path _
  | some symbol => exact id_of_in_file path (some symbol)

/-- The same origin leads to the same. -/
theorem id_of_target_respelled (origin : AliasOrigin) :
    ((respelled config sources).target? origin).map (·.id) =
      ((ofSources config sources).target? origin).map (·.id) := by
  unfold target?
  cases origin.module with
  | none =>
      cases origin.importName with
      | none => rfl
      | some name => exact id_of_local_respelled _ name
  | some specifier =>
      dsimp only
      rw [resolve_module_respelled]
      cases (ofSources config sources).resolveModule _ specifier with
      | none => rfl
      | some path =>
          cases origin.importName with
          | some name => exact id_of_export_respelled path name
          | none =>
              show Option.map _ (((respelled config sources).file? path).map _) =
                Option.map _ (((ofSources config sources).file? path).map _)
              rw [file_respelled]
              cases hfile : (ofSources config sources).file? path with
              | none => rfl
              | some f =>
                  obtain ⟨source, rfl⟩ := exists_source (List.mem_of_find?_eq_some hfile)
                  exact congrArg (fun path => some (SymbolId.module path)) source.bound_normalized.1

/-- An alias has the identity of what it leads to. -/
theorem id_of_aliased {p : Program} (hkind : s.kind = .aliasOf origin) :
    (p.aliased s).id = ((p.target? origin).map (·.id)).getD .unknown := by
  rw [aliased, hkind]
  cases h : p.target? origin with
  | none => simp [h, unknownSymbol]
  | some symbol => simp [h]

/-- Under the normalized names, the alias leads to what the origin leads to from the path. -/
theorem id_of_aliased_respelled (hkind : s.kind = .aliasOf origin) (path : Text) :
    ((respelled config sources).aliased (s.inFile path)).id =
      (((ofSources config sources).target? { origin with sourceFile := some path }).map
        (·.id)).getD .unknown := by
  have hkind' : (s.inFile path).kind = .aliasOf { origin with sourceFile := some path } := by
    rw [Symbol.in_file_of_alias hkind]
  rw [id_of_aliased hkind', id_of_target_respelled]

/-- What a file declares is known. -/
theorem id_of_local_ne {path name : Text} {t : BoundSymbol}
    (h : (ofSources config sources).local? path name = some t) : t.id ≠ .unknown := by
  have hfact : ∃ fact ∈ (ofSources config sources).factsOf path, fact.symbol? = some t := by
    rw [local?] at h
    split at h
    · next value hvalue =>
        obtain rfl := Option.some.inj h
        exact Fact.declared_in_mem hvalue
    · exact Fact.declared_in_mem h
  obtain ⟨fact, hfact, hsymbol⟩ := hfact
  obtain ⟨f, hf, hfact⟩ := exists_file_of_fact hfact
  obtain ⟨source, rfl⟩ := exists_source hf
  obtain ⟨x, hx, -⟩ := BoundFile.exists_node_of_mem hfact hsymbol
  intro hunknown
  rw [hx] at hunknown
  cases hunknown

/-- A file with a name of another spelling than its path is not found under that name. -/
theorem local_of_spelled (hf : f ∈ (ofSources config sources).files)
    (hspelled : f.source.fileName ≠ f.path) (name : Text) :
    (ofSources config sources).local? f.source.fileName name = none := by
  have hnone : (ofSources config sources).file? f.source.fileName = none := by
    by_contra hfound
    obtain ⟨other, -, hpath⟩ :=
      is_some_file_iff.mp (Option.isSome_iff_ne_none.mpr hfound)
    obtain ⟨source, rfl⟩ := exists_source hf
    -- A path is its own normalized form.
    have hnormal := Path.normalize_normalize other.fileName
    rw [hpath] at hnormal
    exact hspelled hnormal.symm
  simp only [local?, declared?, factsOf, hnone]
  rfl

/-- A specifier leads to the same file from a name that ends in the name of a file as from its
path. -/
theorem resolve_module_of_spelled (hf : f ∈ (ofSources config sources).files)
    (hname : Path.EndsInName f.source.fileName) (specifier : Text) :
    (ofSources config sources).resolveModule f.path specifier =
      (ofSources config sources).resolveModule f.source.fileName specifier := by
  have hpath : f.path = Path.normalize f.source.fileName := by
    obtain ⟨source, rfl⟩ := exists_source hf
    rfl
  by_cases hrelative : Path.isRelative specifier
  · rw [resolveModule, resolveModule, module_candidates_eq, module_candidates_eq, hpath,
      Path.normalize_join_directory hname (Path.head_ne_of_is_relative hrelative)]
  · rw [resolveModule, resolveModule, if_neg hrelative, if_neg hrelative]

/-- An origin with the name of the file leads to what it leads to with the path of the file exactly
if it names a module, or if there is no such name in the file. -/
theorem id_of_target_spelled_iff (hf : f ∈ (ofSources config sources).files)
    (hspelled : f.source.fileName ≠ f.path) (hname : Path.EndsInName f.source.fileName)
    (hfile : origin.sourceFile = some f.source.fileName) :
    (((ofSources config sources).target? { origin with sourceFile := some f.path }).map
        (·.id)).getD .unknown =
        (((ofSources config sources).target? origin).map (·.id)).getD .unknown ↔
      origin.module.isSome ∨ ∀ name, origin.importName = some name →
        (ofSources config sources).local? f.path name = none := by
  set p := ofSources config sources
  obtain ⟨sourceFile, module, importName⟩ := origin
  obtain rfl : sourceFile = some f.source.fileName := hfile
  cases module with
  | some specifier =>
      have htarget : p.target? ⟨some f.path, some specifier, importName⟩ =
          p.target? ⟨some f.source.fileName, some specifier, importName⟩ := by
        simp only [p, target?, Option.getD_some, resolve_module_of_spelled hf hname]
      exact ⟨fun _ => .inl rfl, fun _ => by rw [htarget]⟩
  | none =>
      cases importName with
      | none =>
          refine ⟨fun _ => .inr fun name hname => ?_, fun _ => rfl⟩
          cases hname
      | some name =>
          have htarget : p.target? ⟨some f.source.fileName, none, some name⟩ = none :=
            local_of_spelled hf hspelled name
          have htarget' : p.target? ⟨some f.path, none, some name⟩ = p.local? f.path name := rfl
          rw [htarget, htarget']
          constructor
          · intro hsame
            refine .inr fun other hother => ?_
            obtain rfl := Option.some.inj hother
            cases hlocal : p.local? f.path name with
            | none => rfl
            | some t => rw [hlocal] at hsame; exact absurd hsame (id_of_local_ne hlocal)
          · rintro (hmodule | hnone)
            · cases hmodule
            · rw [hnone name rfl]

/-- However the names of the files of a program are spelled, an alias of a file records the path of
the file exactly if the name was spelled like that, or if the alias is what the scope of the file or
its table of exports has under a name; any other alias records the name as it was spelled. The same
aliases are there if the files are given under their normalized names, and each records the path
then. One that recorded it before leads to what it led to. Any other one does so exactly if it names
a module, or if there is no such name in its file, provided that the spelling ends in a name. -/
theorem aliases_of_spelled_file (hf : f ∈ (ofSources config sources).files) (hfact : fact ∈ f.facts)
    (hs : fact.symbol? = some s) (hkind : s.kind = .aliasOf origin) :
    let p := ofSources config sources
    let q := respelled config sources
    let records := origin.sourceFile = some f.path
    (records ↔ f.source.fileName = f.path ∨
      (∃ name, p.declared? (.file f.path) .value name = some s) ∨
        ∃ name, p.ownExport? f.path name = some s) ∧
    (¬ records → origin.sourceFile = some f.source.fileName) ∧
    fact.inFile f.path ∈ q.factsOf f.path ∧
    (records → (q.aliased (s.inFile f.path)).id = (p.aliased s).id) ∧
    (Path.EndsInName f.source.fileName →
      ((q.aliased (s.inFile f.path)).id = (p.aliased s).id ↔
        records ∨ origin.module.isSome ∨
          ∀ name, origin.importName = some name → p.local? f.path name = none)) := by
  intro p q records
  have hfile : p.factsOf f.path = f.facts := by rw [factsOf, file_eq_of_mem hf]; rfl
  have hsource : (records ↔ f.source.fileName = f.path ∨ BoundFile.Shows f.path f.facts s) ∧
      (¬ records → origin.sourceFile = some f.source.fileName) := by
    obtain ⟨source, rfl⟩ := exists_source hf
    exact BoundFile.source_file_iff hfact hs hkind
  have hrespelled : (q.aliased (s.inFile f.path)).id = _ := id_of_aliased_respelled hkind f.path
  have hrecords : records → (q.aliased (s.inFile f.path)).id = (p.aliased s).id := by
    intro h
    have hself : { origin with sourceFile := some f.path } = origin := by rw [← h]
    rw [hrespelled, id_of_aliased hkind, hself]
  refine ⟨?_, hsource.2, ?_, hrecords, fun hname => ?_⟩
  · rw [hsource.1, BoundFile.Shows, ← hfile]
    rfl
  · rw [facts_respelled, hfile]
    exact List.mem_map_of_mem hfact
  · by_cases h : records
    · exact ⟨fun _ => .inl h, fun _ => hrecords h⟩
    · have hspelled : f.source.fileName ≠ f.path := fun heq => h (hsource.1.mpr (.inl heq))
      rw [hrespelled, id_of_aliased hkind,
        id_of_target_spelled_iff hf hspelled hname (hsource.2 h), or_iff_right h]

/-- The law at what a namespace exports from another module, in a file with a name that is spelled
differently than its path. -/
theorem aliases_of_spelled_file_reexport :
    let name (t : String) := Node.identifier {} (Text.ofString t)
    let reexport := Node.exportDeclaration {}
      [.exportSpecifier {} (Text.ofString "x") (Text.ofString "x")] (some (Text.ofString "./b"))
      false
    let source : SourceFile :=
      { fileName := Text.ofString "./a.ts"
        statements := [.moduleDeclaration {} (name "N") (some (.block {} [reexport])) false] }
    let other : SourceFile :=
      { fileName := Text.ofString "./b.ts"
        statements := [.variableStatement {} .const
          [.variableDeclaration {} (name "x") none (some (.trueKeyword {}))] true false] }
    let p := ofSources {} [source, other]
    let q := respelled {} [source, other]
    ∃ fact ∈ source.bound.facts, ∃ s, fact.symbol? = some s ∧
      s.kind = .aliasOf { sourceFile := some (Text.ofString "./a.ts")
                          module := some (Text.ofString "./b")
                          importName := some (Text.ofString "x") } ∧
      (p.aliased s).id ≠ .unknown ∧
      (q.aliased (s.inFile (Text.ofString "a.ts"))).id = (p.aliased s).id := by
  intro name reexport source other p q
  obtain ⟨fact, hfact, hfound⟩ := List.any_eq_true.mp (by decide +kernel :
    source.bound.facts.any fun fact => fact.symbol?.any fun s =>
      decide (s.kind = .aliasOf { sourceFile := some (Text.ofString "./a.ts")
                                  module := some (Text.ofString "./b")
                                  importName := some (Text.ofString "x") } ∧
        (p.aliased s).id ≠ .unknown))
  obtain ⟨s, hs, hfound⟩ := (Option.any_eq_true _ _).mp hfound
  obtain ⟨hkind, hknown⟩ := of_decide_eq_true hfound
  have hf : source.bound ∈ p.files := List.mem_cons_self
  have hname : Path.EndsInName source.fileName :=
    ⟨Text.ofString ".", Text.ofString "a.ts", rfl, ⟨by decide, by decide, by decide⟩,
      by decide⟩
  obtain ⟨-, -, -, -, hsame⟩ := aliases_of_spelled_file hf hfact hs hkind
  exact ⟨fact, hfact, s, hs, hkind, hknown, (hsame hname).mpr (.inr (.inl rfl))⟩

/-- What a namespace exports by its name records the name of the file as it was spelled and leads
nowhere; under the normalized name of the file it leads to the constant that is exported. -/
theorem namespace_member_keeps_spelling :
    let name (t : String) := Node.identifier {} (Text.ofString t)
    let constant := Node.variableStatement {} .const
      [.variableDeclaration {} (name "x") none (some (.numericLiteral {} (Text.ofString "1")))]
      false false
    let exported := Node.exportDeclaration {}
      [.exportSpecifier {} (Text.ofString "x") (Text.ofString "x")] none false
    let source : SourceFile :=
      { fileName := Text.ofString "./a.ts"
        statements := [constant,
          .moduleDeclaration {} (name "N") (some (.block {} [exported])) false] }
    let path := Text.ofString "a.ts"
    let p := ofSources {} [source]
    let q := respelled {} [source]
    ∃ fact ∈ p.factsOf path, ∃ s, fact.symbol? = some s ∧
      s.kind = .aliasOf { sourceFile := some (Text.ofString "./a.ts"), module := none
                          importName := some (Text.ofString "x") } ∧
      (p.aliased s).id = .unknown ∧
      fact.inFile path ∈ q.factsOf path ∧
      ∃ t, q.local? path (Text.ofString "x") = some t ∧ t.id ≠ .unknown ∧
        (q.aliased (s.inFile path)).id = t.id := by
  intro name constant exported source path p q
  obtain ⟨fact, hfact, hfound⟩ := List.any_eq_true.mp (by decide +kernel :
    (p.factsOf path).any fun fact => fact.symbol?.any fun s =>
      decide (s.kind = .aliasOf { sourceFile := some (Text.ofString "./a.ts"), module := none
                                  importName := some (Text.ofString "x") } ∧
        (p.aliased s).id = .unknown) &&
      (q.local? path (Text.ofString "x")).any fun t =>
        decide (t.id ≠ .unknown ∧ (q.aliased (s.inFile path)).id = t.id))
  obtain ⟨s, hs, hfound⟩ := (Option.any_eq_true _ _).mp hfound
  obtain ⟨hfirst, hsecond⟩ := Bool.and_eq_true_iff.mp hfound
  obtain ⟨hkind, hunknown⟩ := of_decide_eq_true hfirst
  obtain ⟨t, ht, hsecond⟩ := (Option.any_eq_true _ _).mp hsecond
  have hmem : fact.inFile path ∈ q.factsOf path := by
    rw [facts_respelled]
    exact List.mem_map_of_mem hfact
  exact ⟨fact, hfact, s, hs, hkind, hunknown, hmem, t, ht, of_decide_eq_true hsecond⟩

end Program

end StaticLiteral
