import StaticLiteral.Proofs.Binding.Interrupted
import StaticLiteral.Proofs.Program.Likeness
import StaticLiteral.Proofs.Program.SharedScopes

/-!
# Files that are dropped

One binder goes from file to file. In some files it is interrupted, at any point; of these nothing
is kept, and it goes on with whatever the interruption left behind: `Binder.BindsAll`. Every file is
bound as if it were the only one (`Binder.binds_all_eq`), and the program cannot be told from one
with empty files in place of those that are dropped: `Program.dropped_like_empty`.
-/

namespace StaticLiteral

open Binding

namespace BoundFile

/-- A file of which nothing is kept. -/
def dropped (path : Text) (source : SourceFile) : BoundFile where
  path := path
  source := source
  statements := Node.placeAll path [0] 0 source.statements
  isTooDeep := true
  facts := []

/-- A file with the facts that were noted of it. -/
def kept (path : Text) (source : SourceFile) (facts : List Fact) : BoundFile :=
  { dropped path source with isTooDeep := false, facts := settled path facts }

/-- The facts of the tree of a file. -/
def treeFacts (path : Text) (source : SourceFile) : List Fact :=
  ofNode (site path source) (dropped path source).root

/-- The actions of binding a file. -/
def binding (path : Text) (source : SourceFile) : List Action :=
  actions (site path source) (dropped path source).root

/-- A file under its path: dropped if it overflows, and else kept with all its facts. -/
def boundUnless (overflows : Text → SourceFile → Bool) (entry : Text × SourceFile) : BoundFile :=
  if overflows entry.1 entry.2 then dropped entry.1 entry.2
  else kept entry.1 entry.2 (treeFacts entry.1 entry.2)

/-- Whether a file has more levels than can be bound. -/
def exceeds (path : Text) (source : SourceFile) : Bool :=
  heightLimit < Node.heightOfAll (Node.placeAll path [0] 0 source.statements)

variable {overflows : Text → SourceFile → Bool} {path : Text} {source : SourceFile}
  {entry : Text × SourceFile}

/-- A file is dropped if it has too many levels. -/
theorem of_source_eq : ofSource path source = boundUnless exceeds (path, source) := by
  by_cases hover : heightLimit < Node.heightOfAll (Node.placeAll path [0] 0 source.statements)
  · rw [boundUnless, if_pos (by simpa [exceeds] using hover)]
    simp only [ofSource, hover, decide_true, if_true, dropped]
  · rw [boundUnless, if_neg (by simpa [exceeds] using hover)]
    simp only [ofSource, hover, decide_false, if_false]
    rfl

/-- A file keeps its path, whether binding it is interrupted or not. -/
@[simp]
theorem path_bound_unless : (boundUnless overflows entry).path = entry.1 := by
  unfold boundUnless
  split <;> rfl

/-- Nothing is left of a file that is dropped. -/
theorem facts_of_too_deep (h : (boundUnless overflows entry).isTooDeep = true) :
    (boundUnless overflows entry).facts = [] := by
  by_cases hover : overflows entry.1 entry.2
  · rw [boundUnless, if_pos hover]
    rfl
  · rw [boundUnless, if_neg hover] at h
    cases h

/-- Nothing is found in a file without statements. -/
theorem facts_of_no_statements (h : entry.2.statements = []) :
    (boundUnless overflows entry).facts = [] ∧ (boundUnless overflows entry).statements = [] := by
  have hstatements : (dropped entry.1 entry.2).statements = [] := by
    rw [dropped, h]
    rfl
  have hfacts : treeFacts entry.1 entry.2 = [] := by
    rw [treeFacts, root, hstatements]
    rfl
  unfold boundUnless
  split
  · exact ⟨rfl, hstatements⟩
  · refine ⟨?_, hstatements⟩
    rw [kept, hfacts]
    rfl

end BoundFile

namespace Binder

/-- At the beginning of a file nothing of it is noted, and exports are those of the file. -/
def start (b : Binder) : Binder := { b with noted := [], exports := some .exports }

/-- A binder goes from file to file. It is interrupted in those that overflow, and nothing of them
is kept. -/
inductive BindsAll (overflows : Text → SourceFile → Bool) :
    Binder → List (Text × SourceFile) → List BoundFile → Binder → Prop where
  | nil (b : Binder) : BindsAll overflows b [] [] b
  | kept {b b₁ b' : Binder} {path : Text} {source : SourceFile} {rest : List (Text × SourceFile)}
      {files : List BoundFile} (hfits : overflows path source = false)
      (h : Runs b.start (BoundFile.binding path source) true b₁)
      (hrest : BindsAll overflows b₁ rest files b') :
      BindsAll overflows b ((path, source) :: rest) (.kept path source b₁.noted :: files) b'
  | dropped {b b₁ b' : Binder} {path : Text} {source : SourceFile}
      {rest : List (Text × SourceFile)} {files : List BoundFile}
      (hover : overflows path source = true)
      (h : Runs b.start (BoundFile.binding path source) false b₁)
      (hrest : BindsAll overflows b₁ rest files b') :
      BindsAll overflows b ((path, source) :: rest) (.dropped path source :: files) b'

variable {overflows : Text → SourceFile → Bool} {b b' : Binder} {sources : List (Text × SourceFile)}
  {files : List BoundFile} {path : Text} {source : SourceFile}

/-- No file declares anything in the scope that all files share. -/
theorem declared_for_all_eq_nil {facts : List Fact}
    (h : facts <+: BoundFile.treeFacts path source) : declaredForAll facts = [] := by
  refine List.filter_eq_nil_iff.mpr fun d hd => ?_
  obtain ⟨fact, hfact, hdeclared⟩ := List.mem_filterMap.mp hd
  cases fact with
  | declares e =>
      obtain rfl := Option.some.inj hdeclared
      have hown : e.frame.IsOf path := BoundFile.own_of_declares_in_tree (h.subset hfact)
      rw [decide_eq_true_eq]
      exact fun hglobal => ScopeId.not_is_of_global path (hglobal ▸ hown)
  | _ => cases hdeclared

/-- In a file, a binder notes a beginning of the facts of the file, and nothing else that lasts. -/
theorem noted_of_file {ended : Bool}
    (h : Runs b.start (BoundFile.binding path source) ended b') :
    b'.shared = b.shared ∧ b'.noted <+: BoundFile.treeFacts path source ∧
      (ended = true → b'.noted = BoundFile.treeFacts path source) := by
  obtain ⟨facts, table, rfl, hprefix, hended⟩ := exists_noted h
  have htold : told (some .exports) (BoundFile.binding path source) =
      BoundFile.treeFacts path source := (told_actions (BoundFile.site path source) _).1
  have hfacts : facts <+: BoundFile.treeFacts path source := htold ▸ hprefix
  refine ⟨?_, hfacts, fun h => (hended h).1.trans htold⟩
  show b.shared ++ declaredForAll facts = b.shared
  rw [declared_for_all_eq_nil hfacts, List.append_nil]

/-- **Files are bound apart.** Whatever interruptions leave behind, every file that fits is bound
with its own facts, and the scope that all files share stays as it is. -/
theorem binds_all_eq (h : BindsAll overflows b sources files b') :
    files = sources.map (.boundUnless overflows) ∧ b'.shared = b.shared := by
  induction h with
  | nil b => exact ⟨rfl, rfl⟩
  | kept hfits h _ ih =>
      obtain ⟨hshared, _, hnoted⟩ := noted_of_file h
      refine ⟨?_, ih.2.trans hshared⟩
      rw [List.map_cons, ← ih.1, BoundFile.boundUnless, if_neg (by simp [hfits]), hnoted rfl]
  | dropped hover h _ ih =>
      refine ⟨?_, ih.2.trans (noted_of_file h).1⟩
      rw [List.map_cons, ← ih.1, BoundFile.boundUnless, if_pos hover]

/-- A binder can go through all files. -/
theorem exists_binds_all (overflows : Text → SourceFile → Bool) (b : Binder)
    (sources : List (Text × SourceFile)) : ∃ files b', BindsAll overflows b sources files b' := by
  induction sources generalizing b with
  | nil => exact ⟨[], b, .nil b⟩
  | cons entry rest ih =>
      obtain ⟨path, source⟩ := entry
      cases hover : overflows path source with
      | true =>
          obtain ⟨files, b', h⟩ := ih b.start
          exact ⟨_, b', .dropped hover (.interrupted _ _) h⟩
      | false =>
          obtain ⟨b₁, hrun⟩ := exists_run b.start (BoundFile.site path source)
            (BoundFile.dropped path source).root
          obtain ⟨files, b', h⟩ := ih b₁
          exact ⟨_, b', .kept hover hrun h⟩

end Binder

namespace Program

/-! ## A file in place of another one -/

/-- The second program has the file `g` where the first one has `f`, and the same facts. -/
structure Replaced (p q : Program) (f g : BoundFile) : Prop where
  config : q.config = p.config
  mem : f ∈ p.files
  nodup : (p.files.map (·.path)).Nodup
  files : q.files = p.files.map fun h => if h.path = f.path then g else h
  path : g.path = f.path
  facts : g.facts = f.facts

/-- The symbols are one symbol, or those of the two files. -/
inductive Swapped (f g : BoundFile) : BoundSymbol → BoundSymbol → Prop where
  | same (s : BoundSymbol) : Swapped f g s s
  | module : Swapped f g f.moduleSymbol g.moduleSymbol

/-- Both programs answer alike. Only what declares the module of a file is another file. -/
structure AnswersLike (p q : Program) (f g : BoundFile) : Prop where
  symbolAt : ∀ node, q.symbolAt? node = p.symbolAt? node
  scopeOf : ∀ node, q.scopeOf? node = p.scopeOf? node
  lookup : ∀ space name node, q.lookup? space name node = p.lookup? space name node
  literalSymbol : ∀ node, q.literalSymbol? node = p.literalSymbol? node
  members : ∀ {s t}, Swapped f g s t → q.members t = p.members s
  resolveModule : ∀ file specifier, q.resolveModule file specifier = p.resolveModule file specifier
  aliased : ∀ {s t}, Swapped f g s t → Swapped f g (p.aliased s) (q.aliased t)
  aliasEnd : ∀ {s t}, Swapped f g s t → Swapped f g (p.aliasEnd s) (q.aliasEnd t)
  typeOf : ∀ {s t}, Swapped f g s t → q.typeOf t = p.typeOf s
  typeOfExpression : ∀ node, q.typeOfExpression node = p.typeOfExpression node
  typeOfAnnotation : ∀ node, q.typeOfAnnotation node = p.typeOfAnnotation node
  resolve : ∀ node, q.resolve node = p.resolve node
  file : ∀ path, path ≠ f.path → q.file? path = p.file? path
  anomalies : q.anomalies.filter (·.file ≠ f.path) = p.anomalies.filter (·.file ≠ f.path)

namespace Replaced

variable {p q : Program} {f g : BoundFile} {s t : BoundSymbol}

/-- The new file is found where the old one was found. -/
theorem file_eq (h : Replaced p q f g) (path : Text) :
    q.file? path = (p.file? path).map fun h => if h.path = f.path then g else h := by
  rw [file?, file?, h.files, List.find?_map]
  congr 2
  funext k
  rw [Function.comp_apply]
  split
  · next hk => rw [h.path, hk]
  · rfl

/-- Other files stay. -/
theorem file_of_ne (h : Replaced p q f g) {path : Text} (hne : path ≠ f.path) :
    q.file? path = p.file? path := by
  rw [h.file_eq]
  cases hfile : p.file? path with
  | none => rfl
  | some k =>
      have hk : k.path = path := by simpa using List.find?_some hfile
      rw [Option.map_some, if_neg (hk ▸ hne)]

/-- The one file has taken the place of the other. -/
theorem file_self (h : Replaced p q f g) :
    p.file? f.path = some f ∧ q.file? f.path = some g := by
  have hfile : p.file? f.path = some f := file_eq_of_nodup h.nodup h.mem
  exact ⟨hfile, by rw [h.file_eq, hfile, Option.map_some, if_pos rfl]⟩

/-- The same facts are established. -/
theorem facts_eq (h : Replaced p q f g) (path : Text) : q.factsOf path = p.factsOf path := by
  by_cases hpath : path = f.path
  · subst hpath
    simp only [factsOf, h.file_self, Option.map_some, Option.getD_some, h.facts]
  · rw [factsOf, factsOf, h.file_of_ne hpath]

/-- The same paths have files. -/
theorem is_some_file_eq (h : Replaced p q f g) (path : Text) :
    (q.file? path).isSome = (p.file? path).isSome := by
  rw [h.file_eq, Option.isSome_map]

/-- The same symbols are declared. -/
theorem declared_eq (h : Replaced p q f g) : q.declared? = p.declared? := by
  funext scope space name
  cases scope with
  | global => rfl
  | file path => rw [declared?, declared?, h.facts_eq]
  | node id => rw [declared?, declared?, h.facts_eq]

/-- Nodes are in the same scopes. -/
theorem scope_of_eq (h : Replaced p q f g) (node : Node) : q.scopeOf? node = p.scopeOf? node := by
  rw [scopeOf?, scopeOf?, h.facts_eq]

/-- Names mean the same symbols. -/
theorem lookup_eq (h : Replaced p q f g) (space : Space) (name : Text) (node : Node) :
    q.lookup? space name node = p.lookup? space name node := by
  rw [lookup?, lookup?, h.scope_of_eq, h.declared_eq]

/-- Specifiers lead to the same files. -/
theorem resolve_module_eq (h : Replaced p q f g) (file specifier : Text) :
    q.resolveModule file specifier = p.resolveModule file specifier :=
  resolve_module_congr h.config h.is_some_file_eq file specifier

/-- The same symbols are exported. -/
theorem export_eq (h : Replaced p q f g) (path name : Text) :
    q.export? path name = p.export? path name := by
  have hsources := export_sources_congr h.config h.is_some_file_eq
    (by rw [h.files, List.length_map]) (fun path => by rw [h.facts_eq]) path
  simp only [export?, ownExport?, h.facts_eq, hsources]

/-- A module is the same one, or that of the new file in place of the old one. -/
theorem module_swapped (h : Replaced p q f g) (path : Text) :
    Option.Rel (Swapped f g) ((p.file? path).map (·.moduleSymbol))
      ((q.file? path).map (·.moduleSymbol)) := by
  by_cases hpath : path = f.path
  · subst hpath
    rw [h.file_self.1, h.file_self.2]
    exact .some .module
  · rw [h.file_of_ne hpath]
    exact rel_self fun s _ => .same s

/-- What an alias stands for is the same symbol, or the module of the new file. -/
theorem target_swapped (h : Replaced p q f g) (origin : AliasOrigin) :
    Option.Rel (Swapped f g) (p.target? origin) (q.target? origin) := by
  have hself : ∀ symbol : Option BoundSymbol, Option.Rel (Swapped f g) symbol symbol :=
    fun _ => rel_self fun s _ => .same s
  simp only [target?, local?, h.declared_eq, h.resolve_module_eq]
  cases origin.module with
  | none => cases origin.importName <;> exact hself _
  | some specifier =>
      dsimp only
      cases p.resolveModule (origin.sourceFile.getD []) specifier with
      | none => exact .none
      | some path =>
          cases origin.importName with
          | none => exact h.module_swapped path
          | some name =>
              show Option.Rel _ (p.export? path name) (q.export? path name)
              rw [h.export_eq]
              exact hself _

/-- Aliases point to the same symbols, up to what declares the module of the file. -/
theorem aliased_swapped (h : Replaced p q f g) (hst : Swapped f g s t) :
    Swapped f g (p.aliased s) (q.aliased t) := by
  cases hst with
  | module => exact .module
  | same =>
      unfold aliased
      cases s.kind with
      | aliasOf origin =>
          dsimp only
          rcases rel_cases (h.target_swapped origin) with ⟨hp, hq⟩ | ⟨x, y, hp, hq, hxy⟩
          · rw [hp, hq]
            exact .same _
          · rw [hp, hq]
            exact hxy
      | _ => exact .same s

/-- Typing and resolving do not tell the two modules apart. -/
theorem as_one (h : Replaced p q f g) (hst : Swapped f g s t) : AsOne s t := by
  cases hst with
  | same => exact .same s
  | module => exact .modules rfl rfl (congrArg SymbolId.module h.path)

/-- Nodes have the same symbols. -/
theorem symbol_at_eq (h : Replaced p q f g) (node : Node) :
    q.symbolAt? node = p.symbolAt? node := by
  simp only [symbolAt?, h.facts_eq, h.lookup_eq]

/-- Literals have the same symbols. -/
theorem literal_symbol_eq (h : Replaced p q f g) (node : Node) :
    q.literalSymbol? node = p.literalSymbol? node := by
  rw [literalSymbol?, literalSymbol?, h.facts_eq]

/-- Symbols have the same members. -/
theorem members_eq (h : Replaced p q f g) (hst : Swapped f g s t) :
    q.members t = p.members s := by
  simp only [members, (h.as_one hst).id_eq, h.facts_eq]

/-- Typing and resolving see the same program. -/
theorem akin (h : Replaced p q f g) : Akin p q where
  symbolAt := h.symbol_at_eq
  lookup := h.lookup_eq
  literalSymbol := h.literal_symbol_eq
  aliased := by
    intro s t hst
    cases hst with
    | same => exact h.as_one (h.aliased_swapped (.same s))
    | modules hs ht hid =>
        rw [aliased_of_not_alias (by rw [hs]; rfl), aliased_of_not_alias (by rw [ht]; rfl)]
        exact .modules hs ht hid
  characterNames := congrArg Config.characterNames h.config

/-- The anomalies of the other files are the same. -/
theorem anomalies_eq (h : Replaced p q f g) :
    q.anomalies.filter (·.file ≠ f.path) = p.anomalies.filter (·.file ≠ f.path) := by
  have hbroken : ∀ k : BoundFile, q.specifierAnomalies k = p.specifierAnomalies k := fun k => by
    have hsame : q.isBroken k.path = p.isBroken k.path := by
      funext specifier
      rw [isBroken, isBroken, h.resolve_module_eq]
    rw [specifierAnomalies, specifierAnomalies, hsame]
  -- The anomalies that one kind of check notes.
  have heach : ∀ note : BoundFile → List Anomaly,
      (q.files.flatMap fun k => (note k).map (FileAnomaly.mk k.path)).filter (·.file ≠ f.path) =
        (p.files.flatMap fun k => (note k).map (FileAnomaly.mk k.path)).filter
          (·.file ≠ f.path) := by
    intro note
    have hnone : ∀ k : BoundFile, k.path = f.path →
        ((note k).map (FileAnomaly.mk k.path)).filter (·.file ≠ f.path) = [] :=
      fun k hk => by simp [hk]
    rw [h.files, List.flatMap_map, List.filter_flatMap, List.filter_flatMap]
    refine List.flatMap_congr fun k _ => ?_
    split
    · next hk => rw [hnone g h.path, hnone k hk]
    · rfl
  simp only [anomalies, List.filter_append, heach, hbroken]

/-- **A file in place of another one.** If both have the same facts, no answer changes. -/
theorem answers_like (h : Replaced p q f g) : AnswersLike p q f g where
  symbolAt := h.symbol_at_eq
  scopeOf := h.scope_of_eq
  lookup := h.lookup_eq
  literalSymbol := h.literal_symbol_eq
  members := h.members_eq
  resolveModule := h.resolve_module_eq
  aliased := h.aliased_swapped
  aliasEnd := alias_end_related (fun hst => (h.as_one hst).kind_eq)
    (fun hst => (h.as_one hst).id_eq) h.aliased_swapped
  typeOf hst := by
    rw [h.akin.type_of_eq]
    exact (h.as_one hst).of_symbol_eq p true Typing.depthLimit []
  typeOfExpression := h.akin.type_of_expression_eq
  typeOfAnnotation := h.akin.type_of_annotation_eq
  resolve node := congrArg (Resolution.Outcome.ofAnswer node <| Resolution.Answers.node · node)
    (h.akin.resolving_eq Typing.depthLimit true Resolution.depthLimit [])
  file _ := h.file_of_ne
  anomalies := h.anomalies_eq

end Replaced

/-! ## Files that are dropped -/

/-- Nothing is kept of a file: no node has a symbol, a scope or a symbol of its own, and its tables
are empty. -/
structure HasNothing (p : Program) (path : Text) : Prop where
  named : ∀ x : NodeId, x.file = path → Fact.last? (Fact.named? x) (p.factsOf x.file) = none
  scope : ∀ node : Node, node.id.file = path → p.scopeOf? node = none
  literal : ∀ node : Node, node.id.file = path → p.literalSymbol? node = none
  declared : ∀ scope : ScopeId, scope.IsOf path → ∀ space name, p.declared? scope space name = none
  names : ∀ space, Fact.namesIn (p.factsOf path) (.file path) space = []
  exports : Fact.tableOf (p.factsOf path) .exports = []
  reexported : p.reexported path = []

/-- A program has nothing of a file without facts. -/
theorem has_nothing_of_facts {p : Program} {path : Text} (h : p.factsOf path = []) :
    p.HasNothing path where
  named := by
    rintro x rfl
    rw [h]
    rfl
  scope := by
    rintro node rfl
    rw [scopeOf?, h]
    rfl
  literal := by
    rintro node rfl
    rw [literalSymbol?, h]
    rfl
  declared := by
    rintro scope (rfl | ⟨x, rfl, rfl⟩) space name <;> rw [declared?, h] <;> rfl
  names space := by rw [h]; rfl
  exports := by rw [h]; rfl
  reexported := by rw [reexported, h]; rfl

end Program

/-- A file without statements in place of the file under a path. -/
def SourceFile.emptiedAt (path : Text) (source : SourceFile) : SourceFile :=
  if Path.normalize source.fileName = path then { fileName := source.fileName } else source

namespace Program

/-- A binder makes the program from some files. It is interrupted in those that overflow. -/
structure BoundBy (overflows : Text → SourceFile → Bool) (config : Config)
    (sources : List SourceFile) (b : Binder) (p : Program) (b' : Binder) : Prop where
  config : p.config = config
  files : Binder.BindsAll overflows b (table sources) p.files b'

variable {overflows : Text → SourceFile → Bool} {config : Config} {sources : List SourceFile}
  {p q : Program} {b b' c c' : Binder} {f : BoundFile}

/-- Any binder can make a program from some files. -/
theorem exists_bound_by (overflows : Text → SourceFile → Bool) (config : Config)
    (sources : List SourceFile) (b : Binder) :
    ∃ b', BoundBy overflows config sources b
      ⟨config, (table sources).map (.boundUnless overflows)⟩ b' := by
  obtain ⟨files, b', h⟩ := Binder.exists_binds_all overflows b (table sources)
  exact ⟨b', rfl, (Binder.binds_all_eq h).1 ▸ h⟩

/-- The program of some files is made by any binder that is interrupted where there are too many
levels. -/
theorem bound_by_of_sources (config : Config) (sources : List SourceFile) (b : Binder) :
    ∃ b', BoundBy BoundFile.exceeds config sources b (ofSources config sources) b' := by
  have hfiles : (ofSources config sources).files =
      (table sources).map (.boundUnless BoundFile.exceeds) :=
    List.map_congr_left fun entry _ => BoundFile.of_source_eq
  obtain ⟨b', h⟩ := exists_bound_by BoundFile.exceeds config sources b
  exact ⟨b', rfl, hfiles ▸ h.files⟩

/-- Files stand under different paths. -/
theorem nodup_keys_table (sources : List SourceFile) : ((table sources).map (·.1)).Nodup := by
  have hnodup := (files_of_sources {} sources).2
  have hpaths : (ofSources {} sources).files.map BoundFile.path = (table sources).map (·.1) :=
    List.map_map
  rwa [hpaths] at hnodup

/-- The files of a program have different paths. -/
theorem nodup_of_bound_by (h : BoundBy overflows config sources b p b') :
    (p.files.map (·.path)).Nodup := by
  rw [(Binder.binds_all_eq h.files).1, List.map_map]
  exact (List.map_congr_left fun _ _ => BoundFile.path_bound_unless) ▸ nodup_keys_table sources

/-- With an empty file in place of one that is dropped, a program has the same facts. -/
theorem replaced_of_emptied (hp : BoundBy overflows config sources b p b')
    (hq : BoundBy overflows config (sources.map (.emptiedAt f.path)) c q c') (hf : f ∈ p.files)
    (hdropped : f.isTooDeep = true) :
    ∃ g ∈ q.files, g.statements = [] ∧ f.facts = [] ∧ Replaced p q f g := by
  have hname : ∀ source, (SourceFile.emptiedAt f.path source).fileName = source.fileName := by
    intro source
    unfold SourceFile.emptiedAt
    split <;> rfl
  have hpfiles := (Binder.binds_all_eq hp.files).1
  have hqfiles := (Binder.binds_all_eq hq.files).1
  rw [table_map fun source => congrArg Path.normalize (hname source), List.map_map] at hqfiles
  obtain ⟨entry, hentry, rfl⟩ := List.mem_map.mp (hpfiles ▸ hf)
  rw [BoundFile.path_bound_unless] at hqfiles
  have hempty : (SourceFile.emptiedAt entry.1 entry.2).statements = [] := by
    rw [SourceFile.emptiedAt, if_pos (fst_of_mem_table hentry).symm]
  let g := BoundFile.boundUnless overflows (entry.1, SourceFile.emptiedAt entry.1 entry.2)
  have hg : g.facts = [] ∧ g.statements = [] := BoundFile.facts_of_no_statements hempty
  have hfacts := BoundFile.facts_of_too_deep hdropped
  refine ⟨g, ?_, hg.2, hfacts, ?_⟩
  · rw [hqfiles]
    exact List.mem_map.mpr ⟨entry, hentry, rfl⟩
  · refine ⟨hq.config.trans hp.config.symm, hf, nodup_of_bound_by hp, ?_, ?_,
      hg.1.trans hfacts.symm⟩
    · rw [hqfiles, hpfiles, List.map_map]
      refine List.map_congr_left fun other hother => ?_
      simp only [Function.comp_apply, BoundFile.path_bound_unless]
      split
      · next hpath =>
          rw [List.inj_on_of_nodup_map (nodup_keys_table sources) hother hentry hpath]
      · next hpath =>
          rw [SourceFile.emptiedAt, if_neg fun h => hpath ((fst_of_mem_table hother).trans h)]
    · simp only [g, BoundFile.path_bound_unless]

/-- **Files that are dropped.** Wherever a binder is interrupted in a file, nothing of the file is
kept, and the program answers like that with an empty file in its place, but for the anomalies of
the file; and the scope that all files share stays as it was. The program of some files is one that
is made in this way. -/
theorem dropped_like_empty :
    (∀ config sources b, ∃ b',
      BoundBy BoundFile.exceeds config sources b (ofSources config sources) b') ∧
    ∀ {overflows : Text → SourceFile → Bool} {config : Config} {sources : List SourceFile}
      {p q : Program} {b b' c c' : Binder} {f : BoundFile},
      BoundBy overflows config sources b p b' →
      BoundBy overflows config (sources.map (.emptiedAt f.path)) c q c' →
      f ∈ p.files → f.isTooDeep = true →
      p.HasNothing f.path ∧ ⟨f.path, tooDeepToBind⟩ ∈ p.anomalies ∧
        (∃ g ∈ q.files, g.path = f.path ∧ g.statements = [] ∧ AnswersLike p q f g) ∧
        b'.shared = b.shared ∧ c'.shared = c.shared := by
  refine ⟨bound_by_of_sources, ?_⟩
  intro overflows config sources p q b b' c c' f hp hq hf hdropped
  obtain ⟨g, hg, hempty, hfacts, hreplaced⟩ := replaced_of_emptied hp hq hf hdropped
  have hnothing : p.factsOf f.path = [] := by
    rw [factsOf, hreplaced.file_self.1, Option.map_some, Option.getD_some, hfacts]
  have hnoted : ⟨f.path, tooDeepToBind⟩ ∈ p.anomalies := by
    refine List.mem_append_left _ (List.mem_append_right _ (List.mem_flatMap.mpr ⟨f, hf, ?_⟩))
    exact List.mem_map_of_mem (by simp [hdropped])
  exact ⟨has_nothing_of_facts hnothing, hnoted,
    ⟨g, hg, hreplaced.path, hempty, hreplaced.answers_like⟩,
    (Binder.binds_all_eq hp.files).2, (Binder.binds_all_eq hq.files).2⟩

/-- An exported namespace in a file that overflows, which another file imports. -/
theorem dropped_like_empty_namespace :
    let name (t : String) := Node.identifier {} (Text.ofString t)
    let x := Node.variableStatement {} .const
      [.variableDeclaration {} (name "x") none (some (.numericLiteral {} (Text.ofString "1")))] true
      false
    let exporter : SourceFile :=
      { fileName := Text.ofString "a.ts"
        statements := [.moduleDeclaration {} (name "N") (some (.block {} [x])) true] }
    let importer : SourceFile :=
      { fileName := Text.ofString "b.ts"
        statements := [
          .importDeclaration {} (Text.ofString "./a")
            [.importSpecifier {} (name "N") (some (Text.ofString "N")) false],
          .expressionStatement {} (name "N")] }
    let overflows : Text → SourceFile → Bool := fun path source =>
      path = Text.ofString "a.ts" && !source.statements.isEmpty
    let sources := [exporter, importer]
    let f := BoundFile.dropped (Text.ofString "a.ts") exporter
    let p : Program := ⟨{}, (table sources).map (.boundUnless overflows)⟩
    let q : Program := ⟨{}, (table (sources.map (.emptiedAt f.path))).map (.boundUnless overflows)⟩
    p.HasNothing f.path ∧ ∃ g ∈ q.files, g.path = f.path ∧ g.statements = [] ∧
      AnswersLike p q f g := by
  intro name x exporter importer overflows sources f p q
  obtain ⟨b', hp⟩ := exists_bound_by overflows {} sources {}
  obtain ⟨c', hq⟩ := exists_bound_by overflows {} (sources.map (.emptiedAt f.path)) {}
  have hf : f ∈ p.files := List.mem_cons_self
  obtain ⟨hnothing, -, hanswers, -, -⟩ := dropped_like_empty.2 hp hq hf rfl
  exact ⟨hnothing, hanswers⟩

end Program

end StaticLiteral
