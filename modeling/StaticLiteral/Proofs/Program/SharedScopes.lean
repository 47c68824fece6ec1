import StaticLiteral.Proofs.Program.Declarations

/-!
# Scopes that files share

Around the scopes of all files there is a scope that they share, with the names that every file can
use. What binding a file declares it declares in scopes of its own (`own_of_declares`): so it makes
no difference whether every file is asked about its own scopes or all declarations stand in one
table (`declared_eq_latest`), the shared scope holds the same names afterwards, and what is looked
up in a file was declared there or is one of these names (`lookup_in_file`).
-/

namespace StaticLiteral

/-- The scope is that of the file or of a node in it. -/
def ScopeId.IsOf (path : Text) (scope : ScopeId) : Prop :=
  scope = .file path ∨ ∃ x : NodeId, scope = .node x ∧ x.file = path

/-- A scope is of one file at most. -/
theorem ScopeId.IsOf.unique {path other : Text} {scope : ScopeId} (h : scope.IsOf path)
    (h' : scope.IsOf other) : path = other := by
  rcases h with rfl | ⟨x, rfl, rfl⟩ <;> rcases h' with h' | ⟨y, h', rfl⟩ <;> cases h' <;> rfl

/-- The scope that all files share is of no file. -/
theorem ScopeId.not_is_of_global (path : Text) : ¬ ScopeId.global.IsOf path := by
  rintro (h | ⟨_, h, _⟩) <;> cases h

/-- Functions that agree on the elements of a list find the same there. -/
theorem find_some_congr {α β : Type} {f g : α → Option β} {xs : List α}
    (h : ∀ x ∈ xs, g x = f x) : xs.findSome? g = xs.findSome? f := by
  induction xs with
  | nil => rfl
  | cons x rest ih =>
      rw [List.findSome?_cons, List.findSome?_cons, h x (by simp),
        ih fun y hy => h y (List.mem_cons_of_mem _ hy)]

namespace BoundFile

open Binding

/-- In the tree of a file, names are declared in scopes of the file only. -/
theorem own_of_declares_in_tree {path : Text} {source : SourceFile}
    {d : Declared ScopeId BoundSymbol}
    (h : .declares d ∈ ofNode (site path source) (ofSource path source).root) :
    d.frame.IsOf path := by
  -- The scope of the file is no block, so nothing is hoisted beyond it.
  have hheld : Held (ScopeId.IsOf path) (site path source).scope := .mk (.inl rfl) nofun
  exact confined_of_mem hheld (fun m hm => .inr ⟨m.id, rfl,
    ((laid_root path source).encloses hm).1.symm⟩) h

/-- A file declares names in its own scopes only. -/
theorem own_of_declares {path : Text} {source : SourceFile} {d : Declared ScopeId BoundSymbol}
    (h : .declares d ∈ (ofSource path source).facts) : d.frame.IsOf path := by
  obtain ⟨visible, hsettled⟩ := exists_settled path source
  obtain ⟨origin, horigin, heq⟩ := hsettled _ h
  cases origin with
  | declares e =>
      obtain rfl := Fact.declares.inj heq
      exact (own_of_declares_in_tree horigin : e.frame.IsOf path)
  | _ => cases heq

end BoundFile

namespace Program

/-- The declarations of names that every file can use. -/
def ambientDeclarations : List (Declared ScopeId BoundSymbol) :=
  ambientNames.map fun name => ⟨.global, .value, name, ambientSymbol name⟩

/-- The declarations of all files in one table, behind the names that every file can use. -/
def declarations (p : Program) : List (Declared ScopeId BoundSymbol) :=
  ambientDeclarations ++ p.files.flatMap fun f => f.facts.filterMap Fact.declared?

section

variable {declarations : List (Declared ScopeId BoundSymbol)} {scope : ScopeId} {space : Space}
  {name : Text}

/-- What a scope declares does not depend on other scopes. -/
theorem latest_filter : Declared.latest? (declarations.filter (·.frame = scope)) scope space name =
    Declared.latest? declarations scope space name := by
  rw [Declared.latest?, ← List.filter_reverse, List.find?_filter, Declared.latest?]
  congr 2
  funext d
  by_cases h : d.frame = scope <;> simp [h]

/-- The names in a scope do not depend on other scopes. -/
theorem names_filter : Declared.names (declarations.filter (·.frame = scope)) scope space =
    Declared.names declarations scope space := by
  rw [Declared.names, List.filter_filter, Declared.names]
  congr 3
  funext d
  by_cases h : d.frame = scope <;> simp [h]

end

/-- A name that every file can use is declared once, as a value. -/
theorem latest_ambient_declarations {space : Space} {name : Text} :
    Declared.latest? ambientDeclarations .global space name =
      if space = .value && ambientNames.contains name then some (ambientSymbol name) else none := by
  rw [Declared.latest?, ambientDeclarations, ← List.map_reverse, List.find?_map, Option.map_map]
  cases hfind : ambientNames.reverse.find? _ with
  | none =>
      rw [List.find?_eq_none] at hfind
      rw [if_neg]
      · rfl
      · simp only [Bool.and_eq_true, decide_eq_true_eq, List.contains_iff_mem, not_and]
        rintro rfl hname
        exact hfind name (List.mem_reverse.mpr hname) (by simp)
  | some word =>
      have hword := List.find?_some hfind
      simp only [Function.comp_apply, Bool.and_eq_true, decide_eq_true_eq, true_and] at hword
      obtain ⟨rfl, rfl⟩ := hword
      rw [if_pos]
      · rfl
      · simpa using List.mem_reverse.mp (List.mem_of_find?_eq_some hfind)

/-- What only the file under a path has, the files have of that file. -/
theorem flat_map_files {α : Type} {files : List BoundFile} (hnodup : (files.map (·.path)).Nodup)
    {g : BoundFile → List α} {path : Text} (h : ∀ f ∈ files, f.path ≠ path → g f = []) :
    files.flatMap g = ((files.find? (·.path = path)).map g).getD [] := by
  induction files with
  | nil => rfl
  | cons f rest ih =>
      rw [List.map_cons, List.nodup_cons] at hnodup
      have hrest := fun f hf => h f (List.mem_cons_of_mem _ hf)
      rw [List.flatMap_cons, List.find?_cons]
      by_cases hpath : f.path = path
      · have hnone : rest.flatMap g = [] := by
          refine List.flatMap_eq_nil_iff.mpr fun other hother => hrest other hother fun heq => ?_
          exact hnodup.1 (List.mem_map.mpr ⟨other, hother, heq.trans hpath.symm⟩)
        simp [hpath, hnone]
      · simp [hpath, h f (by simp) hpath, ih hnodup.2 hrest]

variable {config : Config} {sources : List SourceFile} {f : BoundFile} {n : Node} {s : BoundSymbol}
  {scope : ScopeId} {space : Space} {name : Text}

/-- The declarations of a file of the program are in scopes of its own. -/
theorem is_of_of_mem (hf : f ∈ (ofSources config sources).files)
    {d : Declared ScopeId BoundSymbol} (h : d ∈ f.facts.filterMap Fact.declared?) :
    d.frame.IsOf f.path := by
  obtain ⟨path, source, rfl⟩ := (files_of_sources config sources).1 f hf
  obtain ⟨fact, hfact, hd⟩ := List.mem_filterMap.mp h
  cases fact with
  | declares e =>
      obtain rfl := Option.some.inj hd
      exact BoundFile.own_of_declares hfact
  | _ => cases hd

/-- In a scope of a file, the table of all declarations has what that file declares. -/
theorem filter_declarations {path : Text} (h : scope.IsOf path) :
    (ofSources config sources).declarations.filter (·.frame = scope) =
      (((ofSources config sources).factsOf path).filterMap Fact.declared?).filter
        (·.frame = scope) := by
  have hambient : ambientDeclarations.filter (·.frame = scope) = [] := by
    rw [List.filter_eq_nil_iff]
    intro d hd heq
    obtain ⟨word, _, rfl⟩ := List.mem_map.mp hd
    obtain rfl : .global = scope := of_decide_eq_true heq
    exact ScopeId.not_is_of_global path h
  have hother : ∀ f ∈ (ofSources config sources).files, f.path ≠ path →
      (f.facts.filterMap Fact.declared?).filter (·.frame = scope) = [] := by
    intro f hf hne
    rw [List.filter_eq_nil_iff]
    intro d hd heq
    exact hne ((of_decide_eq_true heq ▸ is_of_of_mem hf hd).unique h)
  rw [declarations, List.filter_append, hambient, List.nil_append, List.filter_flatMap,
    flat_map_files (files_of_sources config sources).2 hother, factsOf, file?]
  cases List.find? _ (ofSources config sources).files <;> rfl

/-- In the scope that all files share, the table has the names that every file can use. -/
theorem filter_declarations_global :
    (ofSources config sources).declarations.filter (·.frame = .global) = ambientDeclarations := by
  have hfiles : ((ofSources config sources).files.flatMap fun f =>
      f.facts.filterMap Fact.declared?).filter (·.frame = .global) = [] := by
    rw [List.filter_eq_nil_iff]
    intro d hd heq
    obtain ⟨f, hf, hd⟩ := List.mem_flatMap.mp hd
    exact ScopeId.not_is_of_global f.path (of_decide_eq_true heq ▸ is_of_of_mem hf hd)
  rw [declarations, List.filter_append, hfiles, List.append_nil]
  rfl

/-- A name in a scope is what the table of all declarations says, although only the file of the
scope is asked. -/
theorem declared_eq_latest (config : Config) (sources : List SourceFile) (scope : ScopeId)
    (space : Space) (name : Text) :
    (ofSources config sources).declared? scope space name =
      Declared.latest? (ofSources config sources).declarations scope space name := by
  rw [← latest_filter]
  cases scope with
  | global =>
      rw [filter_declarations_global]
      exact latest_ambient_declarations.symm
  | file path =>
      rw [filter_declarations (.inl rfl), latest_filter]
      rfl
  | node x =>
      rw [filter_declarations (.inr ⟨x, rfl, rfl⟩), latest_filter]
      rfl

/-- The scope that all files share holds the names that every file can use, and no types. -/
theorem names_global (config : Config) (sources : List SourceFile) :
    Declared.names (ofSources config sources).declarations .global .value = ambientNames ∧
      Declared.names (ofSources config sources).declarations .global .type = [] := by
  constructor <;> rw [← names_filter, filter_declarations_global] <;> rfl

/-- A scope of a file is asked for in the facts of that file. -/
theorem declared_of_is_of {p : Program} {path : Text} (h : scope.IsOf path) :
    p.declared? scope = Fact.declaredIn? (p.factsOf path) scope := by
  rcases h with rfl | ⟨x, rfl, rfl⟩ <;> rfl

/-- Around a place in a file are scopes of the file, and the one that all files share. -/
theorem frames_of_scope (hf : f ∈ (ofSources config sources).files) (hn : n ∈ f.root.parts)
    {recorded : BoundScope} (h : (ofSources config sources).scopeOf? n = some recorded) :
    ∀ frame ∈ recorded, frame.id = .global ∨ frame.id.IsOf f.path := by
  intro frame hframe
  rw [scopeOf?, facts_of_placed hf hn] at h
  obtain ⟨⟨path, source⟩, hentry, rfl⟩ := List.mem_map.mp hf
  obtain rfl : path = Path.normalize source.fileName := fst_of_mem_table hentry
  rcases SourceFile.surrounds_of_scope h frame hframe with hmem | ⟨y, hy, henc⟩
  · rcases List.mem_cons.mp hmem with rfl | hmem
    · exact .inr (.inl rfl)
    · exact .inl (congrArg Frame.id (List.mem_singleton.mp hmem))
  · refine .inr (.inr ⟨y, hy, henc.1.trans ?_⟩)
    exact ((BoundFile.laid_root _ source).encloses hn).1.symm

/-- What is looked up in a file is declared by a fact of that file, or is a name that every file can
use. -/
theorem lookup_in_file (hf : f ∈ (ofSources config sources).files) (hn : n ∈ f.root.parts)
    (h : (ofSources config sources).lookup? space name n = some s) :
    (space = .value ∧ name ∈ ambientNames ∧ s = ambientSymbol name) ∨
      ∃ fact ∈ f.facts, fact.symbol? = some s := by
  obtain ⟨recorded, hrecorded, h⟩ := Option.bind_eq_some_iff.mp h
  obtain ⟨frame, hframe, h⟩ := List.exists_of_findSome?_eq_some h
  rcases frames_of_scope hf hn hrecorded frame hframe with hglobal | hown
  · rw [hglobal] at h
    simp only [declared?, Option.ite_none_right_eq_some, Option.some.injEq, Bool.and_eq_true,
      decide_eq_true_eq, List.contains_iff_mem] at h
    exact .inl ⟨h.1.1, h.1.2, h.2.symm⟩
  · rw [declared_of_is_of hown, factsOf, file_eq_of_mem hf] at h
    exact .inr (Fact.declared_in_mem h)

end Program

end StaticLiteral
