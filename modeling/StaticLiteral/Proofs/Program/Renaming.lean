import StaticLiteral.Proofs.Binding.Origins
import StaticLiteral.Proofs.Binding.Renamed
import StaticLiteral.Proofs.Program.Declarations

/-!
# Programs with a name spelled differently

Where the name of a declaration is spelled differently, names are looked up from the same scopes,
and as the same symbols unless that is the symbol of the name: `lookup_renamed`. In files that
stand under their own names the facts are the same but for the name: `facts_of_renamed`.
-/

namespace StaticLiteral

open Binding

/-- The file with the identifier `target` spelled `fresh` if it is one of its identifiers. -/
def SourceFile.renamed (target : NodeId) (fresh : Text) (source : SourceFile) : SourceFile :=
  { source with
    statements := (Node.placeAll (Path.normalize source.fileName) [0] 0 source.statements).map
      (Node.renamed target fresh) }

/-- A renamed file keeps its own name. -/
theorem SourceFile.file_name_renamed (target : NodeId) (fresh : Text) (source : SourceFile) :
    (source.renamed target fresh).fileName = source.fileName := rfl

/-- The facts of a file before aliases are settled. -/
def SourceFile.unsettled (source : SourceFile) : List Fact :=
  if source.bound.isTooDeep then [] else ofNode source.site source.bound.root

variable {target : NodeId} {fresh : Text}

/-- A symbol that is not the target keeps its outline. -/
theorem Symbol.outline_renamed {symbol : BoundSymbol} (h : symbol.id ≠ .node target) :
    (symbol.renamed target fresh).outline = symbol.outline := by
  simp [outline, renamed, spelled_eq_self h, Function.comp_def]

/-- A fact stays if the symbol that it is about stays. -/
theorem Fact.map_symbol_eq_self {f : BoundSymbol → BoundSymbol} {fact : Fact}
    (h : ∀ symbol, fact.symbol? = some symbol → f symbol = symbol) : fact.mapSymbol f = fact := by
  cases fact <;> simp_all [mapSymbol, symbol?]

/-- Aliases are settled alike under any name. -/
theorem BoundFile.settle_renamed (path : Text) (visible : List SymbolId) (fact : Fact) :
    (fact.renamed target fresh).mapSymbol (settle path visible) =
      (fact.mapSymbol (settle path visible)).renamed target fresh := by
  have hsettle : ∀ symbol : BoundSymbol, settle path visible (symbol.renamed target fresh) =
      (settle path visible symbol).renamed target fresh := by
    intro symbol
    cases symbol with
    | mk id name kind declaration isConst =>
        cases kind with
        | aliasOf origin => by_cases h : id ∈ visible <;> simp [settle, Symbol.renamed, h]
        | _ => rfl
  cases fact with
  | declares d | enters table name symbol =>
      simp only [Fact.renamed, Fact.mapSymbol, hsettle, id_settle]
  | names node symbol | isLiteral node symbol =>
      simp only [Fact.renamed, Fact.mapSymbol, hsettle]
  | _ => rfl

/-- Renamed facts are settled as the facts are, if the facts are settled already or stay. -/
theorem BoundFile.settled_renamed {path : Text} {facts : List Fact}
    (h : (∀ fact ∈ facts, ∀ visible, fact.mapSymbol (settle path visible) = fact) ∨
      facts.map (Fact.renamed target fresh) = facts) :
    settled path (facts.map (Fact.renamed target fresh)) =
      (settled path facts).map (Fact.renamed target fresh) := by
  rcases h with h | h
  · rw [settled, settled, List.map_map, List.map_map]
    refine List.map_congr_left fun fact hfact => ?_
    simp only [Function.comp_apply, settle_renamed, h fact hfact]
  · have hmap : ∀ visible, (facts.map (Fact.mapSymbol (settle path visible))).map
        (Fact.renamed target fresh) = facts.map (Fact.mapSymbol (settle path visible)) := by
      intro visible
      conv_rhs => rw [← h]
      rw [List.map_map, List.map_map]
      exact List.map_congr_left fun fact _ => (settle_renamed path visible fact).symm
    rw [h, settled, hmap]

namespace SourceFile

variable {source : SourceFile}

/-- The facts of a file are settled. -/
theorem facts_eq_settled (source : SourceFile) :
    source.bound.facts = BoundFile.settled source.bound.path source.unsettled := by
  cases hdeep : source.bound.isTooDeep with
  | false => rw [facts_eq hdeep, unsettled, hdeep]; rfl
  | true =>
      have hnone : source.bound.facts = [] := if_pos (of_decide_eq_true hdeep)
      rw [hnone, unsettled, hdeep]
      rfl

/-- The tree of a renamed file is the renamed tree. -/
theorem root_renamed (target : NodeId) (fresh : Text) (source : SourceFile) :
    (source.renamed target fresh).bound.root = source.bound.root.renamed target fresh := by
  rw [Node.renamed_eq rfl]
  simp only [bound, BoundFile.root, BoundFile.ofSource, renamed, Node.place_all_renamed_place,
    Node.mapChildren]

/-- A renamed file is as deep as before. -/
theorem is_too_deep_renamed (target : NodeId) (fresh : Text) (source : SourceFile) :
    (source.renamed target fresh).bound.isTooDeep = source.bound.isTooDeep := by
  simp only [bound, BoundFile.ofSource, renamed, Node.place_all_renamed_place,
    Node.height_of_all_renamed]

/-- The facts of a renamed file, before aliases are settled, are the renamed facts. -/
theorem unsettled_renamed (fresh : Text)
    (h : ∀ part ∈ source.bound.root.parts, part.Spares target) :
    (source.renamed target fresh).unsettled =
      source.unsettled.map (Fact.renamed target fresh) := by
  have hsite : (source.renamed target fresh).site = source.site := rfl
  rw [unsettled, unsettled, is_too_deep_renamed, root_renamed, hsite, of_node_renamed _ h]
  split <;> rfl

/-- In a file that stands under its own name every alias is settled. -/
theorem map_symbol_settle (hname : source.fileName = source.bound.path) {fact : Fact}
    (h : fact ∈ source.unsettled) (visible : List SymbolId) :
    fact.mapSymbol (BoundFile.settle source.bound.path visible) = fact := by
  refine Fact.map_symbol_eq_self fun symbol hsymbol => ?_
  obtain ⟨id, name, kind, declaration, isConst⟩ := symbol
  cases kind with
  | aliasOf origin =>
      unfold unsettled at h
      split at h
      · simp at h
      · have hfile := (origin_of_mem h hsymbol rfl).1
        have hsettled : { origin with sourceFile := some source.bound.path } = origin := by
          rw [← hname]
          exact hfile ▸ rfl
        simp [BoundFile.settle, hsettled]
  | _ => rfl

/-- A file without the target is as it was. -/
theorem unsettled_renamed_eq_self (h : ∀ part ∈ source.bound.root.parts, part.id ≠ target) :
    (source.renamed target fresh).unsettled = source.unsettled := by
  have hsite : (source.renamed target fresh).site = source.site := rfl
  rw [unsettled, unsettled, is_too_deep_renamed, root_renamed, hsite, Node.renamed_eq_self h]

/-- The facts of a renamed file are the renamed facts, if the file stands under its own name or
does not have the target. -/
theorem facts_renamed (hspares : ∀ part ∈ source.bound.root.parts, part.Spares target)
    (h : source.fileName = source.bound.path ∨
      ∀ part ∈ source.bound.root.parts, part.id ≠ target) :
    (source.renamed target fresh).bound.facts =
      source.bound.facts.map (Fact.renamed target fresh) := by
  have hunsettled := unsettled_renamed fresh hspares
  rw [facts_eq_settled, facts_eq_settled, hunsettled]
  refine BoundFile.settled_renamed ?_
  rcases h with hname | hother
  · exact .inl fun fact hfact => map_symbol_settle hname hfact
  · exact .inr (hunsettled.symm.trans (unsettled_renamed_eq_self hother))

/-- The symbol of a renamed file as a module is renamed. -/
theorem module_symbol_renamed (target : NodeId) (fresh : Text) (source : SourceFile) :
    (source.renamed target fresh).bound.moduleSymbol =
      source.bound.moduleSymbol.renamed target fresh := by
  simp only [BoundFile.moduleSymbol, root_renamed, Symbol.renamed, Option.map_some]
  rfl

end SourceFile

/-! ## Programs -/

namespace Program

variable {config : Config} {sources : List SourceFile} {n m : Node} {frame : ScopeId}
  {space : Space} {name : Text} {symbol : BoundSymbol}

/-- If the target stands in the program it is a name, and not what is exported by default. -/
def Spares (p : Program) (target : NodeId) : Prop :=
  ∀ f ∈ p.files, ∀ part ∈ f.root.parts, part.Spares target

/-- Names of nodes can be spelled differently. -/
theorem spares_of_name {f : BoundFile} {q leaf : Node} {text : Text}
    (hf : f ∈ (ofSources config sources).files) (hq : q ∈ f.root.parts) (hleaf : leaf ∈ q.names)
    (hname : leaf.identifier? = some text) : (ofSources config sources).Spares leaf.id := by
  have hrole : leaf.role = .name := by
    cases leaf with
    | identifier i text => rfl
    | _ => cases hname
  have hpart := Node.parts_subset hq (Node.mem_parts_of_mem_names hleaf)
  intro g hg part hmem
  by_cases hfile : g = f
  · subst hfile
    obtain ⟨source, rfl⟩ := exists_source hf
    exact Binding.spares_of_name source.laid_bound hq hleaf hrole hmem
  · refine ⟨fun hid => absurd (file_eq_of_id_eq hg hf hmem hpart hid) hfile, ?_⟩
    rintro i e rfl hid
    refine hfile (file_eq_of_id_eq hg hf (Node.parts_subset hmem ?_) hpart hid)
    refine Node.parts_subset_of_mem_children ?_ (Node.mem_parts_self e)
    simp [Node.children_eq, Node.fields, Field.contents]

/-- Renamed files are found where the files were found. -/
theorem file_renamed (path : Text) :
    (ofSources config (sources.map (SourceFile.renamed target fresh))).file? path =
      ((ofSources config sources).file? path).map
        fun f => (f.source.renamed target fresh).bound :=
  file_map (fun source => congrArg Path.normalize (source.file_name_renamed target fresh)) path

/-- The facts of a file, whether it is there or not, are settled, and so are the renamed facts. -/
theorem exists_settled_facts (fresh : Text) (h : (ofSources config sources).Spares target)
    (path : Text) :
    ∃ facts, (ofSources config sources).factsOf path = BoundFile.settled path facts ∧
      (ofSources config (sources.map (SourceFile.renamed target fresh))).factsOf path =
        BoundFile.settled path (facts.map (Fact.renamed target fresh)) := by
  rw [factsOf, factsOf, file_renamed]
  cases hfile : (ofSources config sources).file? path with
  | none => exact ⟨[], rfl, rfl⟩
  | some f =>
      have hf := List.mem_of_find?_eq_some hfile
      have hpath : f.path = path := by simpa using List.find?_some hfile
      obtain ⟨source, rfl⟩ := exists_source hf
      subst hpath
      refine ⟨source.unsettled, source.facts_eq_settled, ?_⟩
      rw [← SourceFile.unsettled_renamed fresh (h _ hf)]
      exact (source.renamed target fresh).facts_eq_settled

/-- Places are looked up from the same scopes. -/
theorem scope_renamed (h : (ofSources config sources).Spares target) (hid : m.id = n.id) :
    (ofSources config (sources.map (SourceFile.renamed target fresh))).scopeOf? m =
      (ofSources config sources).scopeOf? n := by
  obtain ⟨facts, hp, hq⟩ := exists_settled_facts fresh h n.id.file
  rw [scopeOf?, scopeOf?, hid, hp, hq, BoundFile.last_scope_settled, BoundFile.last_scope_settled,
    last_scope_renamed]

/-- In the frames of a file, a name other than the new one is that of the same symbol, unless it
was the name of the target. -/
theorem outline_declared_renamed (h : (ofSources config sources).Spares target)
    (hne : fresh ≠ name)
    (hkept : ∀ s, (ofSources config sources).declared? frame space name = some s →
      s.id ≠ .node target) :
    ((ofSources config (sources.map (SourceFile.renamed target fresh))).declared? frame space
        name).map Symbol.outline =
      ((ofSources config sources).declared? frame space name).map Symbol.outline := by
  have hpath : ∀ path, (∀ s, Fact.declaredIn? ((ofSources config sources).factsOf path) frame space
        name = some s → s.id ≠ .node target) →
      (Fact.declaredIn? ((ofSources config (sources.map
          (SourceFile.renamed target fresh))).factsOf path) frame space name).map Symbol.outline =
        (Fact.declaredIn? ((ofSources config sources).factsOf path) frame space name).map
          Symbol.outline := by
    intro path hkept
    obtain ⟨facts, hp, hq⟩ := exists_settled_facts fresh h path
    have houtline := BoundFile.outline_declared_in_settled path facts frame space name
    rw [hp] at hkept ⊢
    have hunsettled : ∀ s, Fact.declaredIn? facts frame space name = some s →
        s.id ≠ .node target := by
      intro s hs
      rw [hs] at houtline
      obtain ⟨same, hsame, hid⟩ := Option.map_eq_some_iff.mp houtline
      exact Symbol.id_eq_of_outline_eq hid ▸ hkept same hsame
    rw [hq, houtline, BoundFile.outline_declared_in_settled]
    rw [declared_in_eq_last] at hunsettled ⊢
    rw [declared_in_eq_last, last_renamed (declared_at_renamed hne frame space) hunsettled,
      Option.map_map]
    exact Option.map_congr fun s hs => Symbol.outline_renamed (hunsettled s hs)
  cases frame with
  | global => rfl
  | file path => exact hpath path hkept
  | node id => exact hpath id.file hkept

/-- In no frame is a name other than the new one that of the target. -/
theorem id_of_declared_renamed (h : (ofSources config sources).Spares target)
    (hne : fresh ≠ name)
    (hfound : (ofSources config (sources.map (SourceFile.renamed target fresh))).declared? frame
      space name = some symbol) : symbol.id ≠ .node target := by
  have hpath : ∀ path, Fact.declaredIn? ((ofSources config (sources.map
      (SourceFile.renamed target fresh))).factsOf path) frame space name = some symbol →
      symbol.id ≠ .node target := by
    intro path hfound
    obtain ⟨facts, _, hq⟩ := exists_settled_facts fresh h path
    have houtline := BoundFile.outline_declared_in_settled path
      (facts.map (Fact.renamed target fresh)) frame space name
    rw [hq] at hfound
    rw [hfound] at houtline
    obtain ⟨same, hsame, hid⟩ := Option.map_eq_some_iff.mp houtline.symm
    rw [declared_in_eq_last] at hsame
    rw [← Symbol.id_eq_of_outline_eq hid]
    exact id_of_last_renamed (declared_at_renamed hne frame space) hsame
  cases frame with
  | global =>
      simp only [declared?, Option.ite_none_right_eq_some, Option.some.injEq] at hfound
      rw [← hfound.2]
      intro hid
      cases hid
  | file path => exact hpath path hfound
  | node id => exact hpath id.file hfound

/-- A name other than the new one is looked up as the same symbol exactly if that was not the
target. -/
theorem lookup_renamed_iff (h : (ofSources config sources).Spares target) (hne : fresh ≠ name)
    (n : Node) (space : Space) :
    ((ofSources config (sources.map (SourceFile.renamed target fresh))).lookup? space name n).map
          Symbol.outline =
        ((ofSources config sources).lookup? space name n).map Symbol.outline ↔
      ∀ s, (ofSources config sources).lookup? space name n = some s → s.id ≠ .node target := by
  rw [lookup?, lookup?, scope_renamed h rfl]
  cases hscope : (ofSources config sources).scopeOf? n with
  | none => simp
  | some scope =>
      have hcongr : ∀ {s same : BoundSymbol}, s.outline = same.outline →
          (s.id = .node target ↔ same.id = .node target) := fun houtline => by
        rw [Symbol.id_eq_of_outline_eq houtline]
      exact lookup_outline_iff hcongr
        (fun frame _ hkept => outline_declared_renamed h hne hkept)
        fun frame _ s hs => id_of_declared_renamed h hne hs

end Program

end StaticLiteral
