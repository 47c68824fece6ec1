import StaticLiteral.Proofs.Binding.Coverage
import StaticLiteral.Proofs.Binding.Names
import StaticLiteral.Proofs.ParseTree.Forms
import StaticLiteral.Proofs.Program.SharedScopes
import StaticLiteral.Program.Report

/-!
# Uses of names in files

In a file that was parsed and bound, every identifier that is no name has a scope, which ends with
the scope of the file and the one that all files share, and it resolves to its own text exactly if
none of the scopes declares it; every object or type literal has a symbol. The exceptions are inside
of what stands for the name of a declaration and was not understood. `Program.uses_are_bound` puts
this together.
-/

namespace StaticLiteral

/-- A node with a symbol of its own is no identifier. -/
theorem Node.role_of_own {m : Node} {s : BoundSymbol} (h : m.ownSymbol? = some s) :
    m.role = .other ∧ m.isRecorded := by
  cases m with
  | objectLiteral i properties | typeLiteral i members => exact ⟨rfl, rfl⟩
  | _ => cases h

namespace Binding

variable {site target : Site} {n part : Node} {x : NodeId} {scope base : BoundScope}

/-- What is hoisted goes no further than a scope that is no block. -/
theorem suffix_function_chain {frame : Frame ScopeId} (hkind : frame.kind ≠ .block)
    (h : frame :: base <:+ scope) : frame :: base <:+ scope.functionChain := by
  induction scope using ScopeChain.functionChain.induct with
  | case1 inner outer rest hblock ih =>
      rw [ScopeChain.functionChain, if_pos hblock]
      rcases List.suffix_cons_iff.mp h with h | h
      · exact absurd ((List.cons.inj h).1 ▸ hblock) hkind
      · exact ih h
  | case2 inner outer rest hblock =>
      rwa [ScopeChain.functionChain, if_neg hblock]
  | case3 scope hshort =>
      cases scope with
      | nil => exact h
      | cons inner rest =>
          cases rest with
          | nil => exact h
          | cons outer rest => exact absurd rfl (hshort inner outer rest)

/-- What is near a scope that ends with one that is no block ends with it, too. -/
theorem suffix_of_near {frame : Frame ScopeId} {step : Step} (hkind : frame.kind ≠ .block)
    (hnear : Near site n step target) (hsite : frame :: base <:+ site.scope) :
    frame :: base <:+ target.scope := by
  cases hnear with
  | same h => exact h ▸ hsite
  | hoisted h => exact h ▸ suffix_function_chain hkind hsite
  | own kind h => exact h ▸ hsite.trans (List.suffix_cons _ _)
  | method method _ _ h => exact h ▸ hsite.trans (List.suffix_cons _ _)

/-- In a tree whose scope ends with one that is no block, binding comes to every node in such a
scope. -/
theorem Visits.suffix {last : Site} {k : Node} {frame : Frame ScopeId} (hkind : frame.kind ≠ .block)
    (h : Visits site n last k) (hsite : frame :: base <:+ site.scope) :
    frame :: base <:+ last.scope := by
  induction h with
  | here => exact hsite
  | step hstep _ ih =>
      obtain ⟨_, hnear, htaken⟩ := taken_of_mem_steps hstep
      cases htaken
      exact ih (suffix_of_near hkind hnear hsite)

/-- Around a tree whose scope ends with one that is no block, every recorded scope ends so. -/
theorem suffix_of_refers {frame : Frame ScopeId} (hkind : frame.kind ≠ .block)
    (hsite : frame :: base <:+ site.scope) (h : .refers x scope ∈ ofNode site n) :
    frame :: base <:+ scope := by
  revert hsite
  refine fact_induction (fun site n h hsite => ?_)
    (fun site n target part facts _ hstep htaken h hsite => ?_)
    (fun site n target part _ hstep _ ih hsite => ?_) site n h
  · cases established_of_own h with
    | refers => exact hsite
  · cases established_of_taken htaken h with
    | refers => exact suffix_of_near hkind hstep hsite
  · exact ih (suffix_of_near hkind hstep hsite)

/-- An identifier that is exposed has its scope recorded. -/
theorem refers_of_exposed {i : Info} {text : Text} (hwell : n.WellFormed)
    (hexposed : Exposed n (.identifier i text)) (hm : .identifier i text ∈ n.parts) (site : Site) :
    ∃ scope, .refers i.id scope ∈ ofNode site n := by
  obtain ⟨target, hvisits | ⟨j, arguments, hvisits⟩⟩ := visits_of_exposed hwell hexposed hm site
  · exact ⟨target.scope, hvisits.facts_subset (List.mem_singleton_self _)⟩
  · exact ⟨target.scope, hvisits.facts_subset List.mem_cons_self⟩

/-- A literal that is exposed has its symbol recorded. -/
theorem literal_of_exposed {m : Node} {s : BoundSymbol} (hwell : n.WellFormed)
    (hexposed : Exposed n m) (hm : m ∈ n.parts) (hs : m.ownSymbol? = some s) (site : Site) :
    .isLiteral m.id s ∈ ofNode site n := by
  obtain ⟨target, hvisits⟩ := visits_of_exposed_statement site hwell hexposed hm
    (by simp [(Node.role_of_own hs).1])
  refine hvisits.facts_subset ?_
  cases m with
  | objectLiteral i properties | typeLiteral i members =>
      obtain rfl := Option.some.inj hs
      exact List.mem_cons_self
  | _ => cases hs

end Binding

/-- The statements of the file were made from a parse tree. -/
def SourceFile.IsParsed (source : SourceFile) : Prop :=
  ∃ bytes fileName maxNesting parsed file,
    ofParsed bytes fileName maxNesting parsed = .ok file ∧ source.statements = file.statements

namespace BoundFile

/-- Some node of the file has the node as a name. -/
def Names (f : BoundFile) (m : Node) : Prop :=
  ∃ q ∈ f.root.parts, ∃ name ∈ q.names, name.id = m.id

/-- The node is inside of something in the file that stands for the name of a declaration and was
not understood. -/
def Hides (f : BoundFile) (m : Node) : Prop :=
  ∃ q ∈ f.root.parts, ∃ u ∈ q.declaredNames, u.role = .unknown ∧ ∃ part ∈ u.parts, part.id = m.id

instance (f : BoundFile) (m : Node) : Decidable (f.Names m) :=
  inferInstanceAs (Decidable (∃ q ∈ f.root.parts, ∃ name ∈ q.names, name.id = m.id))

instance (f : BoundFile) (m : Node) : Decidable (f.Hides m) :=
  inferInstanceAs (Decidable (∃ q ∈ f.root.parts, ∃ u ∈ q.declaredNames,
    u.role = .unknown ∧ ∃ part ∈ u.parts, part.id = m.id))

variable {path : Text} {source : SourceFile} {m : Node}

/-- The tree of a file that was parsed is well formed. -/
theorem well_formed_root (h : source.IsParsed) : (ofSource path source).root.WellFormed := by
  obtain ⟨bytes, fileName, maxNesting, parsed, file, hparsed, hsame⟩ := h
  have hall := SourceFile.well_formed_of_parsed hparsed
  refine .of_fields rfl ?_
  simp only [root, Node.fields, Field.contents, List.flatMap_cons, List.flatMap_nil,
    List.append_nil, List.nil_append]
  exact Node.forall_place_all fun q hq way => (hall q (hsame ▸ hq)).place path way

/-- A part of a file is exposed in it if it is not hidden and, being an identifier, no name. -/
theorem exposed_root {f : BoundFile} (hrecorded : m.isRecorded)
    (hname : m.role = .name → ¬ f.Names m) (hhides : ¬ f.Hides m) : Binding.Exposed f.root m where
  recorded := hrecorded
  unnamed hrole q hq hmem := hname hrole ⟨q, hq, m, hmem, rfl⟩
  known q hq u hu hrole hmem := hhides ⟨q, hq, u, hu, hrole, m, hmem, rfl⟩

/-- A statement of a file is not inside of anything that stands for a name. -/
theorem not_hides_of_child {f : BoundFile} {x : Node} (hlaid : f.root.Laid)
    (hx : x ∈ f.root.children) : ¬ f.Hides x := by
  rintro ⟨q, hq, u, hu, _, part, hpart, hid⟩
  have hxroot := Node.parts_subset_of_mem_children hx (Node.mem_parts_self x)
  have hchild := Node.names_subset_children q (Node.declared_names_subset_names q hu)
  have hupper := Node.parts_subset hq (Node.parts_subset_of_mem_children hchild hpart)
  obtain rfl := hlaid.eq_of_id_eq hupper hxroot hid
  rw [Node.parts_eq] at hq
  rcases List.mem_cons.mp hq with rfl | hq
  · simp [root, Node.declaredNames] at hu
  · exact hlaid.not_mem_below hx hq (List.mem_flatMap.mpr ⟨u, hchild, hpart⟩)

/-- What binding a file establishes is settled, unless the file is too deep. -/
theorem facts_of_root (hbound : (ofSource path source).isTooDeep = false) :
    ∃ visible, (ofSource path source).facts =
      (Binding.ofNode (site path source) (ofSource path source).root).map
        (Fact.mapSymbol (settle path visible)) :=
  ⟨_, if_neg (of_decide_eq_false hbound)⟩

/-- Every scope that a file records is recorded by binding its tree. -/
theorem refers_of_facts {x : NodeId} {scope : BoundScope}
    (h : .refers x scope ∈ (ofSource path source).facts) :
    .refers x scope ∈ Binding.ofNode (site path source) (ofSource path source).root := by
  obtain ⟨visible, hsettled⟩ := exists_settled path source
  obtain ⟨origin, horigin, heq⟩ := hsettled _ h
  cases origin with
  | refers y other =>
      obtain ⟨rfl, rfl⟩ := Fact.refers.inj heq
      exact horigin
  | _ => cases heq

end BoundFile

namespace Program

variable {config : Config} {sources : List SourceFile} {f : BoundFile} {m : Node} {text : Text}

/-- An identifier that is no name has no symbol of its own. -/
theorem symbol_at_of_not_name {i : Info} (hf : f ∈ (ofSources config sources).files)
    (hm : .identifier i text ∈ f.root.parts) (hname : ¬ f.Names (.identifier i text)) :
    (ofSources config sources).symbolAt? (.identifier i text) =
      (ofSources config sources).lookup? .value text (.identifier i text) := by
  have hfacts := facts_of_placed hf hm
  have hnone : Fact.last? (Fact.named? i.id) f.facts = none := by
    refine Option.eq_none_iff_forall_not_mem.mpr fun s hs => ?_
    obtain ⟨fact, hfact, hnamed⟩ := Fact.last_mem hs
    obtain ⟨path, source, rfl⟩ := (files_of_sources config sources).1 f hf
    obtain ⟨visible, hsettled⟩ := BoundFile.exists_settled path source
    obtain ⟨origin, horigin, rfl⟩ := hsettled fact hfact
    cases origin with
    | names x symbol =>
        simp only [Fact.mapSymbol, Fact.named?, Option.ite_none_right_eq_some] at hnamed
        obtain ⟨part, hid, q, hq, hpart⟩ := Binding.exists_name_of_names horigin
        exact hname ⟨q, hq, part, Node.own_names_subset_names q hpart, hid.trans hnamed.1⟩
    | _ => simp [Fact.mapSymbol, Fact.named?] at hnamed
  have hfile : (Node.identifier i text).id = i.id := rfl
  rw [symbolAt?, hfacts, hfile, hnone]
  rfl

/-- A literal that is not hidden has its own symbol. -/
theorem literal_symbol_of_own {s : BoundSymbol} (hf : f ∈ (ofSources config sources).files)
    (hparsed : f.source.IsParsed) (hbound : f.isTooDeep = false) (hm : m ∈ f.root.parts)
    (hhides : ¬ f.Hides m) (hs : m.ownSymbol? = some s) :
    (ofSources config sources).literalSymbol? m = some s := by
  obtain ⟨path, source, rfl⟩ := (files_of_sources config sources).1 f hf
  obtain ⟨hrole, hrecorded⟩ := Node.role_of_own hs
  have hexposed : Binding.Exposed (BoundFile.ofSource path source).root m :=
    BoundFile.exposed_root hrecorded (fun hname => absurd (hrole.symm.trans hname) (by simp)) hhides
  have horigin := Binding.literal_of_exposed (BoundFile.well_formed_root hparsed) hexposed hm hs
    (BoundFile.site path source)
  obtain ⟨visible, hfacts⟩ := BoundFile.facts_of_root hbound
  have hfact : .isLiteral m.id (BoundFile.settle path visible s) ∈
      (BoundFile.ofSource path source).facts := hfacts ▸ List.mem_map_of_mem horigin
  obtain ⟨t, ht⟩ : ∃ t, Fact.last? (Fact.literal? m.id) (BoundFile.ofSource path source).facts =
      some t := Fact.exists_last hfact (if_pos rfl)
  have hsymbol : (ofSources config sources).literalSymbol? m = some t := by
    rw [literalSymbol?, facts_of_placed hf hm, ht]
  rw [hsymbol, ← own_symbol_of_literal ⟨_, hf, hm⟩ hsymbol, hs]

/-- If binding a file records a scope for an identifier, the identifier is looked up from a scope
that binding the file records for it. -/
theorem scope_of_refers {i : Info} {recorded : BoundScope}
    (hf : f ∈ (ofSources config sources).files) (hbound : f.isTooDeep = false)
    (hm : .identifier i text ∈ f.root.parts)
    (h : .refers i.id recorded ∈ Binding.ofNode (BoundFile.site f.path f.source) f.root) :
    ∃ scope, (ofSources config sources).scopeOf? (.identifier i text) = some scope ∧
      .refers i.id scope ∈ Binding.ofNode (BoundFile.site f.path f.source) f.root := by
  have hplaced := facts_of_placed hf hm
  obtain ⟨path, source, rfl⟩ := (files_of_sources config sources).1 f hf
  obtain ⟨visible, hfacts⟩ := BoundFile.facts_of_root hbound
  have hfact : .refers i.id recorded ∈ (BoundFile.ofSource path source).facts :=
    hfacts ▸ List.mem_map_of_mem h
  obtain ⟨scope, hscope⟩ : ∃ scope, Fact.last? (Fact.scope? i.id)
      (BoundFile.ofSource path source).facts = some scope := Fact.exists_last hfact (if_pos rfl)
  refine ⟨scope, ?_, ?_⟩
  · rw [scopeOf?, hplaced]
    exact hscope
  · obtain ⟨fact, hmem, htells⟩ := Fact.last_mem hscope
    cases fact with
    | refers x other =>
        obtain ⟨rfl, hscope⟩ := Option.ite_none_right_eq_some.mp htells
        exact Option.some.inj hscope ▸ BoundFile.refers_of_facts hmem
    | _ => cases htells

/-- An identifier that is neither a name nor hidden is looked up from a recorded scope. -/
theorem scope_of_use {i : Info} (hf : f ∈ (ofSources config sources).files)
    (hparsed : f.source.IsParsed) (hbound : f.isTooDeep = false)
    (hm : .identifier i text ∈ f.root.parts) (hname : ¬ f.Names (.identifier i text))
    (hhides : ¬ f.Hides (.identifier i text)) :
    ∃ scope, (ofSources config sources).scopeOf? (.identifier i text) = some scope ∧
      [⟨.file f.path, .file⟩, ⟨.global, .global⟩] <:+ scope := by
  have hwell : f.root.WellFormed := by
    obtain ⟨path, source, rfl⟩ := (files_of_sources config sources).1 f hf
    exact BoundFile.well_formed_root hparsed
  have hexposed := BoundFile.exposed_root rfl (fun _ => hname) hhides
  obtain ⟨recorded, horigin⟩ := Binding.refers_of_exposed hwell hexposed hm
    (BoundFile.site f.path f.source)
  obtain ⟨scope, hscope, hrefers⟩ := scope_of_refers hf hbound hm horigin
  exact ⟨scope, hscope, Binding.suffix_of_refers (by simp) (List.suffix_refl _) hrefers⟩

/-- An identifier resolves to its own text if it has no symbol, and else to what its symbol stands
for. -/
theorem resolve_identifier (p : Program) (i : Info) (text : Text) :
    p.resolve (.identifier i text) =
      match p.symbolAt? (.identifier i text) with
      | none => ⟨some (.text text), none⟩
      | some s => .ofAnswer (.identifier i text)
          (Resolution.ofSymbol p.model (Resolution.depthLimit - 1) [] s) := by
  have hdepth : Resolution.depthLimit = (Resolution.depthLimit - 1) + 1 := rfl
  have hsymbol : p.model.symbolAt (.identifier i text) = .ok (p.symbolAt? (.identifier i text)) :=
    rfl
  rw [resolve, Resolution.resolve, hdepth, Resolution.ofNode, hsymbol]
  cases p.symbolAt? (.identifier i text) <;> rfl

/-- Every use of a name in a file that was parsed and bound is bound, unless it is hidden. An
identifier that is no name has a scope, which ends with that of the file and the one that all files
share; it is looked up there, and it resolves to its own text exactly if none of these scopes
declares it. An object or type literal has its own symbol. -/
theorem uses_are_bound {config : Config} {sources : List SourceFile} {f : BoundFile}
    (hf : f ∈ (ofSources config sources).files) (hparsed : f.source.IsParsed)
    (hbound : f.isTooDeep = false) {m : Node} (hm : m ∈ f.root.parts) (hhides : ¬ f.Hides m) :
    let p := ofSources config sources
    (∀ i text, m = .identifier i text → ¬ f.Names m →
      ∃ scope, p.scopeOf? m = some scope ∧
        [⟨.file f.path, .file⟩, ⟨.global, .global⟩] <:+ scope ∧
        p.symbolAt? m = scope.lookup p.declared? .value text ∧
        (p.symbolAt? m = none ↔ ∀ frame ∈ scope, p.declared? frame.id .value text = none) ∧
        p.resolve m = match p.symbolAt? m with
          | none => ⟨some (.text text), none⟩
          | some s => .ofAnswer m (Resolution.ofSymbol p.model (Resolution.depthLimit - 1) [] s)) ∧
    (∀ i properties, m = .objectLiteral i properties →
      p.literalSymbol? m = some (literalSymbol .objectLiteral "__object" m)) ∧
    (∀ i members, m = .typeLiteral i members →
      p.literalSymbol? m = some (literalSymbol .typeLiteral "__type" m)) := by
  intro p
  refine ⟨?_, ?_, ?_⟩
  · rintro i text rfl hname
    obtain ⟨scope, hscope, hsuffix⟩ := scope_of_use hf hparsed hbound hm hname hhides
    have hlookup : p.symbolAt? (.identifier i text) = scope.lookup p.declared? .value text := by
      rw [symbol_at_of_not_name hf hm hname, lookup?, hscope]
      rfl
    refine ⟨scope, hscope, hsuffix, hlookup, ?_, resolve_identifier p i text⟩
    rw [hlookup, ScopeChain.lookup, List.findSome?_eq_none_iff]
  · rintro i properties rfl
    exact literal_symbol_of_own hf hparsed hbound hm hhides rfl
  · rintro i members rfl
    exact literal_symbol_of_own hf hparsed hbound hm hhides rfl

/-- The law at a function without a declaration of what its body mentions. -/
theorem uses_are_bound_in_arrow_function :
    let token (type : String) (start stop : Nat) := ParseTree.node type false start stop none []
    let name (start : Nat) (field : Option String) :=
      ParseTree.node "identifier" true start (start + 1) field []
    let array := ParseTree.node "array" true 3 9 (some "body")
      [token "[" 3 4, name 4 none, token "," 5 6, .node "object" true 6 8 none [], token "]" 8 9]
    let function := ParseTree.node "arrow_function" true 0 9 none
      [name 0 (some "parameter"), token "=>" 1 3, array]
    let tree := ParseTree.node "program" true 0 9 none
      [.node "expression_statement" true 0 9 none [function]]
    let info (start stop : Nat) : Info := { span := some ⟨1, start, 1, stop⟩ }
    let use := Node.identifier (info 4 5) (Text.ofString "g")
    let literal := Node.objectLiteral (info 6 8) []
    let source : SourceFile :=
      { fileName := Text.ofString "a.ts"
        statements := [.expressionStatement (info 0 9) (.functionExpression (info 0 9) none
          [.parameter (info 0 1) (.identifier (info 0 1) (Text.ofString "f")) none none]
          (some (.arrayLiteral (info 3 9) [use, literal])))]
        span := some ⟨1, 0, 1, 9⟩ }
    let place (index : Nat) := Node.place (Text.ofString "a.ts") [index, 0, 2, 0, 0, 0]
    SourceFile.ofParsed (Utf8.encode (Text.ofString "f=>[g,\x7b\x7d]")) (Text.ofString "a.ts") 100
        ⟨tree, false⟩ = .ok source ∧
      (ofSources {} [source]).resolve (place 0 use) = ⟨some (.text (Text.ofString "g")), none⟩ ∧
      (ofSources {} [source]).literalSymbol? (place 1 literal) =
        some (literalSymbol .objectLiteral "__object" (place 1 literal)) := by
  intro token name array function tree info use literal source place
  have hparsed : SourceFile.ofParsed (Utf8.encode (Text.ofString "f=>[g,\x7b\x7d]"))
      (Text.ofString "a.ts") 100 ⟨tree, false⟩ = .ok source := rfl
  have hfile : source.bound ∈ (ofSources {} [source]).files := List.mem_singleton_self _
  have hsource : source.bound.source.IsParsed := ⟨_, _, _, _, source, hparsed, rfl⟩
  have huse : place 0 use ∈ source.bound.root.parts := List.mem_of_getElem? (i := 6) (by cbv)
  have hliteral : place 1 literal ∈ source.bound.root.parts :=
    List.mem_of_getElem? (i := 7) (by cbv)
  have hbound : source.bound.isTooDeep = false := by decide
  refine ⟨hparsed, ?_, ?_⟩
  · obtain ⟨scope, _, _, _, _, hresolve⟩ := (uses_are_bound hfile hsource hbound huse
      (by decide +kernel)).1 _ _ rfl (by decide +kernel)
    have hnone : (ofSources {} [source]).symbolAt? (place 0 use) = none :=
      Option.isNone_iff_eq_none.mp (by decide +kernel)
    rw [hresolve, hnone]
  · exact (uses_are_bound hfile hsource hbound hliteral (by decide +kernel)).2.1 _ _ rfl

end Program

end StaticLiteral
