import StaticLiteral.Proofs.Program.Declarations

/-!
# The keys of object literals

`Visits` says which nodes binding a tree comes to. Of an object literal that it comes to it declares
the properties, so a key that is written as a name names the property: `symbol_at_key`. Keys inside
of nodes that it never comes to name nothing.
-/

namespace StaticLiteral

namespace Binding

open Node

/-- Binding the first node at its site binds the second one on the way, at a site of its own. -/
inductive Visits : Site → Node → Site → Node → Prop
  | here (site : Site) (n : Node) : Visits site n site n
  | step {site target last : Site} {n m k : Node} (hstep : .visit target m ∈ steps site n)
      (h : Visits target m last k) : Visits site n last k

namespace Visits

variable {site target last : Site} {n m k : Node}

/-- Binding goes on from a node that it comes to. -/
theorem next (h : Visits site n target m) (hstep : .visit last k ∈ steps target m) :
    Visits site n last k := by
  induction h with
  | here => exact .step hstep (.here last k)
  | step hfirst _ ih => exact .step hfirst (ih hstep)

/-- The facts of a node that binding comes to are among those of the tree. -/
theorem facts_subset (h : Visits site n last k) : ofNode last k ⊆ ofNode site n := by
  induction h with
  | here => exact List.Subset.refl _
  | @step site target last n m k hstep _ ih =>
      rw [of_node_eq site n]
      refine List.Subset.trans ih (List.subset_append_of_subset_right _ fun fact hfact => ?_)
      exact List.mem_flatMap.mpr ⟨_, hstep, hfact⟩

/-- A node that binding comes to is a part of the tree. -/
theorem mem_parts (h : Visits site n last k) : k ∈ n.parts := by
  induction h with
  | here site n => exact mem_parts_self n
  | step hstep _ ih => exact parts_subset_parts hstep ih

end Visits

variable {site : Site} {n : Node}

/-- What a node is the name of has the identity of the node. -/
theorem id_of_names {x : NodeId} {s : BoundSymbol} (h : .names x s ∈ ofNode site n) :
    s.id = .node x := by
  refine fact_induction (fun site n h => ?_) (fun site n _ part facts _ _ htaken h => ?_)
    (fun site n _ part _ _ _ ih => ih) site n h
  · cases n with
    | exportDeclaration i specifiers module isStar =>
        cases isStar <;> cases module <;> simp [ownFacts, starFacts] at h
    | exportAssignment => simp [ownFacts, defaultFacts, Site.exporting] at h
    | _ => simp [ownFacts] at h
  · cases htaken with
    | declare spaces exported symbolOf hid =>
        cases part <;> cases exported <;> simp [Site.declare, Site.exporting] at h
        all_goals
          obtain ⟨rfl, rfl⟩ := h
          exact hid _ _
    | member hmember =>
        cases part <;> simp only [memberFacts, reduceCtorEq, Option.some.injEq] at hmember <;>
          simp [← hmember] at h
        obtain ⟨rfl, rfl⟩ := h
        rfl
    | shorthand => simp at h
    | exporting => simp [Site.exporting] at h

/-- The symbol of a property that is assigned under a written name. -/
def keySymbol (property : Node) (id : NodeId) (text : Text) : BoundSymbol :=
  .declaredBy .property property false (.node id) text

/-- A key that is written as a name names the property. -/
theorem names_of_key {i j k : Info} {text : Text} {init : Node} {properties : List Node}
    (h : .propertyAssignment j (.identifier k text) init ∈ properties) :
    .names k.id (keySymbol (.propertyAssignment j (.identifier k text) init) k.id text) ∈
      ofNode site (.objectLiteral i properties) := by
  let step := memberStep site (.node i.id) .property
    (.propertyAssignment j (.identifier k text) init) (.identifier k text)
  have hstep : step ∈ steps site (.objectLiteral i properties) :=
    List.mem_flatMap.mpr ⟨_, h, List.mem_cons_self⟩
  rw [of_node_eq]
  refine List.mem_append_right _ (List.mem_flatMap.mpr ⟨step, hstep, ?_⟩)
  simp [step, memberFacts, keySymbol]

end Binding

/-- If some fact tells anything, so does the last one that does. -/
theorem Fact.exists_last {α : Type} {tells : Fact → Option α} {facts : List Fact} {fact : Fact}
    {a : α} (h : fact ∈ facts) (htells : tells fact = some a) :
    ∃ b, last? tells facts = some b := by
  refine Option.isSome_iff_exists.mp (List.getLast?_isSome.mpr ?_)
  exact List.ne_nil_of_mem (List.mem_filterMap.mpr ⟨fact, h, htells⟩)

namespace BoundFile

variable {path : Text} {source : SourceFile} {x : NodeId} {s : BoundSymbol}

/-- In a file, a node that binding comes to establishes its facts, as they are if they are about no
aliases. -/
theorem mem_facts_of_visits (hbound : (ofSource path source).isTooDeep = false) {target : Site}
    {n : Node} {fact : Fact}
    (h : Binding.Visits (site path source) (ofSource path source).root target n)
    (halias : ∀ s, fact.symbol? = some s → s.kind.isAlias = false)
    (hfact : fact ∈ Binding.ofNode target n) : fact ∈ (ofSource path source).facts := by
  have hfacts : (ofSource path source).facts =
      settled path (Binding.ofNode (site path source) (ofSource path source).root) :=
    if_neg (of_decide_eq_false hbound)
  rw [hfacts]
  refine List.mem_map.mpr ⟨fact, h.facts_subset hfact, ?_⟩
  cases fact with
  | reexports | refers => rfl
  | declares d | enters _ _ s | names _ s | isLiteral _ s =>
      simp only [Fact.mapSymbol, settle_of_not_alias (halias _ rfl)]

/-- In a file, a node that binding comes to establishes what it names, as it is if that is no
alias. -/
theorem names_of_visits (hbound : (ofSource path source).isTooDeep = false) {target : Site}
    {n : Node} (h : Binding.Visits (site path source) (ofSource path source).root target n)
    (halias : s.kind.isAlias = false) (hnames : .names x s ∈ Binding.ofNode target n) :
    .names x s ∈ (ofSource path source).facts :=
  mem_facts_of_visits hbound h (fun _ hs => Option.some.inj hs ▸ halias) hnames

/-- In a file, what a node is the name of has the identity of the node. -/
theorem id_of_names (h : .names x s ∈ (ofSource path source).facts) : s.id = .node x := by
  obtain ⟨visible, hsettled⟩ := exists_settled path source
  obtain ⟨origin, horigin, hmap⟩ := hsettled _ h
  cases origin with
  | names y symbol =>
      obtain ⟨rfl, rfl⟩ := Fact.names.inj hmap
      rw [id_settle]
      exact Binding.id_of_names horigin
  | _ => cases hmap

/-- In a file, a node is the name of one symbol. -/
theorem named_eq (h : .names x s ∈ (ofSource path source).facts) :
    Fact.last? (Fact.named? x) (ofSource path source).facts = some s := by
  obtain ⟨same, hsame⟩ := @Fact.exists_last _ (Fact.named? x) _ _ s h (if_pos rfl)
  obtain ⟨fact, hfact, hnamed⟩ := Fact.last_mem hsame
  cases fact with
  | names y symbol =>
      simp only [Fact.named?, Option.ite_none_right_eq_some, Option.some.injEq] at hnamed
      obtain ⟨rfl, rfl⟩ := hnamed
      have hid := (id_of_names hfact).trans (id_of_names h).symm
      rw [hsame, symbol_eq_of_id_eq hfact h rfl rfl hid]
  | _ => simp [Fact.named?] at hnamed

end BoundFile

namespace Program

open Binding

/-- Binding the files of the program comes to the node. -/
def Binds (p : Program) (n : Node) : Prop :=
  ∃ f ∈ p.files, f.isTooDeep = false ∧
    ∃ site, Visits (BoundFile.site f.path f.source) f.root site n

variable {p : Program} {n k : Node}

/-- A node that binding comes to stands in the program. -/
theorem Binds.placed (h : p.Binds n) : p.Placed n := by
  obtain ⟨f, hf, _, _, hvisits⟩ := h
  exact ⟨f, hf, hvisits.mem_parts⟩

/-- Binding comes to the statements of a file. -/
theorem binds_of_statement {f : BoundFile} (hf : f ∈ p.files) (hbound : f.isTooDeep = false)
    (hn : n ∈ f.statements) : p.Binds n := by
  refine ⟨f, hf, hbound, _, (Visits.here _ f.root).next (List.mem_map_of_mem ?_)⟩
  simpa [BoundFile.root, Node.children_eq, Node.fields, Field.contents] using hn

/-- Binding goes on from a node that it comes to. -/
theorem Binds.next (h : p.Binds n) (hstep : ∀ site, ∃ last, .visit last k ∈ steps site n) :
    p.Binds k := by
  obtain ⟨f, hf, hbound, site, hvisits⟩ := h
  obtain ⟨last, hstep⟩ := hstep site
  exact ⟨f, hf, hbound, last, hvisits.next hstep⟩

/-- Binding comes to the children of a node that it treats in no special way. -/
theorem Binds.child (h : p.Binds n) (hn : ∀ site, steps site n = visitAll site n.children)
    (hk : k ∈ n.children) : p.Binds k := by
  refine h.next fun site => ⟨site, ?_⟩
  rw [hn]
  exact List.mem_map_of_mem hk

/-- Binding comes to the initial values of the variables of a statement. -/
theorem Binds.variable {i j : Info} {keyword : DeclarationKind} {declarations : List Node}
    {exported ambient : Bool} {name init : Node} {type : Option Node}
    (h : p.Binds (.variableStatement i keyword declarations exported ambient))
    (hdeclaration : .variableDeclaration j name type (some init) ∈ declarations) :
    p.Binds init := by
  refine h.next fun site => ⟨site, List.mem_flatMap.mpr ⟨_, hdeclaration, ?_⟩⟩
  simp [declaratorSteps, visitAll]

/-- Binding comes to the values of the properties of an object literal. -/
theorem Binds.initial {i j : Info} {name init : Node} {properties : List Node}
    (h : p.Binds (.objectLiteral i properties))
    (hproperty : .propertyAssignment j name init ∈ properties) : p.Binds init := by
  refine h.next fun site => ⟨site, List.mem_flatMap.mpr ⟨_, hproperty, ?_⟩⟩
  simp [propertySteps]

/-- Binding comes to the keys of an object literal that are not written out. -/
theorem Binds.key {i j : Info} {name init : Node} {properties : List Node}
    (h : p.Binds (.objectLiteral i properties))
    (hproperty : .propertyAssignment j name init ∈ properties)
    (hname : ∀ owner member, memberFacts owner .property member name = none) : p.Binds name := by
  refine h.next fun site => ⟨site, List.mem_flatMap.mpr ⟨_, hproperty, ?_⟩⟩
  simp [propertySteps, memberStep, hname]

/-- A key that is written as a name, of an object literal that binding comes to, names the
property. -/
theorem symbol_at_key {config : Config} {sources : List SourceFile} {i j k : Info} {text : Text}
    {init : Node} {properties : List Node}
    (h : (ofSources config sources).Binds (.objectLiteral i properties))
    (hproperty : .propertyAssignment j (.identifier k text) init ∈ properties) :
    (ofSources config sources).symbolAt? (.identifier k text) =
      some (keySymbol (.propertyAssignment j (.identifier k text) init) k.id text) := by
  obtain ⟨f, hf, hbound, site, hvisits⟩ := h
  have hplaced : Node.identifier k text ∈ f.root.parts := by
    refine Node.parts_subset hvisits.mem_parts ?_
    have hname : Node.identifier k text ∈
        (Node.propertyAssignment j (.identifier k text) init).children := by
      simp [Node.children_eq, Node.fields, Field.contents]
    have hparts := Node.parts_subset_of_mem_children hname (Node.mem_parts_self _)
    refine Node.parts_subset_of_mem_children ?_ hparts
    simpa [Node.children_eq, Node.fields, Field.contents] using hproperty
  have hfacts := facts_of_placed hf hplaced
  obtain ⟨path, source, rfl⟩ := (files_of_sources config sources).1 f hf
  have hnames := BoundFile.names_of_visits hbound hvisits rfl (names_of_key hproperty)
  have hfile : (Node.identifier k text).id = k.id := rfl
  rw [symbolAt?, hfacts, hfile, BoundFile.named_eq hnames]

end Program

end StaticLiteral
