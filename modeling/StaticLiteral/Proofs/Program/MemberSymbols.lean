import StaticLiteral.Proofs.Binding.Members
import StaticLiteral.Proofs.Program.Properties
import StaticLiteral.Proofs.Program.Sources
import StaticLiteral.Proofs.Typing.Unasked

/-!
# The symbols of members

All that binding establishes about the symbol of a property is that it is a member of the literal
and that its key is its name: `fact_of_member`. No name is looked up as it, nothing is exported as
it and no alias leads to it. So typing comes to it from no node but the key: `enclosed_of_member`.
-/

namespace StaticLiteral

namespace Binding

open Node

variable {site target : Site} {n : Node} {i j : Info} {name init : Node} {properties : List Node}
  {fact : Fact} {text : Text} {member s : BoundSymbol}

/-- The symbol of a property is declared by the assignment, with the identity of the key. -/
theorem member_eq_of_row
    (hmember : memberRow? (.propertyAssignment j name init) = some (text, member)) : member =
      .declaredBy .property (.propertyAssignment j name init) false (.node name.id) text := by
  obtain ⟨_, _, heq⟩ := Option.map_eq_some_iff.mp hmember
  obtain ⟨rfl, rfl⟩ := Prod.mk.inj heq
  rfl

/-- The symbol of a property has the identity of the key. -/
theorem id_of_member_row
    (hmember : memberRow? (.propertyAssignment j name init) = some (text, member)) :
    member.id = .node name.id :=
  congrArg Symbol.id (member_eq_of_row hmember)

/-- The key and the value of a property are parts of the literal. -/
theorem mem_parts_of_property (h : .propertyAssignment j name init ∈ properties) :
    .propertyAssignment j name init ∈ (Node.objectLiteral i properties).parts ∧
      name ∈ (Node.objectLiteral i properties).parts ∧
      init ∈ (Node.objectLiteral i properties).parts := by
  have hproperty : .propertyAssignment j name init ∈
      (Node.objectLiteral i properties).children := by
    simpa [children_eq, fields, Field.contents] using h
  have hchild : ∀ c ∈ (Node.propertyAssignment j name init).children,
      c ∈ (Node.objectLiteral i properties).parts := fun c hc =>
    parts_subset_of_mem_children hproperty (parts_subset_of_mem_children hc (mem_parts_self c))
  exact ⟨parts_subset_of_mem_children hproperty (mem_parts_self _),
    hchild name (by simp [children_eq, fields, Field.contents]),
    hchild init (by simp [children_eq, fields, Field.contents])⟩

/-- In a tree with a literal that binding comes to, what is established about the symbol of a
property makes it a member of the literal or the symbol that the key names. -/
theorem fact_of_member (hlaid : Laid n)
    (hvisits : Visits site n target (.objectLiteral i properties))
    (hproperty : .propertyAssignment j name init ∈ properties)
    (hmember : memberRow? (.propertyAssignment j name init) = some (text, member))
    (h : fact ∈ ofNode site n) (hs : fact.symbol? = some s) (hid : s.id = member.id) :
    fact = .enters (.members (.node i.id)) text member ∨ fact = .names name.id member := by
  rw [id_of_member_row hmember] at hid
  have hname := (mem_parts_of_property (i := i) hproperty).2.1
  have hfact := mem_facts_of_visits hlaid hvisits hname h hs hid
  have hstep : memberStep target (.node i.id) .property (.propertyAssignment j name init) name ∈
      steps target (.objectLiteral i properties) :=
    List.mem_flatMap.mpr ⟨_, hproperty, List.mem_cons_self⟩
  obtain ⟨written, hwritten, heq⟩ := Option.map_eq_some_iff.mp hmember
  obtain ⟨rfl, rfl⟩ := Prod.mk.inj heq
  have hmeets : name ∈ (memberStep target (.node i.id) .property
      (.propertyAssignment j name init) name).parts := by
    cases name with
    | identifier | stringLiteral | numericLiteral => exact List.mem_singleton_self _
    | _ => cases hwritten
  have hnoted := mem_facts_of_common (hlaid.of_mem_parts hvisits.mem_parts) hstep hmeets hfact hs
    hid
  cases name with
  | identifier k text =>
      obtain rfl := Option.some.inj hwritten
      simpa [memberStep, memberFacts, Node.id, Node.info] using hnoted
  | stringLiteral k text | numericLiteral k text =>
      obtain rfl := Option.some.inj hwritten
      left
      simpa [memberStep, memberFacts, Node.id, Node.info] using hnoted
  | _ => cases hwritten

end Binding

namespace Program

open Binding

variable {config : Config} {sources : List SourceFile} {i j : Info} {name init : Node}
  {properties : List Node} {text : Text} {member s t : BoundSymbol}

/-- Nodes of the program with the same identity are the same. -/
theorem Placed.eq_of_id_eq {n m : Node} (hn : (ofSources config sources).Placed n)
    (hm : (ofSources config sources).Placed m) (hid : n.id = m.id) : n = m := by
  obtain ⟨f, hf, hn⟩ := hn
  obtain ⟨g, hg, hm⟩ := hm
  obtain rfl := file_eq_of_id_eq hf hg hn hm hid
  obtain ⟨source, rfl⟩ := exists_source hf
  exact source.laid_bound.eq_of_id_eq hn hm hid

/-- A node of the program is the child of one node only. -/
theorem Placed.eq_of_mem_children {n m c : Node} (hn : (ofSources config sources).Placed n)
    (hm : (ofSources config sources).Placed m) (hcn : c ∈ n.children) (hcm : c ∈ m.children) :
    n = m := by
  obtain ⟨f, hf, hn⟩ := hn
  obtain ⟨g, hg, hm⟩ := hm
  have hpart : ∀ {q h : Node}, c ∈ q.children → q ∈ h.parts → c ∈ h.parts := fun hc hq =>
    Node.parts_subset hq (Node.parts_subset_of_mem_children hc (Node.mem_parts_self c))
  obtain rfl := file_eq_of_id_eq hf hg (hpart hcn hn) (hpart hcm hm) rfl
  obtain ⟨source, rfl⟩ := exists_source hf
  exact source.laid_bound.eq_of_mem_children hn hm hcn hcm

/-- The key of an assignment is not its value. -/
theorem Placed.key_ne_value
    (h : (ofSources config sources).Placed (.propertyAssignment j name init)) : name ≠ init := by
  rintro rfl
  obtain ⟨f, hf, hpart⟩ := h
  obtain ⟨source, rfl⟩ := exists_source hf
  obtain ⟨_, _, hapart⟩ := source.laid_bound.of_mem_parts hpart
  simp only [Node.children_eq, Node.fields, Field.contents, List.flatMap_cons, List.flatMap_nil,
    List.cons_append, List.nil_append, List.pairwise_cons, List.mem_singleton, forall_eq] at hapart
  exact hapart.1.1 (.refl _)

variable (hplaced : (ofSources config sources).Placed (.objectLiteral i properties))
  (hs : (ofSources config sources).literalSymbol? (.objectLiteral i properties) = some s)
  (hproperty : .propertyAssignment j name init ∈ properties)
  (hmember : memberRow? (.propertyAssignment j name init) = some (text, member))

include hplaced hproperty in
/-- The key, the value and the whole of a property stand in the program if the literal does. -/
theorem placed_of_property :
    (ofSources config sources).Placed (.propertyAssignment j name init) ∧
      (ofSources config sources).Placed name ∧ (ofSources config sources).Placed init := by
  obtain ⟨f, hf, hliteral⟩ := hplaced
  obtain ⟨hassignment, hname, hinit⟩ := mem_parts_of_property (i := i) hproperty
  exact ⟨⟨f, hf, Node.parts_subset hliteral hassignment⟩,
    ⟨f, hf, Node.parts_subset hliteral hname⟩, ⟨f, hf, Node.parts_subset hliteral hinit⟩⟩

include hplaced hs hproperty hmember

/-- What a file establishes about the symbol of a property makes it a member of the literal or the
symbol that the key names. -/
theorem fact_of_member {f : BoundFile} (hf : f ∈ (ofSources config sources).files) {fact : Fact}
    (hfact : fact ∈ f.facts) (hsymbol : fact.symbol? = some t) (hid : t.id = member.id) :
    fact = .enters (.members (.node i.id)) text member ∨ fact = .names name.id member := by
  obtain ⟨g, hg, _, target, hvisits⟩ := binds_of_literal hplaced hs
  have hname := Node.parts_subset hvisits.mem_parts
    (mem_parts_of_property (i := i) hproperty).2.1
  have hpath : f.path = g.path := by
    obtain ⟨path, source, rfl⟩ := (files_of_sources config sources).1 f hf
    obtain ⟨other, second, rfl⟩ := (files_of_sources config sources).1 g hg
    obtain ⟨x, hx, hxfile⟩ := BoundFile.exists_node_of_mem hfact hsymbol
    obtain rfl := SymbolId.node.inj (hx.symm.trans (hid.trans (id_of_member_row hmember)))
    exact hxfile.symm.trans ((BoundFile.laid_root other second).encloses hname).1.symm
  obtain rfl := Option.some.inj ((file_eq_of_mem hf).symm.trans (hpath ▸ file_eq_of_mem hg))
  obtain ⟨path, source, rfl⟩ := (files_of_sources config sources).1 f hf
  obtain ⟨visible, hsettled⟩ := BoundFile.exists_settled path source
  obtain ⟨origin, horigin, rfl⟩ := hsettled fact hfact
  rw [BoundFile.symbol_map_symbol] at hsymbol
  obtain ⟨u, hu, rfl⟩ := Option.map_eq_some_iff.mp hsymbol
  rw [BoundFile.id_settle] at hid
  have hkeeps : BoundFile.settle path visible member = member := by
    refine BoundFile.settle_of_not_alias ?_
    rw [member_eq_of_row hmember]
    rfl
  rcases Binding.fact_of_member (BoundFile.laid_root path source) hvisits hproperty hmember horigin
    hu hid with rfl | rfl
  · exact .inl (by rw [Fact.mapSymbol, hkeeps])
  · exact .inr (by rw [Fact.mapSymbol, hkeeps])

/-- No scope has the symbol of a property. -/
theorem ne_member_of_declared {scope : ScopeId} {space : Space} {word : Text}
    (h : (ofSources config sources).declared? scope space word = some t) : t.id ≠ member.id := by
  have hfile : ∀ {path : Text}, Fact.declaredIn? ((ofSources config sources).factsOf path) scope
      space word = some t → t.id ≠ member.id := by
    intro path h hid
    obtain ⟨d, hd, rfl⟩ := Fact.declares_of_declared_in h
    obtain ⟨f, hf, hfact⟩ := exists_file_of_fact hd
    rcases fact_of_member hplaced hs hproperty hmember hf hfact rfl hid with heq | heq <;> cases heq
  cases scope with
  | global =>
      simp only [declared?, Option.ite_none_right_eq_some, Option.some.injEq] at h
      intro hid
      rw [← h.2, id_of_member_row hmember] at hid
      cases hid
  | file path => exact hfile h
  | node id => exact hfile h

/-- No name is looked up as the symbol of a property. -/
theorem ne_member_of_lookup {space : Space} {word : Text} {n : Node}
    (h : (ofSources config sources).lookup? space word n = some t) : t.id ≠ member.id := by
  obtain ⟨scope, _, h⟩ := Option.bind_eq_some_iff.mp h
  obtain ⟨frame, _, h⟩ := List.exists_of_findSome?_eq_some h
  exact ne_member_of_declared hplaced hs hproperty hmember h

/-- No alias leads to the symbol of a property. -/
theorem ne_member_of_aliased (ht : t.id ≠ member.id) :
    ((ofSources config sources).aliased t).id ≠ member.id := by
  unfold aliased
  split
  case h_2 => exact ht
  case h_1 origin _ =>
    cases htarget : (ofSources config sources).target? origin with
    | none =>
        rw [id_of_member_row hmember]
        exact nofun
    | some u =>
        rcases target_cases htarget with ⟨_, _, _, h⟩ | ⟨path, _, h⟩ | ⟨f, _, rfl⟩
        · exact ne_member_of_declared hplaced hs hproperty hmember h
        · intro hid
          obtain ⟨g, hg, hfact⟩ := exists_file_of_fact (Fact.enters_of_entered h)
          rcases fact_of_member hplaced hs hproperty hmember hg hfact rfl hid with heq | heq <;>
            cases heq
        · rw [id_of_member_row hmember]
          exact nofun

/-- Only the key is the name of the symbol of a property. -/
theorem ne_member_of_symbol_at {k : Info} {word : Text} (hk : k.id ≠ name.id)
    (h : (ofSources config sources).symbolAt? (.identifier k word) = some t) :
    t.id ≠ member.id := by
  unfold symbolAt? at h
  split at h
  case h_1 symbol hnamed =>
    obtain rfl := Option.some.inj h
    obtain ⟨fact, hfact, htells⟩ := Fact.last_mem hnamed
    obtain ⟨f, hf, hfact⟩ := exists_file_of_fact hfact
    cases fact with
    | names x u =>
        obtain ⟨rfl, hu⟩ := Option.ite_none_right_eq_some.mp htells
        obtain rfl := Option.some.inj hu
        obtain ⟨path, source, rfl⟩ := (files_of_sources config sources).1 f hf
        rw [BoundFile.id_of_names hfact, id_of_member_row hmember]
        exact fun hid => hk (SymbolId.node.inj hid)
    | _ => cases htells
  case h_2 =>
    obtain ⟨_, _, h⟩ := Option.bind_eq_some_iff.mp h
    exact ne_member_of_lookup hplaced hs hproperty hmember h

/-- From nodes that are not the key, typing comes to no symbol of a member. -/
theorem enclosed_of_member : (ofSources config sources).Enclosed
    (fun n => (ofSources config sources).Placed n ∧ (n.identifier?.isSome → n.id ≠ name.id))
    (fun t => t ∈ (ofSources config sources).symbols ∧ t.id ≠ member.id) where
  subject := by
    intro n c ⟨hn, _⟩ hc
    have hchild : c ∈ n.children := by
      cases n with
      | propertyAssignment =>
          obtain rfl := List.mem_singleton.mp hc
          simp [Node.children_eq, Node.fields, Field.contents]
      | _ => exact Node.operands_subset_children _ hc
    refine ⟨hn.of_mem_children hchild, fun _ hid => ?_⟩
    obtain ⟨hassignment, hname, _⟩ := placed_of_property hplaced hproperty
    obtain rfl := (hn.of_mem_children hchild).eq_of_id_eq hname hid
    obtain rfl := hn.eq_of_mem_children hassignment hchild
      (by simp [Node.children_eq, Node.fields, Field.contents])
    exact hassignment.key_ne_value (List.mem_singleton.mp hc)
  symbolAt hn h := ⟨symbol_at_mem_symbols h,
    ne_member_of_symbol_at hplaced hs hproperty hmember (hn.2 rfl) h⟩
  lookup h := ⟨lookup_mem_symbols h, ne_member_of_lookup hplaced hs hproperty hmember h⟩
  aliased ht := ⟨aliased_mem_symbols ht.1,
    ne_member_of_aliased hplaced hs hproperty hmember ht.2⟩
  declaration := by
    intro t d ht hd
    obtain ⟨f, hf, hpart, hname⟩ := declarer_of_symbol ht.1 hd
    exact ⟨⟨f, hf, hpart⟩, by simp [hname]⟩

end Program

end StaticLiteral
