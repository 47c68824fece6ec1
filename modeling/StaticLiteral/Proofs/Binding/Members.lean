import StaticLiteral.Proofs.Binding.Exports
import StaticLiteral.Proofs.Binding.Notes

/-!
# Tables of members

Whatever binding a node notes is entered in the table of exports of the place or in that of the
node's own members (`enters_in_steps`). So the table of an object literal that binding comes to has
the properties of this literal in their order, and nothing from elsewhere in the tree:
`rows_of_visits` and `rows_of_literal`.
-/

namespace StaticLiteral

/-- The node that has the members of this one: those of an interface or an enumeration belong to its
name. -/
def Node.owner : Node → Node
  | .interfaceDeclaration _ name _ _ | .enumDeclaration _ name _ _ _ => name
  | n => n

/-- The text under which the member with this name is entered, if the name is written out. -/
def Node.writtenName? : Node → Option Text
  | .identifier _ text | .stringLiteral _ text | .numericLiteral _ text => some text
  | _ => none

namespace Binding

open Node

variable {site target inner : Site} {manner : Manner} {n m c owner part name declaration : Node}
  {step : Step} {spaces : List Space} {exported : Bool} {table : Table} {key : Text}
  {s : BoundSymbol}

/-- What the step notes is entered in the table of exports of the site or among the members of the
node. -/
def Step.EntersIn (site : Site) (owner : Node) : Step → Prop
  | note _ facts => ∀ table key s, .enters table key s ∈ facts →
      site.exports = some table ∨ table = .members (.node owner.id)
  | visit _ _ => True

/-- What is exported is entered in the table of exports. -/
theorem table_of_exporting {text : Text} {symbol : BoundSymbol}
    (h : .enters table key s ∈ site.exporting text symbol) : site.exports = some table := by
  obtain ⟨t, ht, heq⟩ := List.mem_map.mp h
  obtain ⟨rfl, _⟩ := Fact.enters.inj heq
  exact Option.mem_toList.mp ht

/-- What is declared is entered in the table of exports, if at all. -/
theorem table_of_declare {symbolOf : SymbolId → Text → BoundSymbol}
    (h : .enters table key s ∈ site.declare spaces exported symbolOf name) :
    site.exports = some table := by
  cases name with
  | identifier i text =>
      simp only [Site.declare, List.mem_append, List.mem_flatMap, List.mem_map, List.mem_cons,
        reduceCtorEq, and_false, exists_false, false_or] at h
      split at h
      · exact table_of_exporting h
      · cases h
  | _ => cases h

/-- A member is entered among the members of its owner. -/
theorem table_of_member {owner : SymbolId} {kind : SymbolKind} {member : Node} {facts : List Fact}
    (h : memberFacts owner kind member name = some facts) (hmem : .enters table key s ∈ facts) :
    table = .members owner := by
  cases name with
  | identifier i text | stringLiteral i text | numericLiteral i text =>
      obtain rfl := Option.some.inj h
      simp only [List.mem_cons, reduceCtorEq, List.not_mem_nil, or_false, Fact.enters.injEq] at hmem
      exact hmem.1
  | _ => cases h

/-- A name that is declared is entered in the table of exports. -/
theorem enters_in_declare {symbolOf : SymbolId → Text → BoundSymbol}
    (hexports : target.exports = site.exports) :
    (Step.note name (target.declare spaces exported symbolOf name)).EntersIn site owner :=
  fun _ _ _ h => .inl (hexports ▸ table_of_declare h)

/-- Nodes side by side are visited. -/
theorem enters_in_visit_all {ns : List Node} (h : step ∈ visitAll target ns) :
    step.EntersIn site owner := by
  obtain ⟨_, _, rfl⟩ := List.mem_map.mp h
  trivial

/-- A body is visited. -/
theorem enters_in_body {body : Option Node} (h : step ∈ bodySteps target body) :
    step.EntersIn site owner := by
  unfold bodySteps at h
  split at h <;> exact enters_in_visit_all h

/-- The leaves of a pattern are entered in the table of exports. -/
theorem enters_in_pattern (hexports : target.exports = site.exports)
    (h : step ∈ patternSteps target manner declaration name) : step.EntersIn site owner := by
  rcases of_mem_pattern_steps h with ⟨leaf, _, d, _, rfl⟩ | ⟨_, _, rfl⟩
  · exact enters_in_declare hexports
  · trivial

/-- The names in a variable of a statement are entered in the table of exports. -/
theorem enters_in_declarator (hexports : target.exports = site.exports)
    (h : step ∈ declaratorSteps inner target manner c) : step.EntersIn site owner := by
  cases c with
  | variableDeclaration i name type init =>
      simp only [declaratorSteps, List.mem_append] at h
      rcases h with (h | h) | h
      · exact enters_in_pattern hexports h
      · exact enters_in_visit_all h
      · exact enters_in_visit_all h
  | _ => cases h

/-- The names in the variable of a loop are entered in the table of exports. -/
theorem enters_in_loop (hexports : target.exports = site.exports)
    (h : step ∈ loopSteps target manner c) : step.EntersIn site owner := by
  cases c with
  | variableDeclaration i name type init => exact enters_in_pattern hexports h
  | _ => cases h

/-- The names that a clause catches are entered in the table of exports. -/
theorem enters_in_caught (hexports : inner.exports = site.exports)
    (h : step ∈ caughtSteps target inner c) : step.EntersIn site owner := by
  cases c with
  | variableDeclaration i name type init =>
      rcases List.mem_append.mp h with h | h
      · exact enters_in_pattern hexports h
      · exact enters_in_visit_all h
  | _ => cases h

/-- The names in a parameter are entered in the table of exports. -/
theorem enters_in_parameter (hexports : inner.exports = site.exports)
    (h : step ∈ parameterSteps inner c) : step.EntersIn site owner := by
  cases c with
  | parameter i name type init =>
      simp only [parameterSteps, List.mem_append] at h
      rcases h with (h | h) | h
      · exact enters_in_pattern hexports h
      · exact enters_in_visit_all h
      · exact enters_in_visit_all h
  | _ => cases h

/-- What is inside of a function is entered in the table of exports. -/
theorem enters_in_inner (h : step ∈ innerSteps site c) : step.EntersIn site owner := by
  cases c with
  | functionDeclaration i name parameters body exported =>
      have hexports := exports_enter_function site i.id
      rcases List.mem_append.mp h with h | h
      · obtain ⟨_, _, h⟩ := List.mem_flatMap.mp h
        exact enters_in_parameter hexports h
      · exact enters_in_body h
  | functionExpression i name parameters body =>
      have hexports : (site.enter .function i.id).exports = site.exports := rfl
      rcases List.mem_append.mp h with h | h
      · obtain ⟨_, _, h⟩ := List.mem_flatMap.mp h
        exact enters_in_parameter hexports h
      · exact enters_in_body h
  | methodDeclaration i name body => exact enters_in_body h
  | _ => cases h

/-- The name of a member is entered among the members of the owner. -/
theorem enters_in_member_step {kind : SymbolKind} {member : Node} :
    (memberStep target (.node owner.id) kind member name).EntersIn site owner := by
  unfold memberStep
  split
  · next facts hfacts => exact fun _ _ _ h => .inr (table_of_member hfacts h)
  · trivial

/-- A member of a type or an enumeration is entered among the members of the owner. -/
theorem enters_in_member {kind : SymbolKind}
    (h : step ∈ memberSteps target (.node owner.id) kind c) : step.EntersIn site owner := by
  cases c with
  | propertySignature i name rest | enumMember i name rest =>
      rcases List.mem_cons.mp h with rfl | h
      · exact enters_in_member_step
      · exact enters_in_visit_all h
  | _ => cases h

/-- A property is entered among the members of the owner. -/
theorem enters_in_property (h : step ∈ propertySteps site (.node owner.id) c) :
    step.EntersIn site owner := by
  cases c with
  | propertyAssignment i name init =>
      simp only [propertySteps, List.mem_cons, List.not_mem_nil, or_false] at h
      rcases h with rfl | rfl
      · exact enters_in_member_step
      · trivial
  | shorthandPropertyAssignment i name =>
      simp only [propertySteps, List.mem_cons, List.not_mem_nil, or_false] at h
      rcases h with rfl | rfl
      · exact enters_in_member_step
      · intro _ _ _ h
        simp at h
  | methodDeclaration i name body =>
      rcases List.mem_cons.mp h with rfl | h
      · exact enters_in_member_step
      · exact enters_in_inner h
  | _ =>
      obtain rfl := List.mem_singleton.mp h
      trivial

/-- What a node notes is entered in the table of exports or among its members. -/
theorem enters_in_steps (h : step ∈ steps site n) : step.EntersIn site n.owner := by
  have hname : ∀ {target : Site} {name : Option Node} {exported : Bool}
      {symbolOf : SymbolId → Text → BoundSymbol} {spaces : List Space},
      target.exports = site.exports →
      step ∈ name.toList.map (fun name =>
        .note name (target.declare spaces exported symbolOf name)) →
      step.EntersIn site n.owner := fun hexports h => by
    obtain ⟨_, _, rfl⟩ := List.mem_map.mp h
    exact enters_in_declare hexports
  cases n with
  | variableStatement i keyword declarations exported ambient =>
      obtain ⟨declaration, _, h⟩ := List.mem_flatMap.mp h
      refine enters_in_declarator ?_ h
      split <;> rfl
  | forInStatement i init expression statement keyword
  | forOfStatement i init expression statement keyword =>
      rcases List.mem_append.mp h with h | h
      · rcases List.mem_cons.mp h with rfl | h
        · trivial
        · split at h
          · split at h
            · refine enters_in_loop ?_ h
              split <;> rfl
            · obtain rfl := List.mem_singleton.mp h
              trivial
          · obtain rfl := List.mem_singleton.mp h
            trivial
      · exact enters_in_body h
  | catchClause i declaration block =>
      have hexports : (site.enter .block i.id).exports = site.exports := rfl
      rcases List.mem_append.mp h with h | h
      · obtain ⟨declaration, _, h⟩ := List.mem_flatMap.mp h
        exact enters_in_caught hexports h
      · exact enters_in_body h
  | functionDeclaration i name parameters body exported =>
      have hexports : site.hoisted.exports = site.exports := rfl
      rcases List.mem_append.mp h with h | h
      · exact hname hexports h
      · exact enters_in_inner h
  | functionExpression i name parameters body =>
      have hexports : (site.enter .function i.id).exports = site.exports := rfl
      rcases List.mem_append.mp h with h | h
      · exact hname hexports h
      · exact enters_in_inner h
  | classDeclaration i name exported => exact hname rfl h
  | typeAliasDeclaration i name type exported =>
      rcases List.mem_cons.mp h with rfl | h
      · exact enters_in_declare rfl
      · obtain rfl := List.mem_singleton.mp h
        trivial
  | interfaceDeclaration i name members exported
  | enumDeclaration i name members isConst exported =>
      rcases List.mem_cons.mp h with rfl | h
      · exact enters_in_declare rfl
      · obtain ⟨member, _, h⟩ := List.mem_flatMap.mp h
        exact enters_in_member h
  | moduleDeclaration i name body exported =>
      rcases List.mem_cons.mp h with rfl | h
      · exact enters_in_declare rfl
      · exact enters_in_body h
  | importDeclaration i module specifiers =>
      obtain ⟨specifier, _, h⟩ := List.mem_flatMap.mp h
      cases specifier with
      | importSpecifier j name propertyName isNamespace =>
          obtain rfl := List.mem_singleton.mp h
          simp only [importFacts, List.append_nil]
          exact enters_in_declare rfl
      | _ => cases h
  | exportDeclaration i specifiers module isStar =>
      cases isStar with
      | true => simp [steps] at h
      | false =>
          obtain ⟨specifier, _, h⟩ := List.mem_flatMap.mp h
          cases specifier with
          | exportSpecifier =>
              obtain rfl := List.mem_singleton.mp h
              simp only [exportFacts, List.append_nil]
              exact fun _ _ _ h => .inl (table_of_exporting h)
          | _ => cases h
  | objectLiteral i properties =>
      obtain ⟨property, _, h⟩ := List.mem_flatMap.mp h
      exact enters_in_property h
  | typeLiteral i members =>
      obtain ⟨member, _, h⟩ := List.mem_flatMap.mp h
      exact enters_in_member h
  | _ => exact enters_in_visit_all h

/-! ## Whose table it is -/

/-- What has the members of a node is the node or is noted by it. -/
theorem owner_eq_or_noted (site : Site) (n : Node) :
    n.owner = n ∨ ∃ facts, .note n.owner facts ∈ steps site n := by
  cases n with
  | interfaceDeclaration | enumDeclaration => exact .inr ⟨_, List.mem_cons_self⟩
  | _ => exact .inl rfl

/-- On the way down the table of exports stays the same, or it becomes that of a name that is
noted. -/
theorem table_of_visit (h : .visit target part ∈ steps site n)
    (htable : target.exports = some table) :
    site.exports = some table ∨
      ∃ name facts, .note name facts ∈ steps site n ∧ table = .members (.node name.id) := by
  by_cases hn : ∀ outer, n.moduleBelow outer = outer
  · exact .inl ((follows_steps hn h).2 ▸ htable)
  · cases n with
    | moduleDeclaration i name body exported =>
        rw [(within_of_module h none).2] at htable
        refine .inr ⟨name, _, List.mem_cons_self, ?_⟩
        cases name with
        | identifier j text => exact (Option.some.inj htable).symm
        | _ => cases htable
    | _ => exact absurd (fun _ => rfl) hn

/-- What a node establishes about itself is entered in the table of exports, if at all. -/
theorem table_of_own (h : .enters table key s ∈ ownFacts site n) : site.exports = some table := by
  cases n with
  | exportAssignment i e => exact table_of_exporting h
  | exportDeclaration i specifiers module isStar =>
      cases isStar <;> cases module <;> simp [ownFacts, starFacts] at h
  | _ => simp [ownFacts] at h

/-- What is entered in a tree is entered in the table of exports or among the members of a node in
the tree. -/
theorem exists_holder_of_enters (h : .enters table key s ∈ ofNode site n) :
    site.exports = some table ∨ ∃ m ∈ n.parts, table = .members (.node m.id) := by
  have hnoted : ∀ {site : Site} {n name : Node} {facts : List Fact},
      .note name facts ∈ steps site n → name ∈ n.parts := fun h =>
    parts_subset_parts h (List.mem_singleton_self _)
  refine fact_induction (fun site n h => ?_) (fun site n inner part facts hstep _ _ h => ?_)
    (fun site n target part hstep _ _ ih => ?_) site n h
  · exact .inl (table_of_own h)
  · refine (enters_in_steps hstep table key s h).imp_right fun htable => ⟨n.owner, ?_, htable⟩
    rcases owner_eq_or_noted site n with howner | ⟨_, howner⟩
    · rw [howner]
      exact mem_parts_self n
    · exact hnoted howner
  · rcases ih with htable | ⟨m, hm, htable⟩
    · exact (table_of_visit hstep htable).imp_right fun ⟨name, _, hname, htable⟩ =>
        ⟨name, hnoted hname, htable⟩
    · exact .inr ⟨m, parts_subset_parts hstep hm, htable⟩

/-! ## The rows of a literal -/

/-- Facts that enter nothing in a table give it no rows. -/
theorem rows_eq_nil {facts : List Fact} (h : ∀ key s, .enters table key s ∉ facts) :
    facts.filterMap (Fact.row? table) = [] := by
  refine List.filterMap_eq_nil_iff.mpr fun fact hfact => ?_
  cases fact with
  | enters entered key s =>
      refine if_neg fun heq => ?_
      exact h key s (heq ▸ hfact)
  | _ => rfl

/-- No step of a node that is laid out is taken twice. -/
theorem nodup_steps (site : Site) (hlaid : Laid n) : (steps site n).Nodup := by
  have hparts := nodup_parts_of_steps site hlaid
  rw [List.map_flatMap, List.nodup_flatMap] at hparts
  refine hparts.2.imp fun {step next} hdisjoint heq => ?_
  obtain ⟨m, hm⟩ : ∃ m, m ∈ step.parts := by
    cases step with
    | note part facts => exact ⟨part, List.mem_singleton_self part⟩
    | visit target part => exact ⟨part, mem_parts_self part⟩
  exact hdisjoint (List.mem_map_of_mem hm) (List.mem_map_of_mem (heq ▸ hm))

/-- Around a node below, no other one is noted. -/
theorem id_ne_of_noted (hlaid : Laid n) (hstep : .visit inner c ∈ steps site n)
    (hm : m ∈ c.parts) {facts : List Fact} (hname : .note name facts ∈ steps site n) :
    m.id ≠ name.id := by
  intro hid
  cases steps_eq_of_common hlaid hstep hname hm (List.mem_singleton_self name) hid

/-- What is entered among the members of a node below is entered by the step that visits it. -/
theorem step_eq_of_enters (hlaid : Laid n) (hstep : .visit inner c ∈ steps site n)
    (hm : m ∈ c.parts) (hexports : site.exports ≠ some (.members (.node m.id)))
    (hnext : step ∈ steps site n) (h : .enters (.members (.node m.id)) key s ∈ step.facts) :
    step = .visit inner c := by
  cases step with
  | note part facts =>
      rcases enters_in_steps hnext _ _ _ h with htable | htable
      · exact absurd htable hexports
      · have hid : m.id = n.owner.id := by simpa using htable
        rcases owner_eq_or_noted site n with howner | ⟨_, howner⟩
        · exact absurd (howner ▸ hid) (hlaid.id_ne_of_mem_below (parts_subset_below hstep hm))
        · exact absurd hid (id_ne_of_noted hlaid hstep hm howner)
  | visit target part =>
      rcases exists_holder_of_enters h with htable | ⟨q, hq, htable⟩
      · rcases table_of_visit hnext htable with htable | ⟨name, _, hname, htable⟩
        · exact absurd htable hexports
        · have hid : m.id = name.id := by simpa using htable
          exact absurd hid (id_ne_of_noted hlaid hstep hm hname)
      · have hid : m.id = q.id := by simpa using htable
        exact steps_eq_of_common hlaid hnext hstep hq hm hid.symm

/-- The rows of a node below are established by the step that visits it. -/
theorem rows_of_step (hlaid : Laid n) (hstep : .visit inner c ∈ steps site n) (hm : m ∈ c.parts)
    (hexports : site.exports ≠ some (.members (.node m.id))) :
    (ofNode site n).filterMap (Fact.row? (.members (.node m.id))) =
      (ofNode inner c).filterMap (Fact.row? (.members (.node m.id))) := by
  have hown : (ownFacts site n).filterMap (Fact.row? (.members (.node m.id))) = [] :=
    rows_eq_nil fun key s h => hexports (table_of_own h)
  obtain ⟨before, after, hsplit⟩ := List.append_of_mem hstep
  have hnodup := nodup_steps site hlaid
  rw [hsplit, List.nodup_middle, List.nodup_cons, List.mem_append, not_or] at hnodup
  have hother : ∀ others : List Step,
      (∀ step ∈ others, step ∈ steps site n ∧ step ≠ .visit inner c) →
      others.flatMap (fun step => step.facts.filterMap (Fact.row? (.members (.node m.id)))) = [] :=
    fun others h => List.flatMap_eq_nil_iff.mpr fun step hmem => rows_eq_nil fun key s hfact =>
      (h step hmem).2 (step_eq_of_enters hlaid hstep hm hexports (h step hmem).1 hfact)
  rw [of_node_eq, List.filterMap_append, hown, List.nil_append, List.filterMap_flatMap, hsplit,
    List.flatMap_append, List.flatMap_cons, hother before, hother after]
  · simp
  · exact fun step hmem => ⟨by simp [hsplit, hmem], fun heq => hnodup.1.2 (heq ▸ hmem)⟩
  · exact fun step hmem => ⟨by simp [hsplit, hmem], fun heq => hnodup.1.1 (heq ▸ hmem)⟩

/-- However far down, the rows of a node that binding comes to are established there. -/
theorem rows_of_visits (hlaid : Laid n) (h : Visits site n target m)
    (hexports : site.exports ≠ some (.members (.node m.id))) :
    target.exports ≠ some (.members (.node m.id)) ∧
    (ofNode site n).filterMap (Fact.row? (.members (.node m.id))) =
      (ofNode target m).filterMap (Fact.row? (.members (.node m.id))) := by
  induction h with
  | here => exact ⟨hexports, rfl⟩
  | @step site target last n part m hstep hrest ih =>
      have hm := hrest.mem_parts
      have hpart := hlaid.of_mem_parts (parts_subset_parts hstep (mem_parts_self part))
      have hinner : target.exports ≠ some (.members (.node m.id)) := by
        intro htable
        rcases table_of_visit hstep htable with htable | ⟨name, _, hname, htable⟩
        · exact hexports htable
        · have hid : m.id = name.id := by simpa using htable
          exact id_ne_of_noted hlaid hstep hm hname hid
      obtain ⟨hlast, hrows⟩ := ih hpart hinner
      exact ⟨hlast, (rows_of_step hlaid hstep hm hexports).trans hrows⟩

/-- The row of a property in the table of its literal: none if the name is not written out. -/
def memberRow? (property : Node) : Option (Text × BoundSymbol) :=
  match property with
  | .propertyAssignment _ name _ | .shorthandPropertyAssignment _ name
  | .methodDeclaration _ name _ =>
    name.writtenName?.map fun text =>
      (text, .declaredBy .property property false (.node name.id) text)
  | _ => none

/-- The row of a property has a symbol that the property declares. -/
theorem eq_of_member_row {property : Node} {row : Text × BoundSymbol}
    (h : memberRow? property = some row) :
    ∃ id, row.2 = .declaredBy .property property false id row.1 := by
  cases property with
  | propertyAssignment | shorthandPropertyAssignment | methodDeclaration =>
      obtain ⟨text, _, rfl⟩ := Option.map_eq_some_iff.mp h
      exact ⟨_, rfl⟩
  | _ => cases h

/-- What a node visits enters nothing among the members of the node. -/
theorem not_enters_of_visit (hlaid : Laid n)
    (hexports : site.exports ≠ some (.members (.node n.id)))
    (hstep : .visit target part ∈ steps site n) :
    .enters (.members (.node n.id)) key s ∉ ofNode target part := by
  intro h
  have hbelow : ∀ {step : Step} {q : Node}, step ∈ steps site n → q ∈ step.parts →
      Table.members (.node n.id) ≠ .members (.node q.id) := fun hstep hq htable =>
    hlaid.id_ne_of_mem_below (parts_subset_below hstep hq) (by simpa using htable.symm)
  rcases exists_holder_of_enters h with htable | ⟨q, hq, htable⟩
  · rcases table_of_visit hstep htable with htable | ⟨name, _, hname, htable⟩
    · exact hexports htable
    · exact hbelow hname (List.mem_singleton_self name) htable
  · exact hbelow hstep hq htable

/-- The step of the name of a property gives the literal its row, if what is visited instead of a
name that is not written out enters nothing. -/
theorem rows_of_member_step {owner : SymbolId} {property : Node}
    (h : ∀ target part, memberStep site owner .property property name = .visit target part →
      ∀ key s, .enters (.members owner) key s ∉ ofNode target part) :
    (memberStep site owner .property property name).facts.filterMap
        (Fact.row? (.members owner)) =
      (name.writtenName?.map fun text =>
        (text, Symbol.declaredBy .property property false (.node name.id) text)).toList := by
  cases name with
  | identifier j text | stringLiteral j text | numericLiteral j text =>
      simp [memberStep, memberFacts, Fact.row?, writtenName?, Node.id, Node.info]
  | _ => exact rows_eq_nil (h _ _ rfl)

/-- A property of a literal gives it its row. -/
theorem rows_of_property {i : Info} {properties : List Node} {property : Node}
    (hlaid : Laid (.objectLiteral i properties))
    (hexports : site.exports ≠ some (.members (.node i.id))) (hproperty : property ∈ properties) :
    (propertySteps site (.node i.id) property).flatMap
        (fun step => step.facts.filterMap (Fact.row? (.members (.node i.id)))) =
      (memberRow? property).toList := by
  have hvisit : ∀ {target : Site} {part : Node},
      .visit target part ∈ propertySteps site (.node i.id) property →
      ∀ key s, .enters (.members (.node i.id)) key s ∉ ofNode target part := fun h _ _ =>
    not_enters_of_visit hlaid hexports (List.mem_flatMap.mpr ⟨property, hproperty, h⟩)
  cases property with
  | propertyAssignment j name init =>
      have hinit : (ofNode site init).filterMap (Fact.row? (.members (.node i.id))) = [] :=
        rows_eq_nil (hvisit (by simp [propertySteps]))
      simp only [propertySteps, List.flatMap_cons, List.flatMap_nil, facts_visit, hinit,
        List.append_nil]
      exact rows_of_member_step fun _ _ heq => hvisit (by simp [propertySteps, heq])
  | shorthandPropertyAssignment j name =>
      have huse : [Fact.refers name.id site.scope].filterMap
          (Fact.row? (.members (.node i.id))) = [] := rfl
      simp only [propertySteps, List.flatMap_cons, List.flatMap_nil, facts_note, huse,
        List.append_nil]
      exact rows_of_member_step fun _ _ heq => hvisit (by simp [propertySteps, heq])
  | methodDeclaration j name body =>
      have hbody : (innerSteps site (.methodDeclaration j name body)).flatMap
          (fun step => step.facts.filterMap (Fact.row? (.members (.node i.id)))) = [] := by
        refine List.flatMap_eq_nil_iff.mpr fun step hstep => ?_
        cases step with
        | note part facts => exact absurd hstep note_not_mem_body
        | visit target part => exact rows_eq_nil (hvisit (List.mem_cons_of_mem _ hstep))
      rw [propertySteps, List.flatMap_cons, hbody, List.append_nil]
      exact rows_of_member_step fun _ _ heq => hvisit (by simp [propertySteps, heq])
  | _ => exact (List.append_nil _).trans (rows_eq_nil (hvisit (List.mem_singleton_self _)))

/-- The table of a literal has the rows of its properties. -/
theorem rows_of_literal {i : Info} {properties : List Node}
    (hlaid : Laid (.objectLiteral i properties))
    (hexports : site.exports ≠ some (.members (.node i.id))) :
    (ofNode site (.objectLiteral i properties)).filterMap (Fact.row? (.members (.node i.id))) =
      properties.filterMap memberRow? := by
  have hproperties : (steps site (.objectLiteral i properties)).flatMap
      (fun step => step.facts.filterMap (Fact.row? (.members (.node i.id)))) =
      properties.flatMap fun property => (memberRow? property).toList := by
    rw [steps, List.flatMap_assoc]
    exact List.flatMap_congr fun property hproperty => rows_of_property hlaid hexports hproperty
  have hown : (ownFacts site (.objectLiteral i properties)).filterMap
      (Fact.row? (.members (.node i.id))) = [] := rfl
  rw [of_node_eq, List.filterMap_append, hown, List.nil_append, List.filterMap_flatMap, hproperties]
  exact (List.filterMap_eq_flatMap_toList _ _).symm

end Binding

end StaticLiteral
