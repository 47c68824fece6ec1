import StaticLiteral.Proofs.Binding.Altered
import StaticLiteral.Proofs.Binding.Isolation
import StaticLiteral.Proofs.Syntax.Names
import StaticLiteral.Proofs.Syntax.Renamed

/-!
# Binding with a name spelled differently

Spelling the name of a declaration differently changes the facts one by one: its symbol is declared
and entered under the new name, and everything else stays (`of_node_renamed`).
-/

namespace StaticLiteral

/-- The name of a symbol where `target` is spelled `fresh`. -/
def SymbolId.spelled (target : NodeId) (fresh : Text) (id : SymbolId) (name : Text) : Text :=
  if id = .node target then fresh else name

/-- The symbol where `target` is spelled `fresh`. -/
def Symbol.renamed (target : NodeId) (fresh : Text) (symbol : BoundSymbol) : BoundSymbol :=
  { symbol with
    name := symbol.id.spelled target fresh symbol.name
    declaration := symbol.declaration.map (Node.renamed target fresh) }

/-- The fact where `target` is spelled `fresh`. -/
def Fact.renamed (target : NodeId) (fresh : Text) : Fact → Fact
  | declares d =>
    .declares ⟨d.frame, d.space, d.symbol.id.spelled target fresh d.name,
      d.symbol.renamed target fresh⟩
  | enters table name symbol =>
    .enters table (symbol.id.spelled target fresh name) (symbol.renamed target fresh)
  | reexports specifier => .reexports specifier
  | names node symbol => .names node (symbol.renamed target fresh)
  | refers node scope => .refers node scope
  | isLiteral node symbol => .isLiteral node (symbol.renamed target fresh)

namespace Node

/-- If the target is the node, the node is a name, and the target is not what the node exports by
default. -/
def Spares (target : NodeId) (n : Node) : Prop :=
  (n.id = target → n.role = .name) ∧ ∀ i e, n = .exportAssignment i e → e.id ≠ target

end Node

namespace Binding

open Node

variable {target : NodeId} {fresh : Text}

/-- A symbol is renamed with its declaration, and by it. -/
@[simp]
theorem declared_by_renamed (kind : SymbolKind) (d : Node) (isConst : Bool) (id : SymbolId)
    (name : Text) :
    (Symbol.declaredBy kind d isConst id name).renamed target fresh =
      .declaredBy kind (d.renamed target fresh) isConst id (id.spelled target fresh name) := rfl

/-- What declares a symbol does not change its identity. -/
@[simp]
theorem declared_by_id (kind : SymbolKind) (d : Node) (isConst : Bool) (id : SymbolId)
    (name : Text) : (Symbol.declaredBy kind d isConst id name).id = id := rfl

/-- Exports are entered for the renamed symbol. -/
theorem exporting_renamed (site : Site) (name : Text) (symbol : BoundSymbol) :
    (site.exporting name symbol).map (Fact.renamed target fresh) =
      site.exporting (symbol.id.spelled target fresh name) (symbol.renamed target fresh) := by
  simp [Site.exporting, Fact.renamed]

/-- What is not the target keeps its name. -/
theorem spelled_eq_self {id : SymbolId} (h : id ≠ .node target) (name : Text) :
    id.spelled target fresh name = name := if_neg h

/-- A name keeps its role. -/
theorem role_renamed (n : Node) : (n.renamed target fresh).role = n.role := by
  cases n with
  | identifier i text => rfl
  | _ => rw [renamed_eq rfl]; rfl

/-- What a literal names is not the target, if the target is a name. -/
theorem spelled_of_spares {n : Node} (h : n.Spares target) (hrole : n.role ≠ .name) (name : Text) :
    (SymbolId.node n.id).spelled target fresh name = name :=
  spelled_eq_self (fun hid => hrole (h.1 (SymbolId.node.inj hid))) name

/-- The default export is entered for the renamed declaration. -/
theorem default_facts_renamed (site : Site) {i : Info} {e : Node}
    (h : (exportAssignment i e).Spares target) :
    ownFacts site ((exportAssignment i e).renamed target fresh) =
      (ownFacts site (.exportAssignment i e)).map (Fact.renamed target fresh) := by
  have hname : (SymbolId.node i.id).spelled target fresh defaultName = defaultName :=
    spelled_of_spares h nofun defaultName
  have hid : e.id ≠ target := h.2 i e rfl
  have hdeclaration : (exportAssignment i e).renamed target fresh =
      .exportAssignment i (e.renamed target fresh) := renamed_eq rfl
  have hother : ∀ d e : Node, e.identifier? = none → defaultFacts site d e =
      site.exporting defaultName
        (.declaredBy .blockScopedVariable e true (.node d.id) defaultName) := fun d e he => by
    cases e <;> first | rfl | cases he
  rw [hdeclaration]
  simp only [ownFacts]
  cases he : e.identifier? with
  | none =>
      rw [hother _ e he, hother _ _ ((identifier_renamed hid).trans he), exporting_renamed]
      simp only [declared_by_renamed, declared_by_id, Node.id, Node.info, hname]
  | some text =>
      cases e with
      | identifier j text =>
          have htext : (if j.id = target then fresh else text) = text := if_neg hid
          rw [renamed_identifier, htext] at hdeclaration
          simp only [renamed_identifier, htext, defaultFacts, exporting_renamed,
            declared_by_renamed, declared_by_id, Node.id, Node.info, hname, hdeclaration]
      | _ => cases he

/-- The facts of a node about itself are renamed. -/
theorem own_facts_renamed (site : Site) (n : Node) (h : n.Spares target) :
    ownFacts site (n.renamed target fresh) =
      (ownFacts site n).map (Fact.renamed target fresh) := by
  cases n with
  | identifier i text => rfl
  | typeReference i name arguments =>
      rw [renamed_eq rfl]
      simp [mapChildren, ownFacts, Fact.renamed]
  | exportDeclaration i specifiers module isStar =>
      rw [renamed_eq rfl]
      cases isStar with
      | false => rfl
      | true =>
          cases module with
          | none => rfl
          | some module =>
              simp only [mapChildren, ownFacts, starFacts]
              split <;> rfl
  | exportAssignment i e => exact default_facts_renamed site h
  | objectLiteral i properties =>
      have hn : (objectLiteral i properties).renamed target fresh =
          .objectLiteral i (properties.map (renamed target fresh)) := renamed_eq rfl
      have hname : ∀ name, (SymbolId.node i.id).spelled target fresh name = name :=
        spelled_of_spares h (ne_of_beq_false rfl)
      simp only [hn, ownFacts, List.map_cons, List.map_nil, Fact.renamed, literalSymbol,
        declared_by_renamed, Node.id, Node.info, hname]
  | typeLiteral i members =>
      have hn : (typeLiteral i members).renamed target fresh =
          .typeLiteral i (members.map (renamed target fresh)) := renamed_eq rfl
      have hname : ∀ name, (SymbolId.node i.id).spelled target fresh name = name :=
        spelled_of_spares h (ne_of_beq_false rfl)
      simp only [hn, ownFacts, List.map_cons, List.map_nil, Fact.renamed, literalSymbol,
        declared_by_renamed, Node.id, Node.info, hname]
  | _ =>
      rw [renamed_eq rfl]
      rfl

/-- A name is declared under its new spelling. -/
theorem declare_renamed (site : Site) (spaces : List Space) (exported : Bool) (kind : SymbolKind)
    (d : Node) (isConst : Bool) (name : Node) :
    site.declare spaces exported (.declaredBy kind (d.renamed target fresh) isConst)
        (name.renamed target fresh) =
      (site.declare spaces exported (.declaredBy kind d isConst) name).map
        (Fact.renamed target fresh) := by
  cases name with
  | identifier i text =>
      have htext : (SymbolId.node i.id).spelled target fresh text =
          if i.id = target then fresh else text := by simp [SymbolId.spelled]
      cases exported <;> simp [Site.declare, Fact.renamed, List.map_flatMap, Function.comp_def,
        exporting_renamed, Symbol.declaredBy, Symbol.renamed, htext]
  | _ =>
      generalize d.renamed target fresh = e
      rw [renamed_eq rfl]
      rfl

/-- A member is entered under its new spelling. -/
theorem member_facts_renamed (owner : SymbolId) (kind : SymbolKind) (member : Node) {name : Node}
    (h : name.Spares target) :
    memberFacts owner kind (member.renamed target fresh) (name.renamed target fresh) =
      (memberFacts owner kind member name).map (List.map (Fact.renamed target fresh)) := by
  cases name with
  | identifier i text =>
      have htext : (SymbolId.node i.id).spelled target fresh text =
          if i.id = target then fresh else text := by simp [SymbolId.spelled]
      simp [memberFacts, Fact.renamed, Symbol.declaredBy, Symbol.renamed, htext]
  | stringLiteral i text | numericLiteral i text =>
      have htext : (SymbolId.node i.id).spelled target fresh text = text :=
        spelled_of_spares h (ne_of_beq_false rfl) text
      generalize hm : member.renamed target fresh = m
      rw [renamed_eq rfl]
      simp only [mapChildren, memberFacts, Option.map_some, List.map_cons, List.map_nil,
        Fact.renamed, declared_by_renamed, declared_by_id, htext, hm]
  | _ =>
      generalize member.renamed target fresh = m
      rw [renamed_eq rfl]
      rfl

/-- An export is entered for the renamed specifier. -/
theorem export_facts_renamed (site : Site) (module : Option Text) {specifier : Node}
    (h : specifier.Spares target) :
    exportFacts site module [specifier.renamed target fresh] =
      (exportFacts site module [specifier]).map (Fact.renamed target fresh) := by
  cases specifier with
  | exportSpecifier i name propertyName =>
      have hname : (SymbolId.node i.id).spelled target fresh name = name :=
        spelled_of_spares h nofun name
      have hspecifier : (exportSpecifier i name propertyName).renamed target fresh =
          .exportSpecifier i name propertyName := renamed_eq rfl
      rw [hspecifier]
      simp only [exportFacts, List.append_nil, exporting_renamed, declared_by_renamed,
        declared_by_id, hname, hspecifier]
  | identifier i text => rfl
  | _ =>
      rw [renamed_eq rfl]
      rfl

/-- Renaming alters trees and their facts. -/
theorem alters_renamed (target : NodeId) (fresh : Text) :
    Alters (Spares target) (Node.renamed target fresh) (Fact.renamed target fresh) where
  id := id_renamed target fresh
  role := role_renamed
  isFunction n := by
    cases n with
    | identifier i text => rfl
    | _ => rw [renamed_eq rfl]; rfl
  plain n hname _ := renamed_eq (by cases n <;> first | rfl | exact absurd rfl hname)
  refers _ _ := rfl
  own := own_facts_renamed
  declare := declare_renamed
  member owner kind member name := member_facts_renamed owner kind member
  exported site module specifier := export_facts_renamed site module

/-- Spelling a name differently changes the facts of a tree one by one, if the name is not what is
exported by default. -/
theorem of_node_renamed (site : Site) {n : Node} (h : ∀ part ∈ n.parts, part.Spares target) :
    ofNode site (n.renamed target fresh) = (ofNode site n).map (Fact.renamed target fresh) :=
  (alters_renamed target fresh).of_node_altered site h fun m hm =>
    renamed_eq (by cases m <;> first | rfl | cases hm)

/-- A name of a node is never what is exported by default, so it can be spelled differently. -/
theorem spares_of_name {n m q leaf : Node} (hlaid : Laid n) (hq : q ∈ n.parts)
    (hleaf : leaf ∈ q.names) (hname : leaf.role = .name) (hm : m ∈ n.parts) :
    m.Spares leaf.id := by
  have hpart := parts_subset hq (mem_parts_of_mem_names hleaf)
  refine ⟨fun hid => ?_, ?_⟩
  · rw [hlaid.eq_of_id_eq hm hpart hid, hname]
  · rintro i e rfl hid
    have he : e ∈ (exportAssignment i e).children := by
      simp [children_eq, fields, Field.contents]
    obtain rfl := hlaid.eq_of_id_eq
      (parts_subset hm (parts_subset_of_mem_children he (mem_parts_self e))) hpart hid
    obtain rfl := hlaid.eq_of_mem_children hm hq he (names_subset_children q hleaf)
    simp [names] at hleaf

/-! ## What is found -/

/-- The symbol that is left under a name other than the new one: none if the name was that of the
target. -/
def keptSymbol (target : NodeId) (fresh : Text) (symbol : BoundSymbol) : Option BoundSymbol :=
  if symbol.id = .node target then none else some (symbol.renamed target fresh)

/-- Under a name other than the new one, the symbol of an old name is found if it is kept. -/
theorem found_renamed {name other : Text} (hne : fresh ≠ name) (symbol : BoundSymbol) :
    (if symbol.id.spelled target fresh other = name then some (symbol.renamed target fresh)
      else none) =
      (if other = name then some symbol else none).bind (keptSymbol target fresh) := by
  by_cases hid : symbol.id = .node target
  · have hnone : keptSymbol target fresh symbol = none := if_pos hid
    rw [SymbolId.spelled, if_pos hid, if_neg hne]
    split <;> simp [hnone]
  · have hsome : keptSymbol target fresh symbol = some (symbol.renamed target fresh) := if_neg hid
    rw [spelled_eq_self hid]
    split <;> simp [hsome]

/-- What a fact declares under a name other than the new one, it declared before. -/
theorem declared_at_renamed {name : Text} (hne : fresh ≠ name) (frame : ScopeId) (space : Space)
    (fact : Fact) :
    declaredAt? frame space name (fact.renamed target fresh) =
      (declaredAt? frame space name fact).bind (keptSymbol target fresh) := by
  have hat : ∀ d, declaredAt? frame space name (.declares d) =
      if d.frame = frame ∧ d.space = space then if d.name = name then some d.symbol else none
      else none := fun d => by
    simp only [declaredAt?, Fact.declared?, Option.filter_some]
    split <;> simp_all
  cases fact with
  | declares d =>
      rw [Fact.renamed, hat, hat]
      split
      · exact found_renamed hne d.symbol
      · rfl
  | _ => rfl

/-- The symbol that a fact enters under a name. -/
def enteredAt? (table : Table) (name : Text) (fact : Fact) : Option BoundSymbol :=
  ((fact.row? table).filter (·.1 = name)).map (·.2)

/-- A name in a table is what the last fact enters under it. -/
theorem entered_eq_last (facts : List Fact) (table : Table) (name : Text) :
    Fact.entered? facts table name = Fact.last? (enteredAt? table name) facts := by
  rw [Fact.entered?, List.filter_filterMap, Fact.last?, ← List.getLast?_map, List.map_filterMap]
  rfl

/-- What a fact enters under a name other than the new one, it entered before. -/
theorem entered_at_renamed {name : Text} (hne : fresh ≠ name) (table : Table) (fact : Fact) :
    enteredAt? table name (fact.renamed target fresh) =
      (enteredAt? table name fact).bind (keptSymbol target fresh) := by
  have hat : ∀ entered other symbol, enteredAt? table name (.enters entered other symbol) =
      if entered = table then if other = name then some symbol else none else none :=
    fun entered other symbol => by
      simp only [enteredAt?, Fact.row?]
      split
      · rw [Option.filter_some]
        split <;> simp_all
      · rfl
  cases fact with
  | enters entered other symbol =>
      rw [Fact.renamed, hat, hat]
      split
      · exact found_renamed hne symbol
      · rfl
  | _ => rfl

variable {tells : Fact → Option BoundSymbol} {facts : List Fact} {symbol : BoundSymbol}

/-- What renamed facts tell of is what is kept. -/
theorem filter_map_renamed
    (htells : ∀ fact, tells (fact.renamed target fresh) =
      (tells fact).bind (keptSymbol target fresh)) (facts : List Fact) :
    (facts.map (Fact.renamed target fresh)).filterMap tells =
      (facts.filterMap tells).filterMap (keptSymbol target fresh) := by
  rw [List.filterMap_map, List.filterMap_filterMap]
  exact List.filterMap_congr fun fact _ => htells fact

/-- What the last fact tells of stays, renamed, if it is not the target. -/
theorem last_renamed
    (htells : ∀ fact, tells (fact.renamed target fresh) =
      (tells fact).bind (keptSymbol target fresh))
    (h : ∀ s, Fact.last? tells facts = some s → s.id ≠ .node target) :
    Fact.last? tells (facts.map (Fact.renamed target fresh)) =
      (Fact.last? tells facts).map (Symbol.renamed target fresh) := by
  rw [Fact.last?, filter_map_renamed htells]
  unfold Fact.last? at h ⊢
  cases hlast : (facts.filterMap tells).getLast? with
  | none =>
      rw [List.getLast?_eq_none_iff.mp hlast]
      rfl
  | some s =>
      obtain ⟨init, hinit⟩ := List.getLast?_eq_some_iff.mp hlast
      have hkept : keptSymbol target fresh s = some (s.renamed target fresh) := if_neg (h s hlast)
      simp [hinit, List.filterMap_append, hkept]

/-- No renamed fact tells of the target under a name other than the new one. -/
theorem id_of_last_renamed
    (htells : ∀ fact, tells (fact.renamed target fresh) =
      (tells fact).bind (keptSymbol target fresh))
    (h : Fact.last? tells (facts.map (Fact.renamed target fresh)) = some symbol) :
    symbol.id ≠ .node target := by
  rw [Fact.last?, filter_map_renamed htells] at h
  obtain ⟨s, _, hkept⟩ := List.mem_filterMap.mp (List.mem_of_getLast? h)
  simp only [keptSymbol, Option.ite_none_left_eq_some, Option.some.injEq] at hkept
  obtain ⟨hne, rfl⟩ := hkept
  exact hne

/-- What nodes name stays, renamed. -/
theorem last_named_renamed (x : NodeId) (facts : List Fact) :
    Fact.last? (Fact.named? x) (facts.map (Fact.renamed target fresh)) =
      (Fact.last? (Fact.named? x) facts).map (Symbol.renamed target fresh) := by
  rw [Fact.last?, Fact.last?, List.filterMap_map, ← List.getLast?_map, List.map_filterMap]
  congr 2
  funext fact
  cases fact with
  | names y symbol =>
      simp only [Function.comp_apply, Fact.renamed, Fact.named?]
      split <;> rfl
  | _ => rfl

/-- The symbols of literals stay, renamed. -/
theorem last_literal_renamed (x : NodeId) (facts : List Fact) :
    Fact.last? (Fact.literal? x) (facts.map (Fact.renamed target fresh)) =
      (Fact.last? (Fact.literal? x) facts).map (Symbol.renamed target fresh) := by
  rw [Fact.last?, Fact.last?, List.filterMap_map, ← List.getLast?_map, List.map_filterMap]
  congr 2
  funext fact
  cases fact with
  | isLiteral y symbol =>
      simp only [Function.comp_apply, Fact.renamed, Fact.literal?]
      split <;> rfl
  | _ => rfl

/-- Scopes stay. -/
theorem last_scope_renamed (x : NodeId) (facts : List Fact) :
    Fact.last? (Fact.scope? x) (facts.map (Fact.renamed target fresh)) =
      Fact.last? (Fact.scope? x) facts := by
  rw [Fact.last?, List.filterMap_map]
  congr 2
  funext fact
  cases fact <;> rfl

/-- What is exported again stays. -/
theorem reexports_renamed (facts : List Fact) :
    (facts.map (Fact.renamed target fresh)).filterMap Fact.reexport? =
      facts.filterMap Fact.reexport? := by
  rw [List.filterMap_map]
  refine List.filterMap_congr fun fact _ => ?_
  cases fact <;> rfl

end Binding

end StaticLiteral
