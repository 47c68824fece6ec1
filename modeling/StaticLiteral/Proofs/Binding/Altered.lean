import StaticLiteral.Proofs.Binding.Steps
import StaticLiteral.Proofs.Syntax.Forms
import StaticLiteral.Proofs.Syntax.Similar

/-!
# Binding altered trees

Binding looks at little of a tree at once. If nodes are altered so that most of them keep all but
their children, and facts are changed accordingly, then binding takes the same steps, altered
(`steps_altered`), and establishes the same facts, changed (`of_node_altered`).
-/

namespace StaticLiteral.Binding

open Node

/-- The step with its node altered and its facts changed. -/
def Step.altered (alter : Node → Node) (change : Fact → Fact) : Step → Step
  | note part facts => note (alter part) (facts.map change)
  | visit site part => visit site (alter part)

/-- Nodes that are neither names nor functions keep all but their children; names stay names and
functions stay functions. What a node that satisfies `P` is recorded for changes accordingly. -/
structure Alters (P : Node → Prop) (alter : Node → Node) (change : Fact → Fact) : Prop where
  id : ∀ n, (alter n).id = n.id
  role : ∀ n, (alter n).role = n.role
  isFunction : ∀ n, (alter n).isFunction = n.isFunction
  plain : ∀ n, n.role ≠ .name → n.isFunction = false → alter n = n.mapChildren alter
  refers : ∀ id scope, change (.refers id scope) = .refers id scope
  own : ∀ site n, P n → ownFacts site (alter n) = (ownFacts site n).map change
  declare : ∀ (site : Site) spaces exported kind d isConst name,
    site.declare spaces exported (.declaredBy kind (alter d) isConst) (alter name) =
      (site.declare spaces exported (.declaredBy kind d isConst) name).map change
  member : ∀ owner kind member name, P name →
    memberFacts owner kind (alter member) (alter name) =
      (memberFacts owner kind member name).map (List.map change)
  exported : ∀ site module specifier, P specifier →
    exportFacts site module [alter specifier] = (exportFacts site module [specifier]).map change

/-! ## Steps that a node does not take -/

variable {site target inner : Site} {manner : Manner} {n d name : Node}

/-- Only an identifier has the text of one. -/
theorem identifier_is_some_eq (n : Node) : n.identifier?.isSome = decide (n.role = .name) := by
  cases n <;> rfl

/-- Only a variable is one. -/
theorem is_variable_declaration_eq (n : Node) :
    n.isVariableDeclaration = decide (n.role = .variable) := by
  cases n <;> rfl

/-- What is no pattern is declared itself. -/
theorem pattern_steps_of_role (h : name.role ≠ .pattern) :
    patternSteps target manner d name = [.note name (target.declare [.value] manner.exported
      (.declaredBy manner.kind d manner.isConst) name)] := by
  cases name <;> first | rfl | exact absurd rfl h

/-- What is no element is passed over. -/
theorem element_steps_of_role {rest : List Node} (h : n.role ≠ .element) :
    elementSteps target manner (n :: rest) = elementSteps target manner rest := by
  cases n <;> first | rfl | exact absurd rfl h

/-- Only variables are declared as such. -/
theorem variable_steps_of_role (site target inner : Site) (manner : Manner)
    (h : n.role ≠ .variable) :
    declaratorSteps site target manner n = [] ∧ loopSteps target manner n = [] ∧
      caughtSteps site inner n = [] := by
  cases n <;> first | exact ⟨rfl, rfl, rfl⟩ | exact absurd rfl h

/-- Only parameters are declared as such. -/
theorem parameter_steps_of_role (h : n.role ≠ .parameter) : parameterSteps inner n = [] := by
  cases n <;> first | rfl | exact absurd rfl h

/-- Only signatures and members of enumerations are members. -/
theorem member_steps_of_role {owner : SymbolId} {kind : SymbolKind} (h : n.role ≠ .signature)
    (henum : n.role ≠ .enumMember) : memberSteps site owner kind n = [] := by
  cases n <;> first | rfl | exact absurd rfl h | exact absurd rfl henum

/-- Only specifiers of imports are imported. -/
theorem import_steps_of_role {module : Text} (h : n.role ≠ .imported) :
    importSteps site module n = [] := by
  cases n <;> first | rfl | exact absurd rfl h

/-- Only specifiers of exports are exported. -/
theorem export_steps_of_role {module : Option Text} (h : n.role ≠ .exported) :
    exportSteps site module n = [] := by
  cases n <;> first | rfl | exact absurd rfl h

/-! ## Altered steps -/

namespace Alters

variable {P : Node → Prop} {alter : Node → Node} {change : Fact → Fact}

/-- A node with a role of its own, other than that of a name, keeps all but its children. -/
theorem of_role (h : Alters P alter change) (hname : n.role ≠ .name) (hother : n.role ≠ .other) :
    alter n = n.mapChildren alter :=
  h.plain n hname (by cases n <;> first | rfl | exact absurd rfl hother)

/-- A node that is no name keeps all but its children if it does so being a function. -/
theorem of_function (h : Alters P alter change)
    (hn : n.isFunction = true → alter n = n.mapChildren alter) (hname : n.role ≠ .name) :
    alter n = n.mapChildren alter := by
  cases hfunction : n.isFunction with
  | true => exact hn hfunction
  | false => exact h.plain n hname hfunction

/-- A name is noted with its facts changed. -/
theorem note_declare (h : Alters P alter change) (site : Site) (spaces : List Space)
    (exported : Bool) (kind : SymbolKind) (d : Node) (isConst : Bool) (name : Node) :
    Step.note (alter name) (site.declare spaces exported
        (.declaredBy kind (alter d) isConst) (alter name)) =
      (Step.note name (site.declare spaces exported
        (.declaredBy kind d isConst) name)).altered alter change := by
  rw [h.declare, Step.altered]

/-- Nodes side by side are visited altered. -/
theorem visit_all (change : Fact → Fact) (site : Site) (ns : List Node) :
    visitAll site (ns.map alter) = (visitAll site ns).map (Step.altered alter change) := by
  simp [visitAll, Step.altered, Function.comp_def]

/-- A node that may be missing is visited altered. -/
theorem visit_option (change : Fact → Fact) (site : Site) (n : Option Node) :
    visitAll site (n.map alter).toList =
      (visitAll site n.toList).map (Step.altered alter change) := by
  cases n <;> simp [visitAll, Step.altered]

/-- What is no block is not altered to one. -/
theorem not_block (h : Alters P alter change) (hn : ∀ i statements, n ≠ .block i statements)
    (i : Info) (statements : List Node) : alter n ≠ .block i statements := by
  intro hblock
  have hrole := h.role n
  have hfunction := h.isFunction n
  rw [hblock] at hrole hfunction
  have hname : n.role ≠ .name := by
    rw [← hrole]
    nofun
  rw [h.plain n hname hfunction.symm] at hblock
  cases n <;> first | exact hn _ _ rfl | cases hblock

/-- The steps of a body are altered. -/
theorem body_steps (h : Alters P alter change) (site : Site) (body : Option Node) :
    bodySteps site (body.map alter) = (bodySteps site body).map (Step.altered alter change) := by
  have hvisit : ∀ n, (∀ i statements, n ≠ .block i statements) →
      bodySteps site (some n) = [.visit site n] := fun n hn => by
    cases n <;> first | rfl | exact absurd rfl (hn _ _)
  cases body with
  | none => rfl
  | some n =>
      by_cases hn : ∀ i statements, n ≠ .block i statements
      · rw [Option.map_some, hvisit n hn, hvisit _ (h.not_block hn)]
        rfl
      · simp only [not_forall, not_not] at hn
        obtain ⟨i, statements, rfl⟩ := hn
        have hblock := h.plain (.block i statements) (by simp [Node.role]) rfl
        rw [Option.map_some, hblock]
        exact visit_all change site statements

/-- The step of a key is altered. -/
theorem key_steps (h : Alters P alter change) (target : Site) (key : Option Node) :
    keySteps target (key.map alter) = (keySteps target key).map (Step.altered alter change) := by
  cases key with
  | none => rfl
  | some key =>
      simp only [Option.map_some, keySteps, identifier_is_some_eq, h.role]
      split <;> rfl

mutual

/-- The steps of a pattern are altered. -/
theorem pattern_steps (h : Alters P alter change) (target : Site) (manner : Manner) (d : Node) :
    ∀ name : Node,
    patternSteps target manner (alter d) (alter name) =
      (patternSteps target manner d name).map (Step.altered alter change) := by
  intro name
  by_cases hrole : name.role = .pattern
  · have hname := h.of_role (n := name) (by simp [hrole]) (by simp [hrole])
    cases name with
    | objectBindingPattern i elements | arrayBindingPattern i elements =>
        rw [hname, mapChildren, patternSteps, patternSteps]
        exact element_steps h target manner elements
    | _ => simp [Node.role] at hrole
  · rw [pattern_steps_of_role hrole, pattern_steps_of_role (h.role name ▸ hrole), h.note_declare]
    rfl

/-- The steps of the elements of a pattern are altered. -/
theorem element_steps (h : Alters P alter change) (target : Site) (manner : Manner) :
    ∀ elements : List Node,
    elementSteps target manner (elements.map alter) =
      (elementSteps target manner elements).map (Step.altered alter change)
  | [] => rfl
  | element :: rest => by
      have ih := element_steps h target manner rest
      by_cases hrole : element.role = .element
      · obtain ⟨i, name, key, init, isRest, rfl⟩ := exists_element hrole
        have helement : alter (.bindingElement i name key init isRest) =
            .bindingElement i (alter name) (key.map alter) (init.map alter) isRest :=
          h.of_role nofun nofun
        have hname := pattern_steps h target manner (.bindingElement i name key init isRest) name
        rw [helement] at hname
        simp only [List.map_cons, helement, elementSteps, List.map_append, hname, ih,
          h.key_steps, visit_option change]
      · rw [List.map_cons, element_steps_of_role hrole,
          element_steps_of_role (h.role element ▸ hrole), ih]

end

/-- The steps of a variable are altered, however it is declared. -/
theorem variable_steps (h : Alters P alter change) (site target inner : Site) (manner : Manner)
    (d : Node) :
    declaratorSteps site target manner (alter d) =
        (declaratorSteps site target manner d).map (Step.altered alter change) ∧
      loopSteps target manner (alter d) =
        (loopSteps target manner d).map (Step.altered alter change) ∧
      caughtSteps site inner (alter d) =
        (caughtSteps site inner d).map (Step.altered alter change) := by
  by_cases hrole : d.role = .variable
  · obtain ⟨i, name, type, init, rfl⟩ := exists_variable hrole
    have hd : alter (.variableDeclaration i name type init) =
        .variableDeclaration i (alter name) (type.map alter) (init.map alter) :=
      h.of_role nofun nofun
    have hname := fun target manner =>
      h.pattern_steps target manner (.variableDeclaration i name type init) name
    simp only [hd] at hname ⊢
    simp only [declaratorSteps, loopSteps, caughtSteps, hname, List.map_append,
      visit_option change, and_self]
  · obtain ⟨hdeclarator, hloop, hcaught⟩ := variable_steps_of_role site target inner manner hrole
    obtain ⟨hdeclarator', hloop', hcaught'⟩ :=
      variable_steps_of_role site target inner manner (h.role d ▸ hrole)
    simp only [hdeclarator, hloop, hcaught, hdeclarator', hloop', hcaught', List.map_nil, and_self]

/-- The steps of a parameter are altered. -/
theorem parameter_steps (h : Alters P alter change) (inner : Site) (d : Node) :
    parameterSteps inner (alter d) = (parameterSteps inner d).map (Step.altered alter change) := by
  by_cases hrole : d.role = .parameter
  · obtain ⟨i, name, type, init, rfl⟩ := exists_parameter hrole
    have hd : alter (.parameter i name type init) =
        .parameter i (alter name) (type.map alter) (init.map alter) := h.of_role nofun nofun
    have hname := h.pattern_steps inner .ofParameter (.parameter i name type init) name
    rw [hd] at hname ⊢
    simp only [parameterSteps, hname, List.map_append, visit_option change]
  · rw [parameter_steps_of_role hrole, parameter_steps_of_role (h.role d ▸ hrole), List.map_nil]

/-- The step of the name of a member is altered. -/
theorem member_step (h : Alters P alter change) (site : Site) (owner : SymbolId)
    (kind : SymbolKind) (member : Node) {name : Node} (hP : P name) :
    memberStep site owner kind (alter member) (alter name) =
      (memberStep site owner kind member name).altered alter change := by
  unfold memberStep
  rw [h.member owner kind member name hP]
  cases memberFacts owner kind member name <;> rfl

/-- The steps of a member are altered. -/
theorem member_steps (h : Alters P alter change) (site : Site) (owner : SymbolId)
    (kind : SymbolKind) (member : Node) (hP : ∀ name ∈ member.children, P name) :
    memberSteps site owner kind (alter member) =
      (memberSteps site owner kind member).map (Step.altered alter change) := by
  by_cases hrole : member.role = .signature ∨ member.role = .enumMember
  · have hname := fun name hname => h.member_step site owner kind member (hP name hname)
    cases member with
    | propertySignature i name rest =>
        have hmember : alter (.propertySignature i name rest) =
            .propertySignature i (alter name) (rest.map alter) :=
          h.of_role (ne_of_beq_false rfl) (ne_of_beq_false rfl)
        have hname := hname name (by simp [children_eq, fields, Field.contents])
        rw [hmember] at hname ⊢
        simp only [memberSteps, hname, List.map_cons, visit_option change]
    | enumMember i name rest =>
        have hmember : alter (.enumMember i name rest) =
            .enumMember i (alter name) (rest.map alter) :=
          h.of_role (ne_of_beq_false rfl) (ne_of_beq_false rfl)
        have hname := hname name (by simp [children_eq, fields, Field.contents])
        rw [hmember] at hname ⊢
        simp only [memberSteps, hname, List.map_cons, visit_option change]
    | _ => simp [Node.role] at hrole
  · rw [not_or] at hrole
    rw [member_steps_of_role hrole.1 hrole.2,
      member_steps_of_role (h.role member ▸ hrole.1) (h.role member ▸ hrole.2), List.map_nil]

/-- The step of an import is altered. -/
theorem import_steps (h : Alters P alter change) (site : Site) (module : Text) (specifier : Node) :
    importSteps site module (alter specifier) =
      (importSteps site module specifier).map (Step.altered alter change) := by
  by_cases hrole : specifier.role = .imported
  · cases specifier with
    | importSpecifier i name propertyName isNamespace =>
        have hspecifier : alter (.importSpecifier i name propertyName isNamespace) =
            .importSpecifier i (alter name) propertyName isNamespace := h.of_role nofun nofun
        have hname := h.note_declare site [.value, .type] false (.aliasOf
          { sourceFile := some site.fileName, module := some module
            importName := if isNamespace then none else propertyName })
          (.importSpecifier i name propertyName isNamespace) false name
        rw [hspecifier] at hname ⊢
        simpa [importSteps, importFacts] using hname
    | _ => simp [Node.role] at hrole
  · rw [import_steps_of_role hrole, import_steps_of_role (h.role specifier ▸ hrole), List.map_nil]

/-- The step of an export is altered. -/
theorem export_steps (h : Alters P alter change) (site : Site) (module : Option Text)
    {specifier : Node} (hP : P specifier) :
    exportSteps site module (alter specifier) =
      (exportSteps site module specifier).map (Step.altered alter change) := by
  by_cases hrole : specifier.role = .exported
  · have hfacts := h.exported site module specifier hP
    cases specifier with
    | exportSpecifier i name propertyName =>
        have hspecifier : alter (.exportSpecifier i name propertyName) =
            .exportSpecifier i name propertyName := h.of_role nofun nofun
        rw [hspecifier] at hfacts ⊢
        simp only [exportSteps, List.map_cons, List.map_nil, Step.altered, hspecifier, ← hfacts]
    | _ => simp [Node.role] at hrole
  · rw [export_steps_of_role hrole, export_steps_of_role (h.role specifier ▸ hrole), List.map_nil]

/-- The steps inside a function that keeps all but its children are altered. -/
theorem inner_steps (h : Alters P alter change) (site : Site)
    (hn : n.isFunction = true → alter n = n.mapChildren alter) :
    innerSteps site (alter n) = (innerSteps site n).map (Step.altered alter change) := by
  have hparameters : ∀ (inner : Site) (parameters : List Node),
      (parameters.map alter).flatMap (parameterSteps inner) =
        (parameters.flatMap (parameterSteps inner)).map (Step.altered alter change) := by
    simp [List.flatMap_map, List.map_flatMap, h.parameter_steps]
  cases hfunction : n.isFunction with
  | true =>
      rw [hn hfunction]
      cases n with
      | functionDeclaration i name parameters body exported
      | functionExpression i name parameters body =>
          simp only [mapChildren, innerSteps, hparameters, h.body_steps, List.map_append]
      | methodDeclaration i name body => exact h.body_steps _ body
      | _ => cases hfunction
  | false =>
      have hnone : ∀ m : Node, m.isFunction = false → innerSteps site m = [] := fun m hm => by
        cases m <;> first | rfl | cases hm
      rw [hnone n hfunction, hnone _ (h.isFunction n ▸ hfunction), List.map_nil]

/-- The steps of a property are altered. -/
theorem property_steps (h : Alters P alter change) (site : Site) (owner : SymbolId)
    {property : Node} (hP : ∀ name ∈ property.children, P name)
    (hn : property.isFunction = true → alter property = property.mapChildren alter) :
    propertySteps site owner (alter property) =
      (propertySteps site owner property).map (Step.altered alter change) := by
  have hname := fun name hname =>
    h.member_step site owner .property property (hP name hname)
  cases property with
  | propertyAssignment i name init =>
      have hproperty : alter (.propertyAssignment i name init) =
          .propertyAssignment i (alter name) (alter init) := h.plain _ (ne_of_beq_false rfl) rfl
      have hname := hname name (by simp [children_eq, fields, Field.contents])
      rw [hproperty] at hname ⊢
      simp only [propertySteps, hname, List.map_cons, List.map_nil, Step.altered]
  | shorthandPropertyAssignment i name =>
      have hproperty : alter (.shorthandPropertyAssignment i name) =
          .shorthandPropertyAssignment i (alter name) := h.plain _ (ne_of_beq_false rfl) rfl
      have hname := hname name (by simp [children_eq, fields, Field.contents])
      rw [hproperty] at hname ⊢
      simp only [propertySteps, hname, List.map_cons, List.map_nil, Step.altered, hproperty, h.id,
        h.refers]
  | methodDeclaration i name body =>
      have hproperty : alter (.methodDeclaration i name body) =
          .methodDeclaration i (alter name) (body.map alter) := hn rfl
      have hname := hname name (by simp [children_eq, fields, Field.contents])
      have hinner := h.inner_steps site hn
      rw [hproperty] at hname hinner ⊢
      simp only [propertySteps, hname, hinner, List.map_cons]
  | identifier i text =>
      have hrole := h.role (.identifier i text)
      have hvisit : propertySteps site owner (alter (.identifier i text)) =
          [.visit site (alter (.identifier i text))] := by
        cases halter : alter (.identifier i text) with
        | identifier j other => rfl
        | _ => simp [halter, Node.role] at hrole
      rw [hvisit]
      rfl
  | _ =>
      have hproperty := h.of_function hn (by simp [Node.role])
      simp only [propertySteps, List.map_cons, List.map_nil, Step.altered]
      rw [hproperty]
      rfl

/-- The note of the name of a function or a class is altered. -/
theorem name_steps (h : Alters P alter change) (site : Site) (spaces : List Space)
    (exported : Bool) (kind : SymbolKind) (d : Node) (name : Option Node) :
    ((name.map alter).toList.map fun name => Step.note name
        (site.declare spaces exported (.declaredBy kind (alter d) false) name)) =
      (name.toList.map fun name => Step.note name (site.declare spaces exported
        (.declaredBy kind d false) name)).map (Step.altered alter change) := by
  cases name with
  | none => rfl
  | some name => simp only [Option.map_some, Option.toList_some, List.map_cons, List.map_nil,
      h.note_declare]

/-- What is made of altered nodes is altered if it is so for each of them. -/
theorem flat_map_altered {f : Node → List Step} {ns : List Node}
    (hf : ∀ c ∈ ns, f (alter c) = (f c).map (Step.altered alter change)) :
    (ns.map alter).flatMap f = (ns.flatMap f).map (Step.altered alter change) := by
  rw [List.flatMap_map, List.map_flatMap]
  exact List.flatMap_congr hf

/-- Namespaces are entered as before. -/
theorem enter_namespace (h : Alters P alter change) (site : Site) (id : NodeId) (name : Node) :
    site.enterNamespace id (alter name) = site.enterNamespace id name := by
  have hrole := h.role name
  have hid := h.id name
  have hnone : ∀ n : Node, n.role ≠ .name → site.enterNamespace id n =
      { site.enter .module id with exports := none } := fun n hn => by
    cases n <;> first | rfl | exact absurd rfl hn
  by_cases hname : name.role = .name
  · rw [hname] at hrole
    cases name with
    | identifier i text =>
        cases halter : alter (.identifier i text) with
        | identifier j other =>
            rw [halter] at hid
            have hid : j.id = i.id := hid
            simp only [Site.enterNamespace, hid]
        | _ => simp [halter, Node.role] at hrole
    | _ => simp [Node.role] at hname
  · rw [hnone name hname, hnone _ (hrole ▸ hname)]

/-- The steps of a node that keeps all but its children, as do the methods that are properties of
it, are altered. -/
theorem steps_altered (h : Alters P alter change) (site : Site) (hP : ∀ part ∈ n.parts, P part)
    (hn : n.isFunction = true → alter n = n.mapChildren alter)
    (hmethod : ∀ i properties, n = .objectLiteral i properties → ∀ m ∈ properties,
      m.isFunction = true → alter m = m.mapChildren alter) :
    steps site (alter n) = (steps site n).map (Step.altered alter change) := by
  have hchild : ∀ c ∈ n.children, P c := fun c hc =>
    hP c (parts_subset_of_mem_children hc (mem_parts_self c))
  have hname : ∀ c ∈ n.children, ∀ name ∈ c.children, P name := fun c hc name hname =>
    hP name (parts_subset_of_mem_children hc
      (parts_subset_of_mem_children hname (mem_parts_self name)))
  rw [children_eq] at hchild hname
  have hwhole := fun hrole => h.of_function hn (ne_of_beq_false hrole)
  have hinner := h.inner_steps site hn
  have hnote := fun (site : Site) spaces exported kind name =>
    h.note_declare site spaces exported kind n false name
  have hnames := fun (site : Site) spaces exported kind name =>
    h.name_steps site spaces exported kind n name
  cases n with
  | identifier i text =>
      have hrole := h.role (.identifier i text)
      cases halter : alter (.identifier i text) with
      | identifier j other => rfl
      | _ => simp [halter, Node.role] at hrole
  | typeReference i name arguments | block i statements =>
      rw [hwhole rfl]
      exact visit_all change _ _
  | variableStatement i keyword declarations exported ambient =>
      rw [hwhole rfl]
      exact flat_map_altered fun d _ => (h.variable_steps site _ site _ d).1
  | forInStatement i init expression statement keyword
  | forOfStatement i init expression statement keyword =>
      rw [hwhole rfl]
      simp only [mapChildren, steps, is_variable_declaration_eq, h.role, h.body_steps,
        List.map_append, List.map_cons]
      cases keyword with
      | none => rfl
      | some keyword =>
          dsimp only
          split
          · rw [(h.variable_steps site _ site _ init).2.1]
            rfl
          · rfl
  | catchClause i declaration block =>
      rw [hwhole rfl]
      simp only [mapChildren, steps, Option.toList_map, h.body_steps, List.map_append]
      rw [flat_map_altered fun d _ => (h.variable_steps site site _ .ofParameter d).2.2]
  | functionDeclaration i name parameters body exported =>
      have hn : alter (.functionDeclaration i name parameters body exported) =
          .functionDeclaration i (name.map alter) (parameters.map alter) (body.map alter)
            exported :=
        hn rfl
      rw [hn] at hinner ⊢
      simp only [hn] at hnames
      simp only [steps, hnames, hinner, List.map_append]
  | functionExpression i name parameters body =>
      have hn : alter (.functionExpression i name parameters body) =
          .functionExpression i (name.map alter) (parameters.map alter) (body.map alter) := hn rfl
      rw [hn] at hinner ⊢
      simp only [hn] at hnames
      simp only [steps, hnames, hinner, List.map_append]
  | classDeclaration i name exported =>
      have hn : alter (.classDeclaration i name exported) =
          .classDeclaration i (name.map alter) exported := hwhole rfl
      simp only [hn] at hnames ⊢
      exact hnames _ _ _ _ _
  | typeAliasDeclaration i name type exported =>
      have hn : alter (.typeAliasDeclaration i name type exported) =
          .typeAliasDeclaration i (alter name) (alter type) exported := hwhole rfl
      simp only [hn] at hnote ⊢
      simp only [steps, hnote, List.map_cons, List.map_nil]
      rfl
  | interfaceDeclaration i name members exported =>
      have hn : alter (.interfaceDeclaration i name members exported) =
          .interfaceDeclaration i (alter name) (members.map alter) exported := hwhole rfl
      simp only [hn] at hnote ⊢
      simp only [steps, hnote, h.id, List.map_cons]
      rw [flat_map_altered fun c hc => h.member_steps site _ _ c (hname c (by
        simp [fields, Field.contents, hc]))]
  | enumDeclaration i name members isConst exported =>
      have hn : alter (.enumDeclaration i name members isConst exported) =
          .enumDeclaration i (alter name) (members.map alter) isConst exported := hwhole rfl
      simp only [hn] at hnote ⊢
      simp only [steps, hnote, h.id, List.map_cons]
      rw [flat_map_altered fun c hc => h.member_steps site _ _ c (hname c (by
        simp [fields, Field.contents, hc]))]
  | moduleDeclaration i name body exported =>
      have hn : alter (.moduleDeclaration i name body exported) =
          .moduleDeclaration i (alter name) (body.map alter) exported := hwhole rfl
      simp only [hn] at hnote ⊢
      simp only [steps, hnote, h.enter_namespace, h.body_steps, List.map_cons]
  | importDeclaration i module specifiers =>
      rw [hwhole rfl]
      exact flat_map_altered fun c _ => h.import_steps site module c
  | exportDeclaration i specifiers module isStar =>
      rw [hwhole rfl]
      cases isStar with
      | true => rfl
      | false =>
          exact flat_map_altered fun c hc => h.export_steps site module
            (hchild c (by simp [fields, Field.contents, hc]))
  | objectLiteral i properties =>
      rw [hwhole rfl]
      refine flat_map_altered fun c hc => h.property_steps site _ (hname c ?_) ?_
      · simp [fields, Field.contents, hc]
      · exact hmethod i properties rfl c hc
  | typeLiteral i members =>
      rw [hwhole rfl]
      refine flat_map_altered fun c hc => h.member_steps site _ _ c (hname c ?_)
      simp [fields, Field.contents, hc]
  | _ =>
      rw [hwhole rfl]
      exact (congrArg (visitAll site) (children_map_children alter _)).trans (visit_all change _ _)

/-- The facts of a tree whose functions keep all but their children are changed. -/
theorem of_node_altered (h : Alters P alter change) (site : Site) (hP : ∀ part ∈ n.parts, P part)
    (hfunction : ∀ m, m.isFunction = true → alter m = m.mapChildren alter) :
    ofNode site (alter n) = (ofNode site n).map change := by
  induction n using parts_induction generalizing site with
  | step n ih =>
      rw [of_node_eq, of_node_eq, h.own site n (hP n (mem_parts_self n)), List.map_append,
        h.steps_altered site hP (hfunction n) fun _ _ _ m _ => hfunction m, List.flatMap_map,
        List.map_flatMap]
      congr 1
      refine List.flatMap_congr fun step hstep => ?_
      cases step with
      | note part facts => rfl
      | visit target part =>
          have hpart := parts_subset_below hstep (mem_parts_self part)
          exact ih part hpart target fun m hm =>
            hP m (parts_subset (below_subset_parts n hpart) hm)

end Alters

end StaticLiteral.Binding
