import StaticLiteral.Proofs.Binding.Sites
import StaticLiteral.Proofs.Syntax.Emptied

/-!
# Binding with a function left empty

Binding takes the same steps in a tree with an empty function, but for those inside the function.
`of_node_emptied` carries this over whole trees: the facts are the same, in the same order, but for
facts that steps inside the function establish.
-/

namespace StaticLiteral

/-- One list is another one with all elements changed and some lost ones left out. -/
inductive Pruned {α : Type} (lost : α → Prop) (change : α → α) : List α → List α → Prop where
  | nil : Pruned lost change [] []
  | keep {xs ys : List α} (x : α) : Pruned lost change xs ys →
      Pruned lost change (x :: xs) (change x :: ys)
  | lose {x : α} {xs ys : List α} : lost x → Pruned lost change xs ys →
      Pruned lost change (x :: xs) ys

namespace Pruned

variable {α β : Type} {lost : α → Prop} {change : α → α} {xs ys : List α}

/-- Nothing needs to be lost. -/
theorem map (lost : α → Prop) (change : α → α) (xs : List α) :
    Pruned lost change xs (xs.map change) := by
  induction xs with
  | nil => exact .nil
  | cons x xs ih => exact .keep x ih

/-- Everything may be lost. -/
theorem lose_all (h : ∀ x ∈ xs, lost x) : Pruned lost change xs [] := by
  induction xs with
  | nil => exact .nil
  | cons x xs ih => exact .lose (h x (by simp)) (ih fun y hy => h y (List.mem_cons_of_mem x hy))

/-- What is lost may be lost for a weaker reason. -/
theorem mono {gone : α → Prop} (h : Pruned lost change xs ys) (hgone : ∀ x, lost x → gone x) :
    Pruned gone change xs ys := by
  induction h with
  | nil => exact .nil
  | keep x _ ih => exact .keep x ih
  | lose hx _ ih => exact .lose (hgone _ hx) ih

/-- Lists are pruned one after the other. -/
theorem append {vs ws : List α} (h : Pruned lost change xs ys) (h' : Pruned lost change vs ws) :
    Pruned lost change (xs ++ vs) (ys ++ ws) := by
  induction h with
  | nil => exact h'
  | keep x _ ih => exact .keep x ih
  | lose hx _ ih => exact .lose hx ih

/-- Lists that belong to the elements of one list are pruned one after the other. -/
theorem flat_map {f g : β → List α} {bs : List β}
    (h : ∀ b ∈ bs, Pruned lost change (f b) (g b)) :
    Pruned lost change (bs.flatMap f) (bs.flatMap g) := by
  induction bs with
  | nil => exact .nil
  | cons b bs ih =>
      exact (h b (by simp)).append (ih fun c hc => h c (List.mem_cons_of_mem b hc))

/-- With an element that is lost goes all that belongs to it. -/
theorem bind {lose : β → Prop} {alter : β → β} {bs cs : List β} {f : β → List α}
    (h : Pruned lose alter bs cs) (hlost : ∀ b ∈ bs, lose b → ∀ a ∈ f b, lost a)
    (hkept : ∀ b ∈ bs, Pruned lost change (f b) (f (alter b))) :
    Pruned lost change (bs.flatMap f) (cs.flatMap f) := by
  induction h with
  | nil => exact .nil
  | keep b _ ih =>
      exact (hkept b (by simp)).append (ih (fun c hc => hlost c (List.mem_cons_of_mem b hc))
        fun c hc => hkept c (List.mem_cons_of_mem b hc))
  | @lose b _ _ hb _ ih =>
      have hgone : Pruned lost change (f b) [] := lose_all (hlost b (by simp) hb)
      exact hgone.append (ih (fun c hc => hlost c (List.mem_cons_of_mem b hc))
        fun c hc => hkept c (List.mem_cons_of_mem b hc))

/-- An element is lost or its change is kept. -/
theorem lost_or_mem (h : Pruned lost change xs ys) {x : α} (hx : x ∈ xs) :
    lost x ∨ change x ∈ ys := by
  induction h with
  | nil => simp at hx
  | keep y _ ih =>
      rcases List.mem_cons.mp hx with rfl | hx
      · exact .inr List.mem_cons_self
      · exact (ih hx).imp_right (List.mem_cons_of_mem _)
  | lose hy _ ih =>
      rcases List.mem_cons.mp hx with rfl | hx
      · exact .inl hy
      · exact ih hx

/-- What the last element tells stays the same, changed, if no element that is lost tells it. -/
theorem last_eq {tells : α → Option β} {alter : β → β} (h : Pruned lost change xs ys)
    (htells : ∀ x, tells (change x) = (tells x).map alter)
    (hlost : ∀ x ∈ xs, lost x → ∀ b, tells x = some b → (xs.filterMap tells).getLast? ≠ some b) :
    (ys.filterMap tells).getLast? = (xs.filterMap tells).getLast?.map alter := by
  -- What the elements behind the first one tell last is what all of them tell last.
  have hrest {x : α} {xs : List α} {b : β} (h : (xs.filterMap tells).getLast? = some b) :
      ((x :: xs).filterMap tells).getLast? = some b := by
    cases hx : tells x with
    | none => rw [List.filterMap_cons_none hx, h]
    | some c => rw [List.filterMap_cons_some hx, List.getLast?_cons, h, Option.getD_some]
  induction h with
  | nil => rfl
  | @keep xs ys x _ ih =>
      have ih := ih fun y hy hgone b hb heq =>
        hlost y (List.mem_cons_of_mem x hy) hgone b hb (hrest heq)
      cases hx : tells x with
      | none =>
          rw [List.filterMap_cons_none hx, List.filterMap_cons_none (by simp [htells, hx]), ih]
      | some b =>
          rw [List.filterMap_cons_some hx, List.filterMap_cons_some (by rw [htells, hx]; rfl),
            List.getLast?_cons, List.getLast?_cons, ih]
          cases (xs.filterMap tells).getLast? <;> rfl
  | @lose x xs ys hgone _ ih =>
      have ih := ih fun y hy hgone b hb heq =>
        hlost y (List.mem_cons_of_mem x hy) hgone b hb (hrest heq)
      cases hx : tells x with
      | none => rw [List.filterMap_cons_none hx, ih]
      | some b =>
          have hne := hlost x (by simp) hgone b hx
          rw [List.filterMap_cons_some hx, List.getLast?_cons] at hne ⊢
          cases hlast : (xs.filterMap tells).getLast? with
          | none => simp [hlast] at hne
          | some c => rw [ih, hlast]; rfl

end Pruned

/-- The symbol with the function `target` left empty in its declaration. -/
def Symbol.emptied {ι : Type} (target : NodeId) (symbol : Symbol ι) : Symbol ι :=
  { symbol with declaration := symbol.declaration.map (Node.emptied target) }

/-- The fact with the function `target` left empty in the declaration of its symbol. -/
def Fact.emptied (target : NodeId) : Fact → Fact := Fact.mapSymbol (Symbol.emptied target)

namespace Binding

open Node

/-- Binding a node comes to a function, and what is inside the function is bound at the other site.
A method that is no property of an object literal is bound like any other node. -/
inductive Enters : Site → Node → Node → Site → Prop where
  | declaration {site : Site} (i : Info) (name : Option Node) (parameters : List Node)
      (body : Option Node) (exported : Bool) :
      Enters site (.functionDeclaration i name parameters body exported)
        (.functionDeclaration i name parameters body exported) (site.enterFunction i.id)
  | expression {site : Site} (i : Info) (name : Option Node) (parameters : List Node)
      (body : Option Node) :
      Enters site (.functionExpression i name parameters body)
        (.functionExpression i name parameters body) (site.enter .function i.id)
  | property {site : Site} {i j : Info} {name : Node} {body : Option Node}
      {properties : List Node} (h : .methodDeclaration j name body ∈ properties) :
      Enters site (.objectLiteral i properties) (.methodDeclaration j name body)
        (site.enterFunction j.id)
  | lone {site : Site} (i : Info) (name : Node) (body : Option Node) :
      Enters site (.methodDeclaration i name body) (.methodDeclaration i name body) site
  | visit {site target inner : Site} {n m f : Node} (hstep : .visit target m ∈ steps site n)
      (h : Enters target m f inner) : Enters site n f inner

/-- A step inside the function `target`. -/
def Inside (site : Site) (n : Node) (target : NodeId) (step : Step) : Prop :=
  ∃ f inner, Enters site n f inner ∧ f.id = target ∧ Taken inner step ∧
    ∀ part ∈ step.parts, part ∈ f.inner.flatMap parts

/-- A fact that a step inside the function `target` establishes. -/
def Lost (site : Site) (n : Node) (target : NodeId) (fact : Fact) : Prop :=
  ∃ step, Inside site n target step ∧ fact ∈ step.facts

/-- The step with the function `target` left empty in its node. -/
def Step.emptied (target : NodeId) : Step → Step
  | note part facts => note (part.emptied target) (facts.map (Fact.emptied target))
  | visit site part => visit site (part.emptied target)

/-- A function that binding comes to is one of the parts. -/
theorem mem_parts_of_enters {site inner : Site} {n f : Node} (h : Enters site n f inner) :
    f ∈ n.parts := by
  induction h with
  | declaration | expression | lone => exact mem_parts_self _
  | property h =>
      refine parts_subset_of_mem_children ?_ (mem_parts_self _)
      simpa [children_eq, fields, Field.contents] using h
  | visit hstep _ ih => exact parts_subset_parts hstep ih

/-! ## Steps that stay -/

variable (t : NodeId) (site target inner : Site) (manner : Manner)

/-- A symbol is emptied with its declaration. -/
@[simp]
theorem declared_by_emptied (kind : SymbolKind) (declaration : Node) (isConst : Bool)
    (id : SymbolId) (name : Text) :
    (Symbol.declaredBy kind declaration isConst id name).emptied t =
      .declaredBy kind (declaration.emptied t) isConst id name := rfl

/-- Exports are entered for the changed symbol. -/
@[simp]
theorem exporting_emptied (name : Text) (symbol : BoundSymbol) :
    (site.exporting name symbol).map (Fact.emptied t) = site.exporting name (symbol.emptied t) := by
  simp [Site.exporting, Fact.emptied, Fact.mapSymbol]

/-- Names are declared with the changed symbol. -/
@[simp]
theorem declare_emptied (spaces : List Space) (exported : Bool) (kind : SymbolKind)
    (declaration : Node) (isConst : Bool) (name : Node) :
    site.declare spaces exported (.declaredBy kind (declaration.emptied t) isConst)
        (name.emptied t) =
      (site.declare spaces exported (.declaredBy kind declaration isConst) name).map
        (Fact.emptied t) := by
  cases name with
  | identifier i text =>
      cases exported <;>
        simp [Node.emptied, Site.declare, Fact.emptied, Fact.mapSymbol, List.map_flatMap,
          Site.exporting, Function.comp_def]
  | _ => rfl

/-- A name is noted with the changed symbol. -/
theorem note_declare_emptied (spaces : List Space) (exported : Bool) (kind : SymbolKind)
    (declaration : Node) (isConst : Bool) (name : Node) :
    Step.note (name.emptied t) (site.declare spaces exported
        (.declaredBy kind (declaration.emptied t) isConst) (name.emptied t)) =
      (Step.note name (site.declare spaces exported
        (.declaredBy kind declaration isConst) name)).emptied t := by
  rw [declare_emptied, Step.emptied]

/-- Nodes side by side are visited with the function left empty. -/
@[simp]
theorem visit_all_emptied (ns : List Node) :
    visitAll site (ns.map (Node.emptied t)) = (visitAll site ns).map (Step.emptied t) := by
  simp [visitAll, Step.emptied, Function.comp_def]

/-- A node that may be missing is visited with the function left empty. -/
@[simp]
theorem visit_option_emptied (n : Option Node) :
    visitAll site (n.map (Node.emptied t)).toList =
      (visitAll site n.toList).map (Step.emptied t) := by
  cases n <;> simp [visitAll, Step.emptied]

/-- The steps of a body stay. -/
@[simp]
theorem body_steps_emptied (body : Option Node) :
    bodySteps site (body.map (Node.emptied t)) = (bodySteps site body).map (Step.emptied t) := by
  cases body with
  | none => rfl
  | some n => cases n <;> simp [bodySteps, Node.emptied, visitAll, Step.emptied, Function.comp_def]

/-- The step of a key stays. -/
@[simp]
theorem key_steps_emptied (key : Option Node) :
    keySteps target (key.map (Node.emptied t)) = (keySteps target key).map (Step.emptied t) := by
  cases key with
  | none => rfl
  | some key =>
      by_cases h : key.identifier?.isSome <;> simp [keySteps, h, Step.emptied]

mutual

/-- The steps of a pattern stay. -/
theorem pattern_steps_emptied (manner : Manner) (declaration : Node) : ∀ name : Node,
    patternSteps target manner (declaration.emptied t) (name.emptied t) =
      (patternSteps target manner declaration name).map (Step.emptied t) := by
  intro name
  have hname := note_declare_emptied t target [.value] manner.exported manner.kind declaration
    manner.isConst name
  cases name with
  | objectBindingPattern i elements | arrayBindingPattern i elements =>
      simp only [Node.emptied, patternSteps, emptied_all_eq]
      exact element_steps_emptied manner elements
  | _ =>
      simpa only [Node.emptied, patternSteps, List.map_cons, List.map_nil, List.cons.injEq,
        and_true] using hname

/-- The steps of the elements of a pattern stay. -/
theorem element_steps_emptied (manner : Manner) : ∀ elements : List Node,
    elementSteps target manner (elements.map (Node.emptied t)) =
      (elementSteps target manner elements).map (Step.emptied t)
  | [] => rfl
  | element :: rest => by
      have ih := element_steps_emptied manner rest
      cases element with
      | bindingElement i name key init isRest =>
          have hname := pattern_steps_emptied manner (.bindingElement i name key init isRest) name
          simp only [Node.emptied, emptied_option_eq] at hname
          simp [elementSteps, Node.emptied, hname, ih]
      | _ => simpa [elementSteps, Node.emptied] using ih

end

/-- The steps of a variable of a statement stay. -/
theorem declarator_steps_emptied (declaration : Node) :
    declaratorSteps site target manner (declaration.emptied t) =
      (declaratorSteps site target manner declaration).map (Step.emptied t) := by
  cases declaration with
  | variableDeclaration i name type init =>
      have hname :=
        pattern_steps_emptied t target manner (.variableDeclaration i name type init) name
      simp only [Node.emptied, emptied_option_eq] at hname
      simp [declaratorSteps, Node.emptied, hname]
  | _ => rfl

/-- The steps of the variable of a loop stay. -/
theorem loop_steps_emptied (declaration : Node) :
    loopSteps target manner (declaration.emptied t) =
      (loopSteps target manner declaration).map (Step.emptied t) := by
  cases declaration with
  | variableDeclaration i name type init =>
      have hname :=
        pattern_steps_emptied t target manner (.variableDeclaration i name type init) name
      simp only [Node.emptied, emptied_option_eq] at hname
      simp [loopSteps, Node.emptied, hname]
  | _ => rfl

/-- The steps of what a clause catches stay. -/
theorem caught_steps_emptied (declaration : Node) :
    caughtSteps site inner (declaration.emptied t) =
      (caughtSteps site inner declaration).map (Step.emptied t) := by
  cases declaration with
  | variableDeclaration i name type init =>
      have hname :=
        pattern_steps_emptied t inner .ofParameter (.variableDeclaration i name type init) name
      simp only [Node.emptied, emptied_option_eq] at hname
      simp [caughtSteps, Node.emptied, hname]
  | _ => rfl

/-- The steps of a parameter stay. -/
theorem parameter_steps_emptied (parameter : Node) :
    parameterSteps inner (parameter.emptied t) =
      (parameterSteps inner parameter).map (Step.emptied t) := by
  cases parameter with
  | parameter i name type init =>
      have hname := pattern_steps_emptied t inner .ofParameter (.parameter i name type init) name
      simp only [Node.emptied, emptied_option_eq] at hname
      simp [parameterSteps, Node.emptied, hname]
  | _ => rfl

/-- The step of the name of a member stays. -/
@[simp]
theorem member_step_emptied (owner : SymbolId) (kind : SymbolKind) (member name : Node) :
    memberStep site owner kind (member.emptied t) (name.emptied t) =
      (memberStep site owner kind member name).emptied t := by
  cases name <;> rfl

/-- The steps of a member stay. -/
theorem member_steps_emptied (owner : SymbolId) (kind : SymbolKind) (member : Node) :
    memberSteps site owner kind (member.emptied t) =
      (memberSteps site owner kind member).map (Step.emptied t) := by
  cases member with
  | propertySignature i name rest =>
      have hname := member_step_emptied t site owner kind (.propertySignature i name rest) name
      simp only [Node.emptied, emptied_option_eq] at hname
      simp [memberSteps, Node.emptied, hname]
  | enumMember i name rest =>
      have hname := member_step_emptied t site owner kind (.enumMember i name rest) name
      simp only [Node.emptied, emptied_option_eq] at hname
      simp [memberSteps, Node.emptied, hname]
  | _ => rfl

/-- The step of an import stays. -/
theorem import_steps_emptied (module : Text) (specifier : Node) :
    importSteps site module (specifier.emptied t) =
      (importSteps site module specifier).map (Step.emptied t) := by
  cases specifier with
  | importSpecifier i name propertyName isNamespace =>
      have hname := note_declare_emptied t site [.value, .type] false (.aliasOf
        { sourceFile := some site.fileName, module := some module
          importName := if isNamespace then none else propertyName })
        (.importSpecifier i name propertyName isNamespace) false name
      simpa [importSteps, importFacts, Node.emptied] using hname
  | _ => rfl

/-- The step of an export stays. -/
theorem export_steps_emptied (module : Option Text) (specifier : Node) :
    exportSteps site module (specifier.emptied t) =
      (exportSteps site module specifier).map (Step.emptied t) := by
  cases specifier with
  | exportSpecifier i name propertyName =>
      simp only [exportSteps, exportFacts, Node.emptied, List.map_cons, List.map_nil, Step.emptied,
        List.append_nil, exporting_emptied, declared_by_emptied]
  | _ => rfl

/-- The steps inside a function stay, unless it is the one that is left empty. -/
theorem inner_steps_emptied {n : Node} {lost : Step → Prop}
    (hlost : n.id = t → ∀ step ∈ innerSteps site n, lost step) :
    Pruned lost (Step.emptied t) (innerSteps site n) (innerSteps site (n.emptied t)) := by
  have hparameters (inner : Site) (parameters : List Node) :
      (parameters.map (Node.emptied t)).flatMap (parameterSteps inner) =
        (parameters.flatMap (parameterSteps inner)).map (Step.emptied t) := by
    simp [List.flatMap_map, List.map_flatMap, parameter_steps_emptied]
  by_cases h : n.id = t
  · have hnone : innerSteps site (n.emptied t) = [] := by
      rw [← h]
      cases n <;> simp [innerSteps, Node.emptied, Node.id, Node.info, bodySteps, visitAll]
    rw [hnone]
    exact .lose_all (hlost h)
  · have hstay : innerSteps site (n.emptied t) = (innerSteps site n).map (Step.emptied t) := by
      cases n with
      | functionDeclaration i name parameters body exported
      | functionExpression i name parameters body =>
          have hne : i.id ≠ t := h
          simp [innerSteps, Node.emptied, hne, hparameters]
      | methodDeclaration i name body =>
          have hne : i.id ≠ t := h
          simp [innerSteps, Node.emptied, hne]
      | _ => rfl
    rw [hstay]
    exact .map _ _ _

/-- The steps of a property stay, but for those inside a method. -/
theorem property_steps_emptied (owner : SymbolId) {property : Node} {lost : Step → Prop}
    (hlost : ∀ i name body, property = .methodDeclaration i name body → property.id = t →
      ∀ step ∈ innerSteps site property, lost step) :
    Pruned lost (Step.emptied t) (propertySteps site owner property)
      (propertySteps site owner (property.emptied t)) := by
  have hname (name : Node) := member_step_emptied t site owner .property property name
  cases property with
  | methodDeclaration i name body =>
      have hinner := inner_steps_emptied t site (hlost i name body rfl)
      simp only [Node.emptied] at hname hinner
      simp only [propertySteps, Node.emptied, hname]
      exact .keep _ hinner
  | propertyAssignment i name init | shorthandPropertyAssignment i name =>
      simp only [Node.emptied] at hname
      simp only [propertySteps, Node.emptied, hname, id_emptied]
      exact .map _ _ _
  | _ => exact .map _ _ _

/-- The note of the name of a function stays. -/
theorem name_steps_emptied (exported : Bool) (kind : SymbolKind) (declaration : Node)
    (name : Option Node) (spaces : List Space) :
    ((name.map (Node.emptied t)).toList.map fun name => Step.note name
        (site.declare spaces exported (.declaredBy kind (declaration.emptied t) false) name)) =
      (name.toList.map fun name => Step.note name (site.declare spaces exported
        (.declaredBy kind declaration false) name)).map (Step.emptied t) := by
  cases name with
  | none => rfl
  | some name => simp [Step.emptied]

/-- The steps of a node stay, but for those inside the function that is left empty. -/
theorem steps_emptied (n : Node) :
    Pruned (Inside site n t) (Step.emptied t) (steps site n) (steps site (n.emptied t)) := by
  -- Only functions and object literals have steps inside a function; the others keep all.
  have hstay : steps site (n.emptied t) = (steps site n).map (Step.emptied t) →
      Pruned (Inside site n t) (Step.emptied t) (steps site n) (steps site (n.emptied t)) :=
    fun h => h ▸ .map _ _ _
  have hvisit (h : n.isFunction = true → n.id ≠ t) :
      visitAll site (n.emptied t).children = (visitAll site n.children).map (Step.emptied t) := by
    rw [children_emptied h, visit_all_emptied]
  have hinside (f : Node) (henters : Enters site n f (innerSite site f)) :
      f.id = t → ∀ step ∈ innerSteps site f, Inside site n t step := fun hid step hstep =>
    ⟨f, innerSite site f, henters, hid, taken_of_mem_inner_steps hstep,
      parts_of_mem_inner_steps hstep⟩
  cases n with
  | functionDeclaration i name parameters body exported =>
      have hname := name_steps_emptied t site.hoisted exported .function
        (.functionDeclaration i name parameters body exported) name [.value]
      have hinner := inner_steps_emptied t site (hinside _ (.declaration i name parameters body _))
      simp only [Node.emptied, emptied_option_eq] at hname hinner
      simp only [steps, Node.emptied, emptied_option_eq, hname]
      exact (Pruned.map _ _ _).append hinner
  | functionExpression i name parameters body =>
      have hname := name_steps_emptied t (site.enter .function i.id) false .function
        (.functionExpression i name parameters body) name [.value]
      have hinner := inner_steps_emptied t site (hinside _ (.expression i name parameters body))
      simp only [Node.emptied, emptied_option_eq] at hname hinner
      simp only [steps, Node.emptied, emptied_option_eq, hname]
      exact (Pruned.map _ _ _).append hinner
  | methodDeclaration i name body =>
      by_cases h : i.id = t
      · have hsteps : steps site (.methodDeclaration i name body) =
            .visit site name :: visitAll site body.toList := by
          simp [steps, children_eq, fields, Field.contents, visitAll]
        have hemptied : steps site (Node.emptied t (.methodDeclaration i name body)) =
            [.visit site (name.emptied t)] := by
          simp [steps, Node.emptied, h, children_eq, fields, Field.contents, visitAll]
        have hgone : Pruned (Inside site (.methodDeclaration i name body) t) (Step.emptied t)
            (visitAll site body.toList) [] := by
          refine .lose_all fun step hstep => ?_
          obtain ⟨part, hpart, rfl⟩ := List.mem_map.mp hstep
          refine ⟨_, site, .lone i name body, h, .visit part, fun m hm => ?_⟩
          exact List.mem_flatMap.mpr ⟨part, hpart, hm⟩
        rw [hsteps, hemptied]
        exact .keep (Step.visit site name) hgone
      · exact hstay (hvisit fun _ => h)
  | objectLiteral i properties =>
      simp only [steps, Node.emptied, emptied_all_eq, List.flatMap_map]
      refine .flat_map fun property hproperty => property_steps_emptied t site _ ?_
      rintro j name body rfl
      exact hinside _ (.property hproperty)
  | typeReference i name arguments =>
      refine hstay ?_
      simp [steps, Node.emptied]
  | variableStatement i keyword declarations exported ambient =>
      refine hstay ?_
      simp [steps, Node.emptied, List.flatMap_map, List.map_flatMap, declarator_steps_emptied]
  | forInStatement i init expression statement keyword
  | forOfStatement i init expression statement keyword =>
      refine hstay ?_
      cases keyword with
      | none => simp [steps, Node.emptied, Step.emptied]
      | some keyword =>
          by_cases hinit : init.isVariableDeclaration <;>
            simp [steps, Node.emptied, Step.emptied, hinit, loop_steps_emptied]
  | catchClause i declaration block =>
      refine hstay ?_
      cases declaration <;> simp [steps, Node.emptied, caught_steps_emptied]
  | block i statements =>
      refine hstay ?_
      simp [steps, Node.emptied]
  | classDeclaration i name exported =>
      refine hstay ?_
      have hname := name_steps_emptied t site exported .classDefinition
        (.classDeclaration i name exported) name [.value, .type]
      simp only [Node.emptied, emptied_option_eq] at hname
      simp only [steps, Node.emptied, emptied_option_eq]
      exact hname
  | typeAliasDeclaration i name type exported =>
      refine hstay ?_
      have hname := note_declare_emptied t site [.type] exported .typeAlias
        (.typeAliasDeclaration i name type exported) false name
      simp only [Node.emptied] at hname
      simp [steps, Node.emptied, hname, Step.emptied]
  | interfaceDeclaration i name members exported =>
      refine hstay ?_
      have hname := note_declare_emptied t site [.type] exported .interface
        (.interfaceDeclaration i name members exported) false name
      simp only [Node.emptied, emptied_all_eq] at hname
      simp [steps, Node.emptied, hname, List.flatMap_map, List.map_flatMap, member_steps_emptied]
  | enumDeclaration i name members isConst exported =>
      refine hstay ?_
      have hname := note_declare_emptied t site [.value, .type] exported .enum
        (.enumDeclaration i name members isConst exported) false name
      simp only [Node.emptied, emptied_all_eq] at hname
      simp [steps, Node.emptied, hname, List.flatMap_map, List.map_flatMap, member_steps_emptied]
  | moduleDeclaration i name body exported =>
      refine hstay ?_
      have hname := note_declare_emptied t site [.value, .type] exported .namespaceBlock
        (.moduleDeclaration i name body exported) false name
      have hsite : site.enterNamespace i.id (name.emptied t) = site.enterNamespace i.id name := by
        cases name <;> rfl
      simp only [Node.emptied, emptied_option_eq] at hname
      simp [steps, Node.emptied, hname, hsite]
  | importDeclaration i module specifiers =>
      refine hstay ?_
      simp [steps, Node.emptied, List.flatMap_map, List.map_flatMap, import_steps_emptied]
  | exportDeclaration i specifiers module isStar =>
      refine hstay ?_
      cases isStar <;>
        simp [steps, Node.emptied, List.flatMap_map, List.map_flatMap, export_steps_emptied]
  | typeLiteral i members =>
      refine hstay ?_
      simp [steps, Node.emptied, List.flatMap_map, List.map_flatMap, member_steps_emptied]
  | _ => exact hstay (hvisit (by simp [isFunction]))

/-- The facts of a node about itself stay. -/
theorem own_facts_emptied (n : Node) :
    ownFacts site (n.emptied t) = (ownFacts site n).map (Fact.emptied t) := by
  cases n with
  | typeReference i name arguments => simp [ownFacts, Node.emptied, Fact.emptied, Fact.mapSymbol]
  | exportDeclaration i specifiers module isStar =>
      cases isStar with
      | false => rfl
      | true =>
          cases module with
          | none => rfl
          | some module =>
              simp only [ownFacts, Node.emptied, starFacts]
              split <;> rfl
  | exportAssignment i e =>
      simp only [ownFacts, Node.emptied, defaultFacts, exporting_emptied]
      cases e <;> rfl
  | _ => rfl

/-- The facts of a tree stay, but for those inside the function that is left empty. -/
theorem of_node_emptied (n : Node) :
    Pruned (Lost site n t) (Fact.emptied t) (ofNode site n) (ofNode site (n.emptied t)) := by
  induction n using parts_induction generalizing site with
  | step n ih =>
      rw [of_node_eq, of_node_eq, own_facts_emptied]
      refine (Pruned.map _ _ _).append ((steps_emptied t site n).bind ?_ ?_)
      · exact fun step _ hinside fact hfact => ⟨step, hinside, hfact⟩
      · intro step hstep
        cases step with
        | note part facts => exact .map _ _ _
        | visit target part =>
            have hpart := parts_subset_below hstep (mem_parts_self part)
            refine (ih part hpart target).mono fun fact hlost => ?_
            obtain ⟨inside, ⟨f, inner, henters, hinside⟩, hfact⟩ := hlost
            exact ⟨inside, ⟨f, inner, .visit hstep henters, hinside⟩, hfact⟩

end Binding

end StaticLiteral
