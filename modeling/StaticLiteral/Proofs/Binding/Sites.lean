import StaticLiteral.Proofs.Binding.Steps

/-!
# The sites of steps

`taken_of_mem_steps` says once what a step of binding a node can be and where it is taken: at the
site of the node, at the nearest site for `var` declarations, or in a scope that the node, or a
method that is a child of it, opens. What holds of every fact of a tree is proved from there by
`fact_induction`.
-/

namespace StaticLiteral.Binding

open Node

/-- The steps that are taken at a site. -/
inductive Taken (site : Site) : Step → Prop where
  | declare (spaces : List Space) (exported : Bool) (symbolOf : SymbolId → Text → BoundSymbol)
      (hid : ∀ id text, (symbolOf id text).id = id) (name : Node) :
      Taken site (.note name (site.declare spaces exported symbolOf name))
  | member {owner : SymbolId} {kind : SymbolKind} {member name : Node} {facts : List Fact}
      (h : memberFacts owner kind member name = some facts) : Taken site (.note name facts)
  | shorthand (i : Info) (name : Node) :
      Taken site (.note (.shorthandPropertyAssignment i name) [.refers name.id site.scope])
  | exporting (part : Node) (name : Text) {symbol : BoundSymbol}
      (hid : symbol.id = .node part.id) : Taken site (.note part (site.exporting name symbol))
  | visit (part : Node) : Taken site (.visit site part)

/-- Where a step of a node is taken, seen from the site of the node. -/
inductive Near (site : Site) (n : Node) (step : Step) (target : Site) : Prop where
  | same (h : target.scope = site.scope)
  | hoisted (h : target.scope = site.scope.functionChain)
  | own (kind : ScopeKind) (h : target.scope = ⟨.node n.id, kind⟩ :: site.scope)
  | method (method : Node) (hmethod : method ∈ n.children)
      (hparts : ∀ part ∈ step.parts, part ∈ method.parts)
      (h : target.scope = ⟨.node method.id, .function⟩ :: site.scope)

/-- A function is entered by opening a scope or by staying where one is open. -/
theorem scope_enter_function (site : Site) (id : NodeId) :
    (site.enterFunction id).scope = site.scope ∨
      (site.enterFunction id).scope = ⟨.node id, .function⟩ :: site.scope := by
  unfold Site.enterFunction
  split
  · exact .inl rfl
  · exact .inr rfl

/-- A namespace is entered by opening a scope. -/
theorem scope_enter_namespace (site : Site) (id : NodeId) (name : Node) :
    (site.enterNamespace id name).scope = ⟨.node id, .module⟩ :: site.scope := by
  unfold Site.enterNamespace
  split <;> rfl

/-- A namespace is entered in the same file. -/
theorem file_name_enter_namespace (site : Site) (id : NodeId) (name : Node) :
    (site.enterNamespace id name).fileName = site.fileName := by
  unfold Site.enterNamespace
  split <;> rfl

variable {site target inner : Site} {step : Step} {manner : Manner}

/-- Nodes side by side are bound where they are visited. -/
theorem taken_of_mem_visit_all {ns : List Node} (h : step ∈ visitAll site ns) :
    Taken site step := by
  obtain ⟨part, _, rfl⟩ := List.mem_map.mp h
  exact .visit part

/-- A body is bound where it is visited. -/
theorem taken_of_mem_body_steps {body : Option Node} (h : step ∈ bodySteps site body) :
    Taken site step := by
  unfold bodySteps at h
  split at h <;> exact taken_of_mem_visit_all h

/-- A key is bound where the names of its pattern are declared. -/
theorem taken_of_mem_key_steps {key : Option Node} (h : step ∈ keySteps target key) :
    Taken target step := by
  unfold keySteps at h
  split at h
  · split at h
    · simp at h
    · obtain rfl := List.mem_singleton.mp h
      exact .visit _
  · simp at h

mutual

/-- The steps of a pattern are taken where its names are declared. -/
theorem taken_of_mem_pattern_steps {step : Step} {declaration : Node} : ∀ {name : Node},
    step ∈ patternSteps target manner declaration name → Taken target step := by
  intro name h
  cases name with
  | objectBindingPattern i elements | arrayBindingPattern i elements =>
      rw [patternSteps] at h
      exact taken_of_mem_element_steps h
  | _ =>
      obtain rfl := List.mem_singleton.mp (by simpa only [patternSteps] using h)
      exact .declare _ _ _ (fun _ _ => rfl) _

/-- The steps of the elements of a pattern are taken where its names are declared. -/
theorem taken_of_mem_element_steps {step : Step} : ∀ {elements : List Node},
    step ∈ elementSteps target manner elements → Taken target step
  | [], h => by simp [elementSteps] at h
  | element :: rest, h => by
      cases element with
      | bindingElement i name key init isRest =>
          simp only [elementSteps, List.mem_append] at h
          rcases h with ((h | h) | h) | h
          · exact taken_of_mem_key_steps h
          · exact taken_of_mem_pattern_steps h
          · exact taken_of_mem_visit_all h
          · exact taken_of_mem_element_steps h
      | _ => exact taken_of_mem_element_steps (by simpa only [elementSteps] using h)

end

/-- A variable of a statement is declared at one site and bound at another. -/
theorem taken_of_mem_declarator_steps {declaration : Node}
    (h : step ∈ declaratorSteps site target manner declaration) :
    Taken target step ∨ Taken site step := by
  cases declaration with
  | variableDeclaration i name type init =>
      simp only [declaratorSteps, List.mem_append] at h
      rcases h with (h | h) | h
      · exact .inl (taken_of_mem_pattern_steps h)
      · exact .inr (taken_of_mem_visit_all h)
      · exact .inr (taken_of_mem_visit_all h)
  | _ => simp [declaratorSteps] at h

/-- The variable of a loop is bound where it is declared. -/
theorem taken_of_mem_loop_steps {declaration : Node}
    (h : step ∈ loopSteps target manner declaration) : Taken target step := by
  cases declaration with
  | variableDeclaration i name type init => exact taken_of_mem_pattern_steps h
  | _ => simp [loopSteps] at h

/-- What a clause catches is declared inside of it; its type is bound outside. -/
theorem taken_of_mem_caught_steps {declaration : Node}
    (h : step ∈ caughtSteps site inner declaration) : Taken inner step ∨ Taken site step := by
  cases declaration with
  | variableDeclaration i name type init =>
      rcases List.mem_append.mp h with h | h
      · exact .inl (taken_of_mem_pattern_steps h)
      · exact .inr (taken_of_mem_visit_all h)
  | _ => simp [caughtSteps] at h

/-- A parameter is bound inside its function. -/
theorem taken_of_mem_parameter_steps {parameter : Node}
    (h : step ∈ parameterSteps inner parameter) : Taken inner step := by
  cases parameter with
  | parameter i name type init =>
      simp only [parameterSteps, List.mem_append] at h
      rcases h with (h | h) | h
      · exact taken_of_mem_pattern_steps h
      · exact taken_of_mem_visit_all h
      · exact taken_of_mem_visit_all h
  | _ => simp [parameterSteps] at h

/-- The name of a member is entered, or bound if it is computed. -/
theorem taken_member_step (owner : SymbolId) (kind : SymbolKind) (member name : Node) :
    Taken site (memberStep site owner kind member name) := by
  unfold memberStep
  split
  case h_1 h => exact .member h
  case h_2 => exact .visit name

/-- A member is bound where its owner is. -/
theorem taken_of_mem_member_steps {owner : SymbolId} {kind : SymbolKind} {member : Node}
    (h : step ∈ memberSteps site owner kind member) : Taken site step := by
  cases member with
  | propertySignature i name rest | enumMember i name rest =>
      rcases List.mem_cons.mp h with rfl | h
      · exact taken_member_step owner kind _ name
      · exact taken_of_mem_visit_all h
  | _ => simp [memberSteps] at h

/-- Where the parameters and the body of a function are bound. -/
def innerSite (site : Site) : Node → Site
  | .functionExpression i .. => site.enter .function i.id
  | n => site.enterFunction n.id

/-- A function is entered in the same file. -/
theorem file_name_inner_site (site : Site) (n : Node) :
    (innerSite site n).fileName = site.fileName := by
  unfold innerSite
  split
  · rfl
  · unfold Site.enterFunction
    split <;> rfl

/-- What is inside a function is bound there. -/
theorem taken_of_mem_inner_steps {n : Node} (h : step ∈ innerSteps site n) :
    Taken (innerSite site n) step := by
  cases n with
  | functionDeclaration i name parameters body exported
  | functionExpression i name parameters body =>
      rcases List.mem_append.mp h with h | h
      · obtain ⟨parameter, _, h⟩ := List.mem_flatMap.mp h
        exact taken_of_mem_parameter_steps h
      · exact taken_of_mem_body_steps h
  | methodDeclaration i name body => exact taken_of_mem_body_steps h
  | _ => simp [innerSteps] at h

/-- What is inside a method is among its parts. -/
theorem parts_of_mem_inner_steps {n : Node} (h : step ∈ innerSteps site n) :
    ∀ part ∈ step.parts, part ∈ n.inner.flatMap parts := fun _ hpart =>
  (inner_steps_subperm site n).subset (List.mem_flatMap.mpr ⟨step, h, hpart⟩)

/-- A property is bound where its object is, but for what is inside a method. -/
theorem taken_of_mem_property_steps {owner : SymbolId} {property : Node}
    (h : step ∈ propertySteps site owner property) :
    Taken site step ∨ step ∈ innerSteps site property := by
  cases property with
  | propertyAssignment i name init =>
      simp only [propertySteps, List.mem_cons, List.not_mem_nil, or_false] at h
      rcases h with rfl | rfl
      · exact .inl (taken_member_step owner .property _ name)
      · exact .inl (.visit init)
  | shorthandPropertyAssignment i name =>
      simp only [propertySteps, List.mem_cons, List.not_mem_nil, or_false] at h
      rcases h with rfl | rfl
      · exact .inl (taken_member_step owner .property _ name)
      · exact .inl (.shorthand i name)
  | methodDeclaration i name body =>
      rcases List.mem_cons.mp h with rfl | h
      · exact .inl (taken_member_step owner .property _ name)
      · exact .inr h
  | _ =>
      obtain rfl := List.mem_singleton.mp h
      exact .inl (.visit _)

/-- The name of a function is declared at a site. -/
theorem taken_of_mem_name_steps {name : Option Node} {spaces : List Space} {exported : Bool}
    {symbolOf : SymbolId → Text → BoundSymbol} (hid : ∀ id text, (symbolOf id text).id = id)
    (h : step ∈ name.toList.map fun name =>
      Step.note name (site.declare spaces exported symbolOf name)) : Taken site step := by
  obtain ⟨name, _, rfl⟩ := List.mem_map.mp h
  exact .declare spaces exported symbolOf hid name

/-- What is inside a function or a method is bound near it. -/
theorem scope_inner_site (site : Site) (n : Node) :
    (innerSite site n).scope = site.scope ∨
      (innerSite site n).scope = ⟨.node n.id, .function⟩ :: site.scope := by
  unfold innerSite
  split
  · exact .inr rfl
  · exact scope_enter_function site n.id

/-- A step of binding a node is taken near the site of the node, in the same file. -/
theorem taken_in_file_of_mem_steps {n : Node} (h : step ∈ steps site n) :
    ∃ target, Near site n step target ∧ Taken target step ∧ target.fileName = site.fileName := by
  have hinner : step ∈ innerSteps site n →
      ∃ target, Near site n step target ∧ Taken target step ∧ target.fileName = site.fileName :=
    fun h => by
      refine ⟨innerSite site n, ?_, taken_of_mem_inner_steps h, file_name_inner_site site n⟩
      rcases scope_inner_site site n with hscope | hscope
      · exact .same hscope
      · exact .own .function hscope
  cases n with
  | variableStatement i keyword declarations exported ambient =>
      obtain ⟨declaration, _, h⟩ := List.mem_flatMap.mp h
      rcases taken_of_mem_declarator_steps h with h | h
      · refine ⟨_, ?_, h, ?_⟩
        · split
          · exact .same rfl
          · exact .hoisted rfl
        · split <;> rfl
      · exact ⟨site, .same rfl, h, rfl⟩
  | forInStatement i init expression statement keyword
  | forOfStatement i init expression statement keyword =>
      rcases List.mem_append.mp h with h | h
      · rcases List.mem_cons.mp h with rfl | h
        · exact ⟨site, .same rfl, .visit expression, rfl⟩
        · split at h
          · split at h
            · refine ⟨_, ?_, taken_of_mem_loop_steps h, ?_⟩
              · split
                · exact .hoisted rfl
                · exact .own .block rfl
              · split <;> rfl
            · obtain rfl := List.mem_singleton.mp h
              exact ⟨site, .same rfl, .visit init, rfl⟩
          · obtain rfl := List.mem_singleton.mp h
            exact ⟨site, .same rfl, .visit init, rfl⟩
      · exact ⟨_, .own .block rfl, taken_of_mem_body_steps h, rfl⟩
  | catchClause i declaration block =>
      rcases List.mem_append.mp h with h | h
      · obtain ⟨declaration, _, h⟩ := List.mem_flatMap.mp h
        rcases taken_of_mem_caught_steps h with h | h
        · exact ⟨_, .own .block rfl, h, rfl⟩
        · exact ⟨site, .same rfl, h, rfl⟩
      · exact ⟨_, .own .block rfl, taken_of_mem_body_steps h, rfl⟩
  | functionDeclaration i name parameters body exported =>
      rcases List.mem_append.mp h with h | h
      · exact ⟨_, .hoisted rfl, taken_of_mem_name_steps (fun _ _ => rfl) h, rfl⟩
      · exact hinner h
  | functionExpression i name parameters body =>
      rcases List.mem_append.mp h with h | h
      · exact ⟨_, .own .function rfl, taken_of_mem_name_steps (fun _ _ => rfl) h, rfl⟩
      · exact hinner h
  | block i statements => exact ⟨_, .own .block rfl, taken_of_mem_visit_all h, rfl⟩
  | classDeclaration i name exported =>
      exact ⟨site, .same rfl, taken_of_mem_name_steps (fun _ _ => rfl) h, rfl⟩
  | typeAliasDeclaration i name type exported =>
      rcases List.mem_cons.mp h with rfl | h
      · exact ⟨site, .same rfl, .declare _ _ _ (fun _ _ => rfl) name, rfl⟩
      · obtain rfl := List.mem_singleton.mp h
        exact ⟨site, .same rfl, .visit type, rfl⟩
  | interfaceDeclaration i name members exported
  | enumDeclaration i name members isConst exported =>
      rcases List.mem_cons.mp h with rfl | h
      · exact ⟨site, .same rfl, .declare _ _ _ (fun _ _ => rfl) name, rfl⟩
      · obtain ⟨member, _, h⟩ := List.mem_flatMap.mp h
        exact ⟨site, .same rfl, taken_of_mem_member_steps h, rfl⟩
  | moduleDeclaration i name body exported =>
      rcases List.mem_cons.mp h with rfl | h
      · exact ⟨site, .same rfl, .declare _ _ _ (fun _ _ => rfl) name, rfl⟩
      · refine ⟨_, .own .module ?_, taken_of_mem_body_steps h, ?_⟩
        · exact scope_enter_namespace site i.id name
        · exact file_name_enter_namespace site i.id name
  | importDeclaration i module specifiers =>
      obtain ⟨specifier, _, h⟩ := List.mem_flatMap.mp h
      cases specifier with
      | importSpecifier j name propertyName isNamespace =>
          obtain rfl := List.mem_singleton.mp h
          refine ⟨site, .same rfl, ?_, rfl⟩
          simp only [importFacts, List.append_nil]
          exact .declare _ _ _ (fun _ _ => rfl) name
      | _ => simp [importSteps] at h
  | exportDeclaration i specifiers module isStar =>
      cases isStar with
      | true => simp [steps] at h
      | false =>
          obtain ⟨specifier, _, h⟩ := List.mem_flatMap.mp h
          cases specifier with
          | exportSpecifier j name propertyName =>
              obtain rfl := List.mem_singleton.mp h
              refine ⟨site, .same rfl, ?_, rfl⟩
              simp only [exportFacts, List.append_nil]
              exact .exporting _ name rfl
          | _ => simp [exportSteps] at h
  | objectLiteral i properties =>
      obtain ⟨property, hproperty, h⟩ := List.mem_flatMap.mp h
      rcases taken_of_mem_property_steps h with h | h
      · exact ⟨site, .same rfl, h, rfl⟩
      · refine ⟨innerSite site property, ?_, taken_of_mem_inner_steps h,
          file_name_inner_site site property⟩
        rcases scope_inner_site site property with hscope | hscope
        · exact .same hscope
        · refine .method property ?_ (fun part hpart => ?_) hscope
          · simpa [children_eq, fields, Field.contents] using hproperty
          · obtain ⟨m, hm, hpart⟩ := List.mem_flatMap.mp (parts_of_mem_inner_steps h part hpart)
            exact parts_subset_of_mem_children (inner_subset_children property hm) hpart
  | typeLiteral i members =>
      obtain ⟨member, _, h⟩ := List.mem_flatMap.mp h
      exact ⟨site, .same rfl, taken_of_mem_member_steps h, rfl⟩
  | _ => exact ⟨site, .same rfl, taken_of_mem_visit_all h, rfl⟩

/-- A step of binding a node is taken near the site of the node. -/
theorem taken_of_mem_steps {n : Node} (h : step ∈ steps site n) :
    ∃ target, Near site n step target ∧ Taken target step := by
  obtain ⟨target, hnear, htaken, _⟩ := taken_in_file_of_mem_steps h
  exact ⟨target, hnear, htaken⟩

/-- A fact of a tree is one of a node about itself, or one that a step about a node establishes, or
one of a node that is visited. -/
@[elab_as_elim]
theorem fact_induction {fact : Fact} {motive : (site : Site) → (n : Node) → Prop}
    (own : ∀ site n, fact ∈ ownFacts site n → motive site n)
    (note : ∀ site n target part facts, .note part facts ∈ steps site n →
      Near site n (.note part facts) target → Taken target (.note part facts) → fact ∈ facts →
      motive site n)
    (visit : ∀ site n target part, .visit target part ∈ steps site n →
      Near site n (.visit target part) target → fact ∈ ofNode target part → motive target part →
      motive site n)
    (site : Site) (n : Node) (h : fact ∈ ofNode site n) : motive site n := by
  induction n using parts_induction generalizing site with
  | step n ih =>
      rw [of_node_eq] at h
      rcases List.mem_append.mp h with h | h
      · exact own site n h
      · obtain ⟨step, hstep, h⟩ := List.mem_flatMap.mp h
        obtain ⟨target, hnear, htaken⟩ := taken_of_mem_steps hstep
        cases step with
        | note part facts => exact note site n target part facts hstep hnear htaken h
        | visit _ part =>
            cases htaken
            have hbelow := parts_subset_below hstep (mem_parts_self part)
            exact visit site n target part hstep hnear h (ih part hbelow target h)

end StaticLiteral.Binding
