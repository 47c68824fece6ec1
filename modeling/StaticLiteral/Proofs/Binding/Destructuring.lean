import StaticLiteral.Proofs.Binding.Names
import StaticLiteral.Proofs.Program.Coverage

/-!
# Names in patterns

`Destructures` lists the places of patterns: variables of statements and loops, what a clause
catches, and parameters, with the scope that the names in them belong to. Each name is declared
there by the element that it is the name of: `declares_of_destructured`. A key is the name of
nothing, and whatever is declared has a name: `not_names_of_key`, `exists_names_of_declares`.
-/

namespace StaticLiteral

/-- The symbol of a name in a pattern: a variable that the element declares. -/
def Manner.symbolOf (manner : Manner) (element : Node) (i : Info) (text : Text) : BoundSymbol :=
  .declaredBy manner.kind element manner.isConst (.node i.id) text

namespace Binding

open Node

/-- The node declares the names in the pattern, and `target` leads from the site of the node to
theirs: constants and `let` variables belong to the scope of the statement or of the loop, `var`
variables to the nearest scope that is no block, parameters to that of the function and what is
caught to that of the clause. -/
inductive Destructures : Node → (Site → Site) → Manner → Node → Prop
  | statement {i j : Info} {keyword : DeclarationKind} {declarations : List Node}
      {exported ambient : Bool} {pattern : Node} {type init : Option Node}
      (h : .variableDeclaration j pattern type init ∈ declarations) :
      Destructures (.variableStatement i keyword declarations exported ambient)
        (fun site => if keyword = .const ∨ keyword = .let then site else site.hoisted)
        (.ofKeyword keyword exported) pattern
  | parameter {i j : Info} {name body : Option Node} {parameters : List Node} {exported : Bool}
      {pattern : Node} {type init : Option Node}
      (h : .parameter j pattern type init ∈ parameters) :
      Destructures (.functionDeclaration i name parameters body exported)
        (·.enterFunction i.id) .ofParameter pattern
  | parameterOfExpression {i j : Info} {name body : Option Node} {parameters : List Node}
      {pattern : Node} {type init : Option Node}
      (h : .parameter j pattern type init ∈ parameters) :
      Destructures (.functionExpression i name parameters body)
        (·.enter .function i.id) .ofParameter pattern
  | forIn {i j : Info} {keyword : DeclarationKind} {pattern expression : Node}
      {type init statement : Option Node} :
      Destructures (.forInStatement i (.variableDeclaration j pattern type init) expression
          statement (some keyword))
        (fun site => if keyword = .var then site.hoisted else site.enter .block i.id)
        (.ofLoopKeyword keyword) pattern
  | forOf {i j : Info} {keyword : DeclarationKind} {pattern expression : Node}
      {type init statement : Option Node} :
      Destructures (.forOfStatement i (.variableDeclaration j pattern type init) expression
          statement (some keyword))
        (fun site => if keyword = .var then site.hoisted else site.enter .block i.id)
        (.ofLoopKeyword keyword) pattern
  | caught {i j : Info} {pattern : Node} {type init block : Option Node} :
      Destructures (.catchClause i (some (.variableDeclaration j pattern type init)) block)
        (·.enter .block i.id) .ofParameter pattern

variable {site inner : Site} {target : Site → Site} {manner : Manner}
  {n m pattern declaration : Node} {i j : Info} {text : Text} {key init : Option Node}
  {isRest : Bool}

mutual

/-- The name of an element of a pattern is declared by the element. -/
theorem note_mem_pattern_steps {declaration : Node} : ∀ {pattern : Node},
    .bindingElement j (.identifier i text) key init isRest ∈ pattern.patternElements →
      .note (.identifier i text) (inner.declare [.value] manner.exported
          (.declaredBy manner.kind (.bindingElement j (.identifier i text) key init isRest)
            manner.isConst) (.identifier i text)) ∈
        patternSteps inner manner declaration pattern := by
  intro pattern h
  cases pattern with
  | objectBindingPattern k elements | arrayBindingPattern k elements =>
      rw [patternSteps]
      exact note_mem_element_steps (by simpa only [patternElements] using h)
  | _ => simp [patternElements] at h

/-- The name of an element among some nodes is declared by the element. -/
theorem note_mem_element_steps : ∀ {elements : List Node},
    .bindingElement j (.identifier i text) key init isRest ∈ elementsOfAll elements →
      .note (.identifier i text) (inner.declare [.value] manner.exported
          (.declaredBy manner.kind (.bindingElement j (.identifier i text) key init isRest)
            manner.isConst) (.identifier i text)) ∈ elementSteps inner manner elements
  | [], h => by simp [elementsOfAll] at h
  | element :: rest, h => by
      cases element with
      | bindingElement k name otherKey otherInit otherRest =>
          simp only [elementSteps, List.mem_append]
          rcases List.mem_append.mp (by simpa only [elementsOfAll] using h) with h | h
          · rcases List.mem_cons.mp h with heq | h
            · obtain ⟨rfl, rfl, rfl, rfl, rfl⟩ := bindingElement.inj heq
              exact .inl (.inl (.inr (by simp only [patternSteps, List.mem_singleton])))
            · exact .inl (.inl (.inr (note_mem_pattern_steps h)))
          · exact .inr (note_mem_element_steps h)
      | _ => simpa only [elementSteps] using
          note_mem_element_steps (by simpa only [elementsOfAll] using h)

end

namespace Destructures

/-- A pattern is the name of a child of what declares it, and is bound by some of its steps. -/
theorem exists_declaration (h : Destructures m target manner pattern) (site : Site) :
    ∃ declaration ∈ m.children, pattern ∈ declaration.names ∧
      patternSteps (target site) manner declaration pattern ⊆ steps site m := by
  have hfirst : ∀ {taken types inits : List Step}, taken ⊆ taken ++ types ++ inits :=
    fun hstep => List.mem_append_left _ (List.mem_append_left _ hstep)
  cases h with
  | @statement i j keyword declarations exported ambient pattern type init hmem =>
      have htarget :
          (if (Manner.ofKeyword keyword exported).kind = .blockScopedVariable then site
            else site.hoisted) =
          if keyword = .const ∨ keyword = .let then site else site.hoisted := by
        by_cases hkeyword : keyword = .const ∨ keyword = .let <;> simp [Manner.ofKeyword, hkeyword]
      refine ⟨.variableDeclaration j pattern type init, ?_, List.mem_singleton_self _, ?_⟩
      · simpa [children_eq, fields, Field.contents] using hmem
      · intro step hstep
        refine List.mem_flatMap.mpr ⟨_, hmem, ?_⟩
        simp only [htarget]
        exact hfirst hstep
  | @parameter i j name body parameters exported pattern type init hmem
  | @parameterOfExpression i j name body parameters pattern type init hmem =>
      refine ⟨.parameter j pattern type init, ?_, List.mem_singleton_self _, ?_⟩
      · simp [children_eq, fields, Field.contents, hmem]
      · intro step hstep
        refine List.mem_append_right _ (List.mem_append_left _ ?_)
        exact List.mem_flatMap.mpr ⟨_, hmem, hfirst hstep⟩
  | @forIn i j keyword pattern expression type init statement
  | @forOf i j keyword pattern expression type init statement =>
      refine ⟨.variableDeclaration j pattern type init, ?_, List.mem_singleton_self _, ?_⟩
      · simp [children_eq, fields, Field.contents]
      · exact fun step hstep => List.mem_append_left _ (List.mem_cons_of_mem _ hstep)
  | @caught i j pattern type init block =>
      refine ⟨.variableDeclaration j pattern type init, ?_, List.mem_singleton_self _, ?_⟩
      · simp [children_eq, fields, Field.contents]
      · intro step hstep
        refine List.mem_append_left _ (List.mem_flatMap.mpr ⟨_, List.mem_singleton_self _, ?_⟩)
        exact List.mem_append_left _ hstep

/-- A pattern is a part of what declares it. -/
theorem mem_parts (h : Destructures m target manner pattern) : pattern ∈ m.parts := by
  -- Which child it is does not depend on the site.
  obtain ⟨declaration, hchild, hname, _⟩ := h.exists_declaration ⟨[], [], none⟩
  exact parts_subset_of_mem_children hchild (mem_parts_of_mem_names hname)

/-- What a node declares in a pattern are variables. -/
theorem kind (h : Destructures m target manner pattern) :
    manner.kind = .blockScopedVariable ∨ manner.kind = .functionScopedVariable := by
  cases h with
  | @statement i j keyword =>
      by_cases hkeyword : keyword = .const ∨ keyword = .let <;> simp [Manner.ofKeyword, hkeyword]
  | @forIn i j keyword | @forOf i j keyword =>
      by_cases hkeyword : keyword = .var <;> simp [Manner.ofLoopKeyword, hkeyword]
  | parameter | parameterOfExpression | caught => exact .inr rfl

/-- Binding records something for what declares a pattern, and it is no name. -/
theorem recorded (h : Destructures m target manner pattern) : m.isRecorded ∧ m.role ≠ .name := by
  cases h <;> exact ⟨rfl, nofun⟩

/-- The scope of a name in a pattern ends with that of the file. -/
theorem suffix {frame : Frame ScopeId} {base : BoundScope} (hkind : frame.kind ≠ .block)
    (h : Destructures m target manner pattern) (hsite : frame :: base <:+ site.scope) :
    frame :: base <:+ (target site).scope := by
  have hhoisted : frame :: base <:+ site.hoisted.scope := suffix_function_chain hkind hsite
  have henter : ∀ kind id, frame :: base <:+ (site.enter kind id).scope := fun kind id =>
    hsite.trans (List.suffix_cons _ _)
  cases h with
  | statement =>
      dsimp only
      split <;> assumption
  | parameter =>
      rcases scope_enter_function site _ with hscope | hscope
      · exact hscope ▸ hsite
      · exact hscope ▸ hsite.trans (List.suffix_cons _ _)
  | parameterOfExpression | caught => exact henter _ _
  | forIn | forOf =>
      dsimp only
      split
      · exact hhoisted
      · exact henter _ _

end Destructures

/-- What is declared under a name in a pattern is declared with the pattern. -/
theorem declare_subset_of_destructured (h : Destructures m target manner pattern)
    (helement : .bindingElement j (.identifier i text) key init isRest ∈ pattern.patternElements) :
    (target site).declare [.value] manner.exported
        (.declaredBy manner.kind (.bindingElement j (.identifier i text) key init isRest)
          manner.isConst) (.identifier i text) ⊆ ofNode site m := by
  intro fact hfact
  obtain ⟨declaration, _, _, hsteps⟩ := h.exists_declaration site
  have hnote := hsteps (note_mem_pattern_steps helement)
  rw [of_node_eq]
  exact List.mem_append_right _ (List.mem_flatMap.mpr ⟨_, hnote, hfact⟩)

/-- In the scope of its target, a name in a pattern is declared by the element that it is the name
of. -/
theorem declares_of_destructured {frame : Frame ScopeId} {outer : BoundScope}
    (h : Destructures m target manner pattern) (hscope : (target site).scope = frame :: outer)
    (helement : .bindingElement j (.identifier i text) key init isRest ∈ pattern.patternElements) :
    .declares ⟨frame.id, .value, text,
      manner.symbolOf (.bindingElement j (.identifier i text) key init isRest) i text⟩ ∈
        ofNode site m := by
  refine declare_subset_of_destructured h helement ?_
  simp [Site.declare, hscope, Manner.symbolOf]

/-- A name in a pattern is the name of its symbol. -/
theorem names_of_destructured (h : Destructures m target manner pattern)
    (helement : .bindingElement j (.identifier i text) key init isRest ∈ pattern.patternElements) :
    .names i.id (manner.symbolOf (.bindingElement j (.identifier i text) key init isRest) i text) ∈
      ofNode site m := by
  refine declare_subset_of_destructured h helement ?_
  simp [Site.declare, Manner.symbolOf]

/-! ## Keys -/

/-- A node declares nothing by itself. -/
theorem not_declares_of_own {d : Declared ScopeId BoundSymbol} :
    .declares d ∉ ownFacts site n := by
  intro h
  cases n with
  | exportDeclaration i specifiers module isStar =>
      cases isStar <;> cases module <;> simp [ownFacts, starFacts] at h
  | exportAssignment i e => simp [ownFacts, defaultFacts, Site.exporting] at h
  | _ => simp [ownFacts] at h

/-- Whatever a step declares has a name. -/
theorem exists_names_of_taken {part : Node} {facts : List Fact} {d : Declared ScopeId BoundSymbol}
    (htaken : Taken inner (.note part facts)) (h : .declares d ∈ facts) :
    ∃ x, .names x d.symbol ∈ facts := by
  cases htaken with
  | declare spaces exported symbolOf hid =>
      cases part with
      | identifier i text =>
          refine ⟨i.id, ?_⟩
          have hsymbol : d.symbol = symbolOf (.node i.id) text := by
            obtain ⟨_, _, heq, hsymbol⟩ := symbol_of_declare h rfl
            obtain ⟨rfl, rfl⟩ := identifier.inj heq
            exact hsymbol
          rw [hsymbol]
          exact List.mem_append_right _ List.mem_cons_self
      | _ => simp [Site.declare] at h
  | member hmember =>
      cases part with
      | identifier i text | stringLiteral i text | numericLiteral i text =>
          obtain rfl := Option.some.inj hmember
          simp at h
      | _ => simp [memberFacts] at hmember
  | shorthand => simp at h
  | exporting => simp [Site.exporting] at h

/-- Whatever is declared has a name. -/
theorem exists_names_of_declares {d : Declared ScopeId BoundSymbol}
    (h : .declares d ∈ ofNode site n) : ∃ x, .names x d.symbol ∈ ofNode site n := by
  refine fact_induction (fun site n h => ?_) (fun site n target part facts hstep _ htaken h => ?_)
    (fun site n target part hstep _ _ ih => ?_) site n h
  · exact absurd h not_declares_of_own
  · obtain ⟨x, hx⟩ := exists_names_of_taken htaken h
    rw [of_node_eq]
    exact ⟨x, List.mem_append_right _ (List.mem_flatMap.mpr ⟨_, hstep, hx⟩)⟩
  · obtain ⟨x, hx⟩ := ih
    rw [of_node_eq]
    exact ⟨x, List.mem_append_right _ (List.mem_flatMap.mpr ⟨_, hstep, hx⟩)⟩

/-- The key of an element is the name of nothing. -/
theorem not_names_of_key {name k : Node} {s : BoundSymbol} (hlaid : Laid n)
    (helement : .bindingElement j name (some k) init isRest ∈ n.parts) :
    .names k.id s ∉ ofNode site n := by
  intro h
  obtain ⟨part, hid, q, hq, hpart⟩ := exists_name_of_names h
  let element := Node.bindingElement j name (some k) init isRest
  have hkey : k ∈ element.children := by simp [element, children_eq, fields, Field.contents]
  have hnames := own_names_subset_names q hpart
  have hmem := parts_subset hq (mem_parts_of_mem_names hnames)
  obtain rfl : part = k := hlaid.eq_of_id_eq hmem
    (parts_subset helement (parts_subset_of_mem_children hkey (mem_parts_self k))) hid
  -- The key has one parent, and its other name stands elsewhere.
  obtain rfl : q = element :=
    hlaid.eq_of_mem_children hq helement (names_subset_children q hnames) hkey
  obtain rfl : part = name := List.mem_singleton.mp hpart
  obtain ⟨_, _, apart⟩ := hlaid.of_mem_parts helement
  have hapart : Apart part part := by
    simp only [children_eq, fields, Field.contents, List.flatMap_cons, List.flatMap_nil,
      List.singleton_append, List.pairwise_cons] at apart
    exact apart.1 part (by simp)
  exact hapart.1 (.refl _)

end Binding

end StaticLiteral
