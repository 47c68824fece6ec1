import StaticLiteral.Proofs.Binding.Names
import StaticLiteral.Proofs.Program.Keys

/-!
# What binding passes over

A step of binding a node is about a child of the node, or about something further down that is
reached through nodes that are taken apart in place: `below_of_mem_steps`. Object literals are never
taken apart from outside, and their assignments only where the literal itself is bound. So whatever
is established about a key is established by binding its object literal: `visits_of_key`.
-/

namespace StaticLiteral.Binding

open Node

/-- The node that a step is about. -/
def Step.subject : Step → Node
  | note part _ => part
  | visit _ part => part

/-- Whether binding the first node may take the second one apart in place: object literals never,
and their assignments only where the literal is bound. -/
def MayOpen (n : Node) : Node → Prop
  | .objectLiteral .. => False
  | q@(.propertyAssignment ..) => q ∈ n.children ∧ ∃ i properties, n = .objectLiteral i properties
  | _ => True

/-- The second node is the first one, or a part of it that binding the first one takes apart. -/
def Opens (n q : Node) : Prop := q ∈ n.parts ∧ (q = n ∨ MayOpen n q)

/-- The step is about a child of a node that is taken apart. -/
def Step.Below (n : Node) (step : Step) : Prop := ∃ q, Opens n q ∧ step.subject ∈ q.children

variable {site target inner : Site} {manner : Manner} {n q c name : Node} {step : Step}

/-- A node opens itself. -/
theorem Opens.self (n : Node) : Opens n n := ⟨mem_parts_self n, .inl rfl⟩

/-- A child of what is taken apart may be taken apart, too. -/
theorem Opens.child (h : Opens n q) (hc : c ∈ q.children) (hmay : MayOpen n c) : Opens n c :=
  ⟨parts_subset h.1 (parts_subset_of_mem_children hc (mem_parts_self c)), .inr hmay⟩

attribute [local simp] children_eq fields Field.contents

/-- Nodes side by side are visited where they stand. -/
theorem below_visit_all (hq : Opens n q) {ns : List Node} (hns : ∀ c ∈ ns, c ∈ q.children)
    (h : step ∈ visitAll target ns) : step.Below n := by
  obtain ⟨part, hpart, rfl⟩ := List.mem_map.mp h
  exact ⟨q, hq, hns part hpart⟩

/-- Of a body that is a block the statements are visited. -/
theorem below_body (hq : Opens n q) {body : Option Node} (hbody : ∀ c ∈ body.toList, c ∈ q.children)
    (h : step ∈ bodySteps target body) : step.Below n := by
  unfold bodySteps at h
  split at h
  · next i statements =>
      have hblock : Opens n (.block i statements) := hq.child (hbody _ (by simp)) trivial
      exact below_visit_all hblock (fun c hc => by simpa using hc) h
  · exact below_visit_all hq hbody h

mutual

/-- The steps of a pattern are about what stands in it. -/
theorem below_pattern {step : Step} {declaration : Node} : ∀ {q name : Node}, Opens n q →
    name ∈ q.children → step ∈ patternSteps target manner declaration name → step.Below n := by
  intro q name hq hname h
  cases name with
  | objectBindingPattern i elements | arrayBindingPattern i elements =>
      rw [patternSteps] at h
      exact below_elements (hq.child hname trivial) (fun c hc => by simpa using hc) h
  | _ =>
      obtain rfl := List.mem_singleton.mp (by simpa only [patternSteps] using h)
      exact ⟨q, hq, hname⟩

/-- The steps of the elements of a pattern are about what stands in them. -/
theorem below_elements {step : Step} : ∀ {q : Node} {elements : List Node}, Opens n q →
    (∀ c ∈ elements, c ∈ q.children) → step ∈ elementSteps target manner elements → step.Below n
  | q, [], _, _, h => by simp [elementSteps] at h
  | q, element :: rest, hq, helements, h => by
      have hrest : step ∈ elementSteps target manner rest → step.Below n :=
        below_elements hq fun c hc => helements c (List.mem_cons_of_mem _ hc)
      cases element with
      | bindingElement i name key init isRest =>
          have helement : Opens n (.bindingElement i name key init isRest) :=
            hq.child (helements _ List.mem_cons_self) trivial
          simp only [elementSteps, key_steps_eq, List.mem_append] at h
          rcases h with ((h | h) | h) | h
          · refine below_visit_all helement (fun c hc => ?_) h
            simp [List.mem_of_mem_filter hc]
          · exact below_pattern helement (by simp) h
          · exact below_visit_all helement (fun c hc => by simp [hc]) h
          · exact hrest h
      | _ => exact hrest (by simpa only [elementSteps] using h)

end

/-- The steps of a variable of a statement are about what stands in it. -/
theorem below_declarator (hc : Opens n c) (h : step ∈ declaratorSteps site target manner c) :
    step.Below n := by
  cases c with
  | variableDeclaration i name type init =>
      simp only [declaratorSteps, List.mem_append] at h
      rcases h with (h | h) | h
      · exact below_pattern hc (by simp) h
      · exact below_visit_all hc (fun c hc => by simp [hc]) h
      · exact below_visit_all hc (fun c hc => by simp [hc]) h
  | _ => simp [declaratorSteps] at h

/-- The steps of the variable of a loop are about what stands in it. -/
theorem below_loop (hc : Opens n c) (h : step ∈ loopSteps target manner c) : step.Below n := by
  cases c with
  | variableDeclaration i name type init => exact below_pattern hc (by simp) h
  | _ => simp [loopSteps] at h

/-- The steps of what a clause catches are about what stands in it. -/
theorem below_caught (hc : Opens n c) (h : step ∈ caughtSteps site inner c) : step.Below n := by
  cases c with
  | variableDeclaration i name type init =>
      rcases List.mem_append.mp h with h | h
      · exact below_pattern hc (by simp) h
      · exact below_visit_all hc (fun c hc => by simp [hc]) h
  | _ => simp [caughtSteps] at h

/-- The steps of a parameter are about what stands in it. -/
theorem below_parameter (hc : Opens n c) (h : step ∈ parameterSteps inner c) : step.Below n := by
  cases c with
  | parameter i name type init =>
      simp only [parameterSteps, List.mem_append] at h
      rcases h with (h | h) | h
      · exact below_pattern hc (by simp) h
      · exact below_visit_all hc (fun c hc => by simp [hc]) h
      · exact below_visit_all hc (fun c hc => by simp [hc]) h
  | _ => simp [parameterSteps] at h

/-- The step of the name of a member is about the name. -/
theorem subject_member_step (owner : SymbolId) (kind : SymbolKind) (member name : Node) :
    (memberStep site owner kind member name).subject = name := by
  unfold memberStep
  split <;> rfl

/-- The steps of a member of a type or an enumeration are about what stands in it. -/
theorem below_member {owner : SymbolId} {kind : SymbolKind} (hc : Opens n c)
    (h : step ∈ memberSteps site owner kind c) : step.Below n := by
  cases c with
  | propertySignature i name rest | enumMember i name rest =>
      rcases List.mem_cons.mp h with rfl | h
      · exact ⟨_, hc, by simp [subject_member_step]⟩
      · exact below_visit_all hc (fun c hc => by simp [hc]) h
  | _ => simp [memberSteps] at h

/-- The steps inside a function are about what stands in its parameters and in its body. -/
theorem below_inner (hc : Opens n c) (h : step ∈ innerSteps site c) : step.Below n := by
  cases c with
  | functionDeclaration i name parameters body exported
  | functionExpression i name parameters body =>
      rcases List.mem_append.mp h with h | h
      · obtain ⟨parameter, hparameter, h⟩ := List.mem_flatMap.mp h
        cases parameter with
        | parameter j name type init =>
            have hopens : Opens n (.parameter j name type init) :=
              hc.child (by simp [hparameter]) trivial
            exact below_parameter hopens h
        | _ => simp [parameterSteps] at h
      · exact below_body hc (fun c hc => by simp [hc]) h
  | methodDeclaration i name body => exact below_body hc (fun c hc => by simp [hc]) h
  | _ => simp [innerSteps] at h

/-- The steps of a property are about the property or what stands in it. -/
theorem below_property {i : Info} {properties : List Node} {owner : SymbolId}
    (hc : c ∈ properties) (h : step ∈ propertySteps site owner c) :
    step.Below (.objectLiteral i properties) := by
  have hchild : c ∈ (Node.objectLiteral i properties).children := by simpa using hc
  have hself := Opens.self (.objectLiteral i properties)
  cases c with
  | propertyAssignment j name init =>
      have hopens := hself.child hchild ⟨hchild, i, properties, rfl⟩
      simp only [propertySteps, List.mem_cons, List.not_mem_nil, or_false] at h
      rcases h with rfl | rfl
      · exact ⟨_, hopens, by simp [subject_member_step]⟩
      · exact ⟨_, hopens, by simp [Step.subject]⟩
  | shorthandPropertyAssignment j name =>
      simp only [propertySteps, List.mem_cons, List.not_mem_nil, or_false] at h
      rcases h with rfl | rfl
      · exact ⟨_, hself.child hchild trivial, by simp [subject_member_step]⟩
      · exact ⟨_, hself, hchild⟩
  | methodDeclaration j name body =>
      have hopens := hself.child hchild trivial
      rcases List.mem_cons.mp h with rfl | h
      · exact ⟨_, hopens, by simp [subject_member_step]⟩
      · exact below_inner hopens h
  | _ =>
      obtain rfl := List.mem_singleton.mp h
      exact ⟨_, hself, hchild⟩

/-- Every step of binding a node is about a child of a node that is taken apart. -/
theorem below_of_mem_steps (h : step ∈ steps site n) : step.Below n := by
  have hself := Opens.self n
  have hname : ∀ {name : Option Node} {facts : Node → List Fact},
      (∀ c ∈ name.toList, c ∈ n.children) →
      step ∈ name.toList.map (fun name => .note name (facts name)) → step.Below n :=
    fun hname h => by
      obtain ⟨c, hc, rfl⟩ := List.mem_map.mp h
      exact ⟨n, hself, hname c hc⟩
  cases n with
  | typeReference i name arguments =>
      exact below_visit_all hself (fun c hc => by simp [hc]) h
  | variableStatement i keyword declarations exported ambient =>
      obtain ⟨declaration, hdeclaration, h⟩ := List.mem_flatMap.mp h
      cases declaration with
      | variableDeclaration j name type init =>
          exact below_declarator (hself.child (by simpa using hdeclaration) (by trivial)) h
      | _ => simp [declaratorSteps] at h
  | forInStatement i init expression statement keyword
  | forOfStatement i init expression statement keyword =>
      rcases List.mem_append.mp h with h | h
      · rcases List.mem_cons.mp h with rfl | h
        · exact ⟨_, hself, by simp [Step.subject]⟩
        · have hinit : step ∈ [Step.visit site init] → step.Below _ := fun h => by
            obtain rfl := List.mem_singleton.mp h
            exact ⟨_, hself, by simp [Step.subject]⟩
          split at h
          · split at h
            · cases init with
              | variableDeclaration j name type value =>
                  exact below_loop (hself.child (by simp) (by trivial)) h
              | _ => simp [loopSteps] at h
            · exact hinit h
          · exact hinit h
      · exact below_body hself (fun c hc => by simp [hc]) h
  | catchClause i declaration block =>
      rcases List.mem_append.mp h with h | h
      · obtain ⟨declaration, hdeclaration, h⟩ := List.mem_flatMap.mp h
        cases declaration with
        | variableDeclaration j name type init =>
            exact below_caught (hself.child (by simp [hdeclaration]) (by trivial)) h
        | _ => simp [caughtSteps] at h
      · exact below_body hself (fun c hc => by simp [hc]) h
  | functionDeclaration i name parameters body exported
  | functionExpression i name parameters body =>
      rcases List.mem_append.mp h with h | h
      · exact hname (fun c hc => by simp [hc]) h
      · exact below_inner hself h
  | block i statements => exact below_visit_all hself (fun c hc => by simpa using hc) h
  | classDeclaration i name exported => exact hname (fun c hc => by simpa using hc) h
  | typeAliasDeclaration i name type exported =>
      simp only [steps, List.mem_cons, List.not_mem_nil, or_false] at h
      rcases h with rfl | rfl <;> exact ⟨_, hself, by simp [Step.subject]⟩
  | interfaceDeclaration i name members exported
  | enumDeclaration i name members isConst exported =>
      rcases List.mem_cons.mp h with rfl | h
      · exact ⟨_, hself, by simp [Step.subject]⟩
      · obtain ⟨member, hmember, h⟩ := List.mem_flatMap.mp h
        cases member with
        | propertySignature | enumMember =>
            exact below_member (hself.child (by simp [hmember]) (by trivial)) h
        | _ => simp [memberSteps] at h
  | moduleDeclaration i name body exported =>
      rcases List.mem_cons.mp h with rfl | h
      · exact ⟨_, hself, by simp [Step.subject]⟩
      · exact below_body hself (fun c hc => by simp [hc]) h
  | importDeclaration i module specifiers =>
      obtain ⟨specifier, hspecifier, h⟩ := List.mem_flatMap.mp h
      cases specifier with
      | importSpecifier j name propertyName isNamespace =>
          obtain rfl := List.mem_singleton.mp h
          exact ⟨_, hself.child (by simpa using hspecifier) (by trivial), by simp [Step.subject]⟩
      | _ => simp [importSteps] at h
  | exportDeclaration i specifiers module isStar =>
      cases isStar with
      | true => simp [steps] at h
      | false =>
          obtain ⟨specifier, hspecifier, h⟩ := List.mem_flatMap.mp h
          cases specifier with
          | exportSpecifier j name propertyName =>
              obtain rfl := List.mem_singleton.mp h
              exact ⟨_, hself, by simpa [Step.subject] using hspecifier⟩
          | _ => simp [exportSteps] at h
  | objectLiteral i properties =>
      obtain ⟨property, hproperty, h⟩ := List.mem_flatMap.mp h
      exact below_property hproperty h
  | typeLiteral i members =>
      obtain ⟨member, hmember, h⟩ := List.mem_flatMap.mp h
      cases member with
      | propertySignature | enumMember =>
          exact below_member (hself.child (by simpa using hmember) (by trivial)) h
      | _ => simp [memberSteps] at h
  | _ => exact below_visit_all hself (fun c hc => hc) h

/-! ## What is established about keys -/

/-- A node that binding comes to is the whole tree, or a step of a node that it comes to visits
it. -/
theorem Visits.eq_or_last {last : Site} {k : Node} (h : Visits site n last k) :
    (site = last ∧ n = k) ∨
      ∃ target m, Visits site n target m ∧ .visit last k ∈ steps target m := by
  induction h with
  | here => exact .inl ⟨rfl, rfl⟩
  | @step site target last n m k hstep _ ih =>
      rcases ih with ⟨rfl, rfl⟩ | ⟨before, parent, hvisits, hlast⟩
      · exact .inr ⟨site, n, .here site n, hstep⟩
      · exact .inr ⟨before, parent, .step hstep hvisits, hlast⟩

/-- A fact of a tree is one of a node about itself or one that a step notes, and binding comes to
the node. -/
theorem exists_visits_of_mem {fact : Fact} (h : fact ∈ ofNode site n) :
    ∃ target m, Visits site n target m ∧ (fact ∈ ownFacts target m ∨
      ∃ inner part facts, .note part facts ∈ steps target m ∧ Taken inner (.note part facts) ∧
        fact ∈ facts) := by
  refine fact_induction (fun site n h => ?_) (fun site n inner part facts hstep _ htaken h => ?_)
    (fun site n target part hstep _ _ ih => ?_) site n h
  · exact ⟨site, n, .here site n, .inl h⟩
  · exact ⟨site, n, .here site n, .inr ⟨inner, part, facts, hstep, htaken, h⟩⟩
  · obtain ⟨last, m, hvisits, hfact⟩ := ih
    exact ⟨last, m, .step hstep hvisits, hfact⟩

/-- The fact says that a node is a name, or from where it is looked up. -/
inductive TellsOf (x : NodeId) : Fact → Prop where
  | names (s : BoundSymbol) : TellsOf x (.names x s)
  | refers (scope : BoundScope) : TellsOf x (.refers x scope)

section Facts

variable {x : NodeId} {scope : BoundScope} {part : Node} {facts : List Fact}

/-- A node says about itself that it is looked up if it is an identifier, or about its name if it is
a reference to a type. -/
theorem refers_own (h : .refers x scope ∈ ownFacts site n) :
    (∃ i text, n = .identifier i text ∧ x = i.id) ∨
      ∃ i name arguments, n = .typeReference i name arguments ∧ x = name.id := by
  cases n with
  | identifier i text =>
      obtain ⟨rfl, rfl⟩ := Fact.refers.inj (List.mem_singleton.mp h)
      exact .inl ⟨i, text, rfl, rfl⟩
  | typeReference i name arguments =>
      obtain ⟨rfl, rfl⟩ := Fact.refers.inj (List.mem_singleton.mp h)
      exact .inr ⟨i, name, arguments, rfl, rfl⟩
  | exportDeclaration i specifiers module isStar =>
      cases isStar <;> cases module <;> simp [ownFacts, starFacts] at h
  | exportAssignment => simp [ownFacts, defaultFacts, Site.exporting] at h
  | _ => simp [ownFacts] at h

/-- What a step notes to be looked up is the name of a shorthand. -/
theorem refers_taken (htaken : Taken site (.note part facts)) (h : .refers x scope ∈ facts) :
    ∃ i name, part = .shorthandPropertyAssignment i name ∧ x = name.id := by
  cases htaken with
  | declare spaces exported symbolOf hid =>
      cases part <;> cases exported <;> simp [Site.declare, Site.exporting] at h
  | member hmember =>
      cases part <;> simp only [memberFacts, reduceCtorEq, Option.some.injEq] at hmember <;>
        simp [← hmember] at h
  | shorthand i name =>
      obtain ⟨rfl, _⟩ := Fact.refers.inj (List.mem_singleton.mp h)
      exact ⟨i, name, rfl, rfl⟩
  | exporting => simp [Site.exporting] at h

end Facts

section Keys

variable {i j k : Info} {text : Text} {init : Node} {properties : List Node}

/-- Binding that takes an assignment apart comes to the object literal. -/
theorem visits_of_opens (hlaid : Laid n) (hliteral : .objectLiteral i properties ∈ n.parts)
    (hproperty : .propertyAssignment j name init ∈ properties) {m : Node}
    (h : Visits site n target m) (hopens : Opens m (.propertyAssignment j name init)) :
    ∃ last, Visits site n last (.objectLiteral i properties) := by
  have hchild : .propertyAssignment j name init ∈ (Node.objectLiteral i properties).children := by
    simpa using hproperty
  rcases hopens with ⟨_, rfl | ⟨hm, _⟩⟩
  · rcases h.eq_or_last with ⟨_, rfl⟩ | ⟨before, parent, hbefore, hstep⟩
    -- The assignment would be around its own literal.
    · rw [parts_eq] at hliteral
      rcases List.mem_cons.mp hliteral with heq | hbelow
      · cases heq
      · exact absurd (height_lt_of_mem_below hbelow) (height_lt_of_mem_children hchild).asymm
    · obtain ⟨q, hq, hsubject⟩ := below_of_mem_steps hstep
      obtain rfl := hlaid.eq_of_mem_children (parts_subset hbefore.mem_parts hq.1) hliteral
        hsubject hchild
      rcases hq with ⟨_, rfl | hmay⟩
      · exact ⟨before, hbefore⟩
      · exact hmay.elim
  · obtain rfl := hlaid.eq_of_mem_children h.mem_parts hliteral hm hchild
    exact ⟨target, h⟩

/-- What tells of a key is established by binding its object literal. -/
theorem visits_of_key (hlaid : Laid n) (hliteral : .objectLiteral i properties ∈ n.parts)
    (hproperty : .propertyAssignment j (.identifier k text) init ∈ properties) {fact : Fact}
    (h : fact ∈ ofNode site n) (hkey : TellsOf k.id fact) :
    ∃ last, Visits site n last (.objectLiteral i properties) := by
  have hassignment : .propertyAssignment j (.identifier k text) init ∈ n.parts :=
    parts_subset hliteral (parts_subset_of_mem_children (by simpa using hproperty)
      (mem_parts_self _))
  have hchild : .identifier k text ∈
      (Node.propertyAssignment j (.identifier k text) init).children := by simp
  have hplaced := parts_subset hassignment
    (parts_subset_of_mem_children hchild (mem_parts_self _))
  -- Whatever stands in the place of the key is the key, so its parent is the assignment.
  have hparent : ∀ {q c : Node}, q ∈ n.parts → c ∈ q.children → c.id = k.id →
      q = .propertyAssignment j (.identifier k text) init := by
    intro q c hq hc hid
    have hcn := parts_subset hq (parts_subset_of_mem_children hc (mem_parts_self c))
    obtain rfl := hlaid.eq_of_id_eq hcn hplaced hid
    exact hlaid.eq_of_mem_children hq hassignment hc hchild
  -- Where binding comes to a node that is taken apart around the key, it came to the literal.
  have hbelow : ∀ {target : Site} {m : Node} {step : Step}, Visits site n target m →
      step ∈ steps target m → step.subject.id = k.id →
      ∃ last, Visits site n last (.objectLiteral i properties) := by
    intro target m step hvisits hstep hid
    obtain ⟨q, hq, hsubject⟩ := below_of_mem_steps hstep
    obtain rfl := hparent (parts_subset hvisits.mem_parts hq.1) hsubject hid
    exact visits_of_opens hlaid hliteral hproperty hvisits hq
  obtain ⟨target, m, hvisits, hown | ⟨inner, part, facts, hstep, htaken, hfact⟩⟩ :=
    exists_visits_of_mem h
  · cases hkey with
    | names s => exact absurd hown not_names_of_own
    | refers scope =>
      rcases refers_own hown with ⟨i', text', rfl, hid⟩ | ⟨i', referred, arguments, rfl, hid⟩
      · rcases hvisits.eq_or_last with ⟨_, rfl⟩ | ⟨before, parent, hbefore, hstep⟩
        · simp [parts_eq] at hliteral
        · exact hbelow hbefore hstep hid.symm
      · cases hparent hvisits.mem_parts (by simp) hid.symm
  · cases hkey with
    | names s => exact hbelow hvisits hstep (id_of_taken htaken hfact).symm
    | refers scope =>
      obtain ⟨i', referred, rfl, hid⟩ := refers_taken htaken hfact
      have hpart := parts_subset_parts hstep (List.mem_singleton_self _)
      cases hparent (parts_subset hvisits.mem_parts hpart) (by simp) hid.symm

end Keys

end StaticLiteral.Binding
