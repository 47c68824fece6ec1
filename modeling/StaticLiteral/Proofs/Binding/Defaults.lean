import StaticLiteral.Proofs.Binding.Destructuring
import StaticLiteral.Proofs.Binding.Opened

/-!
# Scopes of what is evaluated in patterns

`Passes` says once what a step means for the scopes that names are looked up from: only what is
evaluated in a pattern of `var` is bound further out than the node, where the names of the pattern
belong. So an identifier is looked up from inside of a site unless a pattern around it belongs
outside of that site: `suffix_of_refers_iff`.
-/

namespace StaticLiteral

namespace Node

/-- The name or the pattern of a variable. -/
def variablePatterns : Node → List Node
  | variableDeclaration _ name _ _ => [name]
  | _ => []

/-- The names and patterns whose variables belong to the nearest scope that is no block. -/
def hoistedPatterns : Node → List Node
  | variableStatement _ keyword declarations _ _ =>
    if keyword = .const ∨ keyword = .let then [] else declarations.flatMap variablePatterns
  | forInStatement _ init _ _ (some .var) | forOfStatement _ init _ _ (some .var) =>
    variablePatterns init
  | _ => []

/-- The initial value of a variable. -/
def variableInit : Node → List Node
  | variableDeclaration _ _ _ init => init.toList
  | _ => []

/-- What a node takes the values of its variables from: their initial values, or what a loop runs
over. -/
def initialValues : Node → List Node
  | variableStatement _ _ declarations _ _ => declarations.flatMap variableInit
  | forInStatement _ _ expression _ _ | forOfStatement _ _ expression _ _ => [expression]
  | _ => []

end Node

namespace Binding

open Node

variable {site target inner last : Site} {target' : Site → Site} {manner : Manner}
  {n m k q r c name part pattern other : Node} {step : Step} {facts : List Fact} {x : NodeId}
  {scope : BoundScope} {i : Info} {text : Text}

/-! ## What a step means for scopes -/

/-- What has a name or a pattern as a variable is the variable. -/
theorem exists_variable_of_pattern (h : name ∈ c.variablePatterns) :
    ∃ i type init, c = .variableDeclaration i name type init := by
  cases c with
  | variableDeclaration i pattern type init =>
      obtain rfl := List.mem_singleton.mp h
      exact ⟨i, type, init, rfl⟩
  | _ => simp [variablePatterns] at h

/-- What a step of binding a node means for the scopes that names are looked up from: nothing, or a
part is bound from where the node is or from further inside, or what is evaluated in a pattern is
bound where the names of the pattern are hoisted to, or a shorthand uses a name. -/
inductive Passes (site : Site) (n : Node) : Step → Prop where
  | silent {part : Node} {facts : List Fact} (h : ∀ x scope, .refers x scope ∉ facts) :
      Passes site n (.note part facts)
  | inside {target : Site} {part : Node} (h : site.scope <:+ target.scope) :
      Passes site n (.visit target part)
  | hoisted {pattern part : Node} (hpattern : pattern ∈ n.hoistedPatterns)
      (hpart : part ∈ pattern.evaluated) : Passes site n (.visit site.hoisted part)
  | shorthand {i j : Info} {properties : List Node} {name : Node}
      (hn : n = .objectLiteral i properties)
      (hmem : .shorthandPropertyAssignment j name ∈ properties) :
      Passes site n (.note (.shorthandPropertyAssignment j name) [.refers name.id site.scope])

/-- Declaring a name looks nothing up. -/
theorem refers_not_mem_declare {spaces : List Space} {exported : Bool}
    {symbolOf : SymbolId → Text → BoundSymbol} :
    .refers x scope ∉ site.declare spaces exported symbolOf name := by
  cases name <;> cases exported <;> simp [Site.declare, Site.exporting]

/-- Entering a member looks nothing up. -/
theorem refers_not_mem_member {owner : SymbolId} {kind : SymbolKind} {member : Node}
    (h : memberFacts owner kind member name = some facts) : .refers x scope ∉ facts := by
  cases name <;> simp only [memberFacts, reduceCtorEq, Option.some.injEq] at h <;> simp [← h]

/-- Nodes that are bound further inside pass. -/
theorem passes_visit_all (hscope : site.scope <:+ target.scope) {ns : List Node}
    (h : step ∈ visitAll target ns) : Passes site n step := by
  obtain ⟨part, _, rfl⟩ := List.mem_map.mp h
  exact .inside hscope

/-- A body that is bound further inside passes. -/
theorem passes_body (hscope : site.scope <:+ target.scope) {body : Option Node}
    (h : step ∈ bodySteps target body) : Passes site n step := by
  unfold bodySteps at h
  split at h <;> exact passes_visit_all hscope h

/-- A pattern passes if what is evaluated in it does. -/
theorem passes_pattern {declaration : Node}
    (hpart : ∀ part ∈ name.evaluated, Passes site n (.visit target part))
    (h : step ∈ patternSteps target manner declaration name) : Passes site n step := by
  rcases of_mem_pattern_steps h with ⟨leaf, _, d, _, rfl⟩ | ⟨part, hmem, rfl⟩
  · exact .silent fun _ _ => refers_not_mem_declare
  · exact hpart part hmem

/-- A variable of a statement passes if its pattern does. -/
theorem passes_declarator (hpart : ∀ name ∈ c.variablePatterns, ∀ part ∈ name.evaluated,
    Passes site n (.visit target part)) (h : step ∈ declaratorSteps site target manner c) :
    Passes site n step := by
  cases c with
  | variableDeclaration i name type init =>
      simp only [declaratorSteps, List.mem_append] at h
      rcases h with (h | h) | h
      · exact passes_pattern (hpart name (List.mem_singleton_self name)) h
      · exact passes_visit_all (List.suffix_refl _) h
      · exact passes_visit_all (List.suffix_refl _) h
  | _ => simp [declaratorSteps] at h

/-- The variable of a loop passes if its pattern does. -/
theorem passes_loop (hpart : ∀ name ∈ c.variablePatterns, ∀ part ∈ name.evaluated,
    Passes site n (.visit target part)) (h : step ∈ loopSteps target manner c) :
    Passes site n step := by
  cases c with
  | variableDeclaration i name type init =>
      exact passes_pattern (hpart name (List.mem_singleton_self name)) h
  | _ => simp [loopSteps] at h

/-- What a clause catches passes. -/
theorem passes_caught (hscope : site.scope <:+ inner.scope) (h : step ∈ caughtSteps site inner c) :
    Passes site n step := by
  cases c with
  | variableDeclaration i name type init =>
      rcases List.mem_append.mp h with h | h
      · exact passes_pattern (fun part _ => .inside hscope) h
      · exact passes_visit_all (List.suffix_refl _) h
  | _ => simp [caughtSteps] at h

/-- A parameter passes. -/
theorem passes_parameter (hscope : site.scope <:+ inner.scope) (h : step ∈ parameterSteps inner c) :
    Passes site n step := by
  cases c with
  | parameter i name type init =>
      simp only [parameterSteps, List.mem_append] at h
      rcases h with (h | h) | h
      · exact passes_pattern (fun part _ => .inside hscope) h
      · exact passes_visit_all hscope h
      · exact passes_visit_all hscope h
  | _ => simp [parameterSteps] at h

/-- The name of a member passes. -/
theorem passes_member_name (owner : SymbolId) (kind : SymbolKind) (member name : Node) :
    Passes site n (memberStep site owner kind member name) := by
  unfold memberStep
  split
  case h_1 h => exact .silent fun _ _ => refers_not_mem_member h
  case h_2 => exact .inside (List.suffix_refl _)

/-- A member of a type or an enumeration passes. -/
theorem passes_member {owner : SymbolId} {kind : SymbolKind}
    (h : step ∈ memberSteps site owner kind c) : Passes site n step := by
  cases c with
  | propertySignature i name rest | enumMember i name rest =>
      rcases List.mem_cons.mp h with rfl | h
      · exact passes_member_name owner kind _ name
      · exact passes_visit_all (List.suffix_refl _) h
  | _ => simp [memberSteps] at h

/-- What is inside of a function passes. -/
theorem passes_inner (h : step ∈ innerSteps site c) : Passes site n step := by
  have hscope : site.scope <:+ (innerSite site c).scope := by
    rcases scope_inner_site site c with h | h
    · exact h ▸ List.suffix_refl _
    · exact h ▸ List.suffix_cons _ _
  cases c with
  | functionDeclaration i name parameters body exported
  | functionExpression i name parameters body =>
      rcases List.mem_append.mp h with h | h
      · obtain ⟨parameter, _, h⟩ := List.mem_flatMap.mp h
        exact passes_parameter hscope h
      · exact passes_body hscope h
  | methodDeclaration i name body => exact passes_body hscope h
  | _ => simp [innerSteps] at h

/-- A name that something declares passes. -/
theorem passes_name {name : Option Node} {spaces : List Space} {exported : Bool}
    {symbolOf : SymbolId → Text → BoundSymbol}
    (h : step ∈ name.toList.map fun name =>
      Step.note name (target.declare spaces exported symbolOf name)) : Passes site n step := by
  obtain ⟨name, _, rfl⟩ := List.mem_map.mp h
  exact .silent fun _ _ => refers_not_mem_declare

/-- A property of an object literal passes. -/
theorem passes_property {owner : SymbolId} {properties : List Node} (hc : c ∈ properties)
    (h : step ∈ propertySteps site owner c) : Passes site (.objectLiteral i properties) step := by
  cases c with
  | propertyAssignment j name init =>
      simp only [propertySteps, List.mem_cons, List.not_mem_nil, or_false] at h
      rcases h with rfl | rfl
      · exact passes_member_name owner .property _ name
      · exact .inside (List.suffix_refl _)
  | shorthandPropertyAssignment j name =>
      simp only [propertySteps, List.mem_cons, List.not_mem_nil, or_false] at h
      rcases h with rfl | rfl
      · exact passes_member_name owner .property _ name
      · exact .shorthand rfl hc
  | methodDeclaration j name body =>
      rcases List.mem_cons.mp h with rfl | h
      · exact passes_member_name owner .property _ name
      · exact passes_inner h
  | _ =>
      obtain rfl := List.mem_singleton.mp h
      exact .inside (List.suffix_refl _)

/-- Every step of binding a node passes. -/
theorem passes_of_mem_steps (h : step ∈ steps site n) : Passes site n step := by
  have hself := List.suffix_refl site.scope
  have hcons : ∀ {kind : ScopeKind} {id : NodeId}, site.scope <:+ (site.enter kind id).scope :=
    List.suffix_cons _ _
  -- Only statements and loops with `var` bind something further out than where they are.
  cases n with
  | variableStatement i keyword declarations exported ambient =>
      obtain ⟨d, hd, h⟩ := List.mem_flatMap.mp h
      refine passes_declarator (fun name hname part hpart => ?_) h
      by_cases hkeyword : keyword = .const ∨ keyword = .let
      · simpa [Manner.ofKeyword, hkeyword] using .inside hself
      · have hpattern : name ∈ hoistedPatterns
            (.variableStatement i keyword declarations exported ambient) := by
          simpa [hoistedPatterns, hkeyword] using ⟨d, hd, hname⟩
        simpa [Manner.ofKeyword, hkeyword] using .hoisted hpattern hpart
  | forInStatement i init expression statement keyword
  | forOfStatement i init expression statement keyword =>
      rcases List.mem_append.mp h with h | h
      · rcases List.mem_cons.mp h with rfl | h
        · exact .inside hself
        · cases keyword with
          | none =>
              obtain rfl := List.mem_singleton.mp h
              exact .inside hself
          | some keyword =>
              dsimp only at h
              split at h
              · refine passes_loop (fun name hname part hpart => ?_) h
                by_cases hkeyword : keyword = .var
                · subst hkeyword
                  refine .hoisted ?_ hpart
                  exact hname
                · rw [if_neg hkeyword]
                  exact .inside hcons
              · obtain rfl := List.mem_singleton.mp h
                exact .inside hself
      · exact passes_body hcons h
  | catchClause i declaration block =>
      rcases List.mem_append.mp h with h | h
      · obtain ⟨d, _, h⟩ := List.mem_flatMap.mp h
        exact passes_caught hcons h
      · exact passes_body hcons h
  | functionDeclaration i name parameters body exported
  | functionExpression i name parameters body =>
      rcases List.mem_append.mp h with h | h
      · exact passes_name h
      · exact passes_inner h
  | block i statements => exact passes_visit_all hcons h
  | classDeclaration i name exported => exact passes_name h
  | typeAliasDeclaration i name type exported =>
      simp only [steps, List.mem_cons, List.not_mem_nil, or_false] at h
      rcases h with rfl | rfl
      · exact .silent fun _ _ => refers_not_mem_declare
      · exact .inside hself
  | interfaceDeclaration i name members exported
  | enumDeclaration i name members isConst exported =>
      rcases List.mem_cons.mp h with rfl | h
      · exact .silent fun _ _ => refers_not_mem_declare
      · obtain ⟨member, _, h⟩ := List.mem_flatMap.mp h
        exact passes_member h
  | moduleDeclaration i name body exported =>
      rcases List.mem_cons.mp h with rfl | h
      · exact .silent fun _ _ => refers_not_mem_declare
      · exact passes_body (scope_enter_namespace site i.id name ▸ List.suffix_cons _ _) h
  | importDeclaration i module specifiers =>
      obtain ⟨c, _, h⟩ := List.mem_flatMap.mp h
      cases c with
      | importSpecifier j name propertyName isNamespace =>
          obtain rfl := List.mem_singleton.mp h
          simp only [importFacts, List.append_nil]
          exact .silent fun _ _ => refers_not_mem_declare
      | _ => simp [importSteps] at h
  | exportDeclaration i specifiers module isStar =>
      cases isStar with
      | true => simp [steps] at h
      | false =>
          obtain ⟨c, _, h⟩ := List.mem_flatMap.mp h
          cases c with
          | exportSpecifier j name propertyName =>
              obtain rfl := List.mem_singleton.mp h
              exact .silent fun _ _ => by simp [exportFacts, Site.exporting]
          | _ => simp [exportSteps] at h
  | objectLiteral i properties =>
      obtain ⟨c, hc, h⟩ := List.mem_flatMap.mp h
      exact passes_property hc h
  | typeLiteral i members =>
      obtain ⟨c, _, h⟩ := List.mem_flatMap.mp h
      exact passes_member h
  | _ => exact passes_visit_all hself h

/-! ## Where an identifier is looked up -/

/-- If a step binds a part, an identifier in it is looked up only from where binding the part says
so. -/
theorem refers_of_step (hlaid : Laid n) (hstep : .visit target m ∈ steps site n)
    (hr : .identifier i text ∈ m.parts) (h : .refers i.id scope ∈ ofNode site n) :
    .refers i.id scope ∈ ofNode target m := by
  rw [of_node_eq] at h
  rcases List.mem_append.mp h with h | h
  · rcases refers_own h with ⟨j, word, rfl, hid⟩ | ⟨j, referred, arguments, rfl, hid⟩
    · exact absurd hid (hlaid.id_ne_of_mem_below (parts_subset_below hstep hr))
    · -- The name of a type stands apart from the arguments, and only those are bound.
      exfalso
      obtain ⟨c, hc, heq⟩ := List.mem_map.mp hstep
      obtain ⟨rfl, rfl⟩ := Step.visit.inj heq
      have henc := (hlaid.of_mem_parts (parts_subset_parts hstep (mem_parts_self c))).encloses hr
      obtain ⟨_, _, apart⟩ := hlaid
      simp only [children_eq, fields, Field.contents, List.flatMap_cons, List.flatMap_nil,
        List.append_nil, List.singleton_append, List.pairwise_cons] at apart
      exact (apart.1 c hc).2 (hid ▸ henc)
  · obtain ⟨next, hnext, h⟩ := List.mem_flatMap.mp h
    cases next with
    | visit inner part =>
        obtain ⟨q, hq, hid⟩ := exists_part_of_refers h
        obtain ⟨rfl, rfl⟩ := Step.visit.inj (steps_eq_of_common hlaid hstep hnext hr hq hid.symm)
        exact h
    | note part facts =>
        cases passes_of_mem_steps hnext with
        | silent hsilent => exact absurd h (hsilent _ _)
        | @shorthand j k properties name hn hmem =>
            -- The name of the property is entered, so no other step binds it.
            obtain ⟨hid, _⟩ := Fact.refers.inj (List.mem_singleton.mp h)
            have hname : memberStep site (.node j.id) .property
                (.shorthandPropertyAssignment k name) name ∈ steps site n :=
              hn ▸ List.mem_flatMap.mpr ⟨_, hmem, List.mem_cons_self⟩
            have hplaced : name ∈ n.parts :=
              parts_subset (parts_subset_parts hnext (List.mem_singleton_self _))
                (mem_parts_of_mem_names (List.mem_singleton_self name))
            obtain rfl := hlaid.eq_of_id_eq (parts_subset_parts hstep hr) hplaced hid
            cases steps_eq_of_common hlaid hstep hname hr (List.mem_singleton_self _) rfl

/-- If binding comes to a node, an identifier in it is looked up only from where binding the node
says so. -/
theorem refers_of_visits (hlaid : Laid n) (h : Visits site n last k)
    (hr : .identifier i text ∈ k.parts) (href : .refers i.id scope ∈ ofNode site n) :
    .refers i.id scope ∈ ofNode last k := by
  induction h with
  | here => exact href
  | step hstep hvisits ih =>
      have hpart := parts_subset_parts hstep (mem_parts_self _)
      refine ih (hlaid.of_mem_parts hpart) hr ?_
      exact refers_of_step hlaid hstep (parts_subset hvisits.mem_parts hr) href

/-! ## What is kept of a scope -/

/-- The scope keeps an end of the base, and all its other frames belong to parts of the node. -/
def Within (n : Node) (base scope : BoundScope) : Prop :=
  ∃ opened kept, scope = opened ++ kept ∧ kept <:+ base ∧
    ∀ frame ∈ opened, ∃ m ∈ n.parts, frame.id = .node m.id

/-- An end of two scopes one behind the other is an end of the second, or consists of it and of an
end of the first. -/
theorem suffix_append_cases {opened kept base : BoundScope} (h : base <:+ opened ++ kept) :
    base <:+ kept ∨ ∃ outer, base = outer ++ kept ∧ outer <:+ opened := by
  rcases List.suffix_or_suffix_of_suffix h (List.suffix_append opened kept) with hbase | hkept
  · exact .inl hbase
  · obtain ⟨outer, rfl⟩ := hkept
    obtain ⟨front, heq⟩ := h
    rw [← List.append_assoc] at heq
    exact .inr ⟨outer, rfl, front, List.append_cancel_right heq⟩

namespace Within

variable {base middle : BoundScope}

/-- An end of the base keeps it. -/
theorem of_suffix (h : scope <:+ base) : Within n base scope := ⟨[], scope, rfl, h, by simp⟩

/-- What is opened inside of a scope is opened inside of what that one keeps. -/
theorem trans (h : Within n base middle) (h' : Within m middle scope) (hm : m.parts ⊆ n.parts) :
    Within n base scope := by
  obtain ⟨before, kept, rfl, hkept, hbefore⟩ := h
  obtain ⟨opened, last, rfl, hlast, hopened⟩ := h'
  have hopened : ∀ frame ∈ opened, ∃ q ∈ n.parts, frame.id = .node q.id := fun frame hframe =>
    let ⟨q, hq, hid⟩ := hopened frame hframe
    ⟨q, hm hq, hid⟩
  rcases suffix_append_cases hlast with hlast | ⟨outer, rfl, houter⟩
  · exact ⟨opened, last, rfl, hlast.trans hkept, hopened⟩
  · refine ⟨opened ++ outer, kept, (List.append_assoc ..).symm, hkept, fun frame hframe => ?_⟩
    rcases List.mem_append.mp hframe with hframe | hframe
    · exact hopened frame hframe
    · exact hbefore frame (houter.subset hframe)

/-- A scope that another one ends with is kept by it, unless one of its frames belongs to the
node. -/
theorem suffix_kept (h : Within n base scope) (hmiddle : middle <:+ scope)
    (hframes : ∀ frame ∈ middle, ∀ m ∈ n.parts, frame.id ≠ .node m.id) : middle <:+ base := by
  obtain ⟨opened, kept, rfl, hkept, hopened⟩ := h
  rcases suffix_append_cases hmiddle with hmiddle | ⟨outer, rfl, houter⟩
  · exact hmiddle.trans hkept
  · cases outer with
    | nil => exact hkept
    | cons frame outer =>
        obtain ⟨m, hm, hid⟩ := hopened frame (houter.subset List.mem_cons_self)
        exact absurd hid (hframes frame List.mem_cons_self m hm)

end Within

/-- What is near a node keeps the scope of the node. -/
theorem within_of_near (h : Near site n step target) : Within n site.scope target.scope := by
  cases h with
  | same h => exact .of_suffix (h ▸ List.suffix_refl _)
  | hoisted h => exact .of_suffix (h ▸ function_chain_suffix _)
  | own kind h =>
      refine ⟨[⟨.node n.id, kind⟩], site.scope, h, List.suffix_refl _, ?_⟩
      exact List.forall_mem_singleton.mpr ⟨n, mem_parts_self n, rfl⟩
  | method method hmethod _ h =>
      refine ⟨[⟨.node method.id, .function⟩], site.scope, h, List.suffix_refl _, ?_⟩
      exact List.forall_mem_singleton.mpr
        ⟨method, parts_subset_of_mem_children hmethod (mem_parts_self method), rfl⟩

/-- Every recorded scope keeps the scope of the tree. -/
theorem within_of_refers (h : .refers x scope ∈ ofNode site n) : Within n site.scope scope := by
  refine fact_induction (fun site n h => ?_) (fun site n target part facts _ hnear htaken h => ?_)
    (fun site n target part hstep hnear _ ih => ?_) site n h
  · cases established_of_own h with
    | refers => exact .of_suffix (List.suffix_refl _)
  · cases established_of_taken htaken h with
    | refers => exact within_of_near hnear
  · exact (within_of_near hnear).trans ih (parts_subset_parts hstep)

/-! ## What stays inside of a site -/

/-- Wherever binding the tree comes to a pattern of hoisted variables in which the node is
evaluated, the variables belong to the scope of the site or further inside. -/
def StaysInside (site : Site) (n r : Node) : Prop :=
  ∀ inner k, Visits site n inner k → ∀ pattern ∈ k.hoistedPatterns,
    (∃ q ∈ pattern.evaluated, r ∈ q.parts) → site.scope <:+ inner.hoisted.scope

/-- What is evaluated in a pattern of hoisted variables is bound where the variables belong. -/
theorem visit_of_hoisted (hpattern : pattern ∈ n.hoistedPatterns) (hq : q ∈ pattern.evaluated) :
    .visit site.hoisted q ∈ steps site n := by
  cases n with
  | variableStatement i keyword declarations exported ambient =>
      by_cases hkeyword : keyword = .const ∨ keyword = .let
      · simp [hoistedPatterns, hkeyword] at hpattern
      · rw [hoistedPatterns, if_neg hkeyword] at hpattern
        obtain ⟨d, hd, hname⟩ := List.mem_flatMap.mp hpattern
        obtain ⟨j, type, init, rfl⟩ := exists_variable_of_pattern hname
        refine List.mem_flatMap.mpr ⟨_, hd, ?_⟩
        refine List.mem_append_left _ (List.mem_append_left _ ?_)
        simpa [Manner.ofKeyword, hkeyword] using visit_mem_pattern_steps hq
  | forInStatement i init expression statement keyword
  | forOfStatement i init expression statement keyword =>
      cases keyword with
      | none => simp [hoistedPatterns] at hpattern
      | some keyword =>
          cases keyword with
          | var =>
              have hname : pattern ∈ init.variablePatterns := hpattern
              obtain ⟨j, type, value, rfl⟩ := exists_variable_of_pattern hname
              exact List.mem_append_left _ (List.mem_cons_of_mem _ (visit_mem_pattern_steps hq))
          | _ => simp [hoistedPatterns] at hpattern
  | _ => simp [hoistedPatterns] at hpattern

/-- A recorded scope ends with one around the tree if the variables of every hoisted pattern around
the place belong inside of that one. -/
theorem suffix_of_hoisted_inside {base : BoundScope} (h : .refers x scope ∈ ofNode site n)
    (hsite : base <:+ site.scope)
    (hpatterns : ∀ inner k, Visits site n inner k → ∀ pattern ∈ k.hoistedPatterns,
      (∃ q ∈ pattern.evaluated, ∃ m ∈ q.parts, m.id = x) → base <:+ inner.hoisted.scope) :
    base <:+ scope := by
  revert hsite hpatterns
  -- By induction on the steps that lead to the place: each of them goes on from a scope that still
  -- ends with the base.
  refine fact_induction (fun site n h hsite _ => ?_)
    (fun site n target part facts hstep _ _ h hsite _ => ?_)
    (fun site n target part hstep _ h ih hsite hpatterns => ?_) site n h
  · cases established_of_own h with
    | refers => exact hsite
  · cases passes_of_mem_steps hstep with
    | silent hsilent => exact absurd h (hsilent _ _)
    | shorthand =>
        obtain ⟨_, rfl⟩ := Fact.refers.inj (List.mem_singleton.mp h)
        exact hsite
  · have hnext := fun inner k hvisits => hpatterns inner k (.step hstep hvisits)
    cases passes_of_mem_steps hstep with
    | inside hscope => exact ih (hsite.trans hscope) hnext
    | hoisted hpattern hpart =>
        exact ih (hpatterns site n (.here site n) _ hpattern ⟨part, hpart, exists_part_of_refers h⟩)
          hnext

/-- Where binding comes to a node, the frames are those around the whole tree or belong to nodes
that enclose the node. -/
theorem surrounds_of_visits (hlaid : Laid n) (h : Visits site n last k) :
    ∀ frame ∈ last.scope, Surrounds site k.id frame := by
  induction h with
  | here => exact fun _ hframe => .inl hframe
  | @step site target last n m k hstep hvisits ih =>
      obtain ⟨_, hnear, htaken⟩ := taken_of_mem_steps hstep
      cases htaken
      have hlaid' := hlaid.of_mem_parts (parts_subset_parts hstep (mem_parts_self m))
      have henc := hlaid'.encloses hvisits.mem_parts
      intro frame hframe
      rcases ih hlaid' frame hframe with hframe | hframe
      · exact surrounds_of_near hlaid hnear hstep (mem_parts_self m) henc frame hframe
      · exact .inr hframe

/-- What is below a part of a tree is below the tree. -/
theorem mem_below_of_mem_parts (hk : k ∈ n.parts) (hm : m ∈ k.children.flatMap parts) :
    m ∈ n.children.flatMap parts := by
  rw [parts_eq] at hk
  rcases List.mem_cons.mp hk with rfl | hk
  · exact hm
  · obtain ⟨c, hc, hk⟩ := List.mem_flatMap.mp hk
    exact List.mem_flatMap.mpr ⟨c, hc, parts_subset hk (below_subset_parts k hm)⟩

/-- Where binding comes to a node, no frame belongs to anything below the node. -/
theorem frame_ne_of_visits (hlaid : Laid n) (h : Visits site n last k)
    (hsite : ∀ frame ∈ site.scope, ∀ y, frame.id ≠ .node y) :
    ∀ frame ∈ last.scope, ∀ m ∈ k.children.flatMap parts, frame.id ≠ .node m.id := by
  intro frame hframe m hm hid
  rcases surrounds_of_visits hlaid h frame hframe with hframe | ⟨y, hy, henc⟩
  · exact hsite frame hframe _ hid
  · obtain rfl := ScopeId.node.inj (hy.symm.trans hid)
    have hplaced := parts_subset h.mem_parts (below_subset_parts k hm)
    have hk := (hlaid.mem_parts_iff h.mem_parts hplaced).mpr henc
    exact Nat.lt_irrefl _ (height_lt_of_mem_below (mem_below_of_mem_parts hk hm))

/-- An identifier is looked up from inside of the scope of the site exactly if every pattern around
it stays inside of that. -/
theorem suffix_of_refers_iff (hlaid : Laid n)
    (hframes : ∀ frame ∈ site.scope, ∀ m ∈ n.children.flatMap parts, frame.id ≠ .node m.id)
    (hr : .identifier i text ∈ n.parts) (h : .refers i.id scope ∈ ofNode site n) :
    site.scope <:+ scope ↔ StaysInside site n (.identifier i text) := by
  constructor
  · intro hsuffix inner k hvisits pattern hpattern ⟨q, hq, hmem⟩
    have hstep : .visit inner.hoisted q ∈ steps inner k := visit_of_hoisted hpattern hq
    -- What is bound from where the pattern belongs opens frames of its own parts only, and none of
    -- these is around the tree.
    have hrefers := refers_of_visits hlaid (hvisits.next hstep) hmem h
    refine (within_of_refers hrefers).suffix_kept hsuffix fun frame hframe m hm => ?_
    exact hframes frame hframe m
      (mem_below_of_mem_parts hvisits.mem_parts (parts_subset_below hstep hm))
  · intro hstays
    refine suffix_of_hoisted_inside h (List.suffix_refl _) ?_
    intro inner k hvisits pattern hpattern ⟨q, hq, m, hm, hid⟩
    have hvisits' := hvisits.next (visit_of_hoisted hpattern hq)
    obtain rfl := hlaid.eq_of_id_eq (parts_subset hvisits'.mem_parts hm) hr hid
    exact hstays inner k hvisits pattern hpattern ⟨q, hq, hm⟩

/-! ## Patterns by themselves -/

/-- What is hoisted stays inside of a scope exactly if that is no block. -/
theorem suffix_function_chain_iff (hlong : 2 ≤ scope.length) :
    scope <:+ scope.functionChain ↔ ∀ frame ∈ scope.head?, frame.kind ≠ .block := by
  obtain ⟨frame, outer, rest, rfl⟩ : ∃ frame outer rest, scope = frame :: outer :: rest := by
    match scope, hlong with
    | frame :: outer :: rest, _ => exact ⟨frame, outer, rest, rfl⟩
  rw [List.head?_cons, ScopeChain.functionChain]
  split
  · next hblock =>
      have hlt : ¬ frame :: outer :: rest <:+ ScopeChain.functionChain (outer :: rest) := by
        intro h
        have hle := h.length_le.trans (function_chain_suffix (outer :: rest)).length_le
        simp at hle
      simp [hlt, hblock]
  · next hblock => simp [hblock]

/-- If one pattern that a node declares is one of hoisted variables, then all are. -/
theorem Destructures.hoisted (h : Destructures n target' manner pattern)
    (hother : other ∈ n.hoistedPatterns) : pattern ∈ n.hoistedPatterns := by
  cases h with
  | @statement i j keyword declarations exported ambient pattern type init hmem =>
      by_cases hkeyword : keyword = .const ∨ keyword = .let
      · simp [hoistedPatterns, hkeyword] at hother
      · rw [hoistedPatterns, if_neg hkeyword]
        exact List.mem_flatMap.mpr ⟨_, hmem, List.mem_singleton_self pattern⟩
  | @forIn i j keyword | @forOf i j keyword =>
      cases keyword with
      | var => exact List.mem_singleton_self pattern
      | _ => simp [hoistedPatterns] at hother
  | parameter | parameterOfExpression | caught => simp [hoistedPatterns] at hother

/-- Binding does not come to a node from inside of it. -/
theorem Visits.site_eq (h : Visits site n last n) : last = site := by
  generalize heq : n = k at h
  cases h with
  | here => rfl
  | step hstep hvisits =>
      subst heq
      exact absurd (height_lt_of_mem_below (parts_subset_below hstep hvisits.mem_parts))
        (Nat.lt_irrefl _)

/-- If no other pattern of hoisted variables is around it, what is evaluated in a pattern stays
inside unless the variables of that pattern are hoisted out of a block. -/
theorem stays_inside_iff (hd : Destructures n target' manner pattern) (hq : q ∈ pattern.evaluated)
    (hr : r ∈ q.parts) (hlong : 2 ≤ site.scope.length)
    (halone : ∀ k ∈ n.parts, ∀ other ∈ k.hoistedPatterns, ∀ q ∈ other.evaluated,
      r ∈ q.parts → k = n) :
    StaysInside site n r ↔
      ¬ (pattern ∈ n.hoistedPatterns ∧ ∃ frame ∈ site.scope.head?, frame.kind = .block) := by
  constructor
  · rintro hstays ⟨hpattern, frame, hframe, hblock⟩
    have hsuffix := hstays site n (.here site n) pattern hpattern ⟨q, hq, hr⟩
    exact (suffix_function_chain_iff hlong).mp hsuffix frame hframe hblock
  · rintro hnot inner k hvisits other hother ⟨part, hpart, hmem⟩
    obtain rfl := halone k hvisits.mem_parts other hother part hpart hmem
    obtain rfl := hvisits.site_eq
    refine (suffix_function_chain_iff hlong).mpr fun frame hframe hblock => ?_
    exact hnot ⟨hd.hoisted hother, frame, hframe, hblock⟩

/-- What a node takes the values of its variables from is bound where the node is. -/
theorem visit_of_initial (h : q ∈ n.initialValues) : .visit site q ∈ steps site n := by
  cases n with
  | variableStatement i keyword declarations exported ambient =>
      obtain ⟨d, hd, hq⟩ := List.mem_flatMap.mp h
      cases d with
      | variableDeclaration j name type init =>
          refine List.mem_flatMap.mpr ⟨_, hd, List.mem_append_right _ ?_⟩
          exact List.mem_map_of_mem hq
      | _ => simp [variableInit] at hq
  | forInStatement i init expression statement keyword
  | forOfStatement i init expression statement keyword =>
      obtain rfl := List.mem_singleton.mp h
      exact List.mem_cons_self
  | _ => simp [initialValues] at h

end Binding

end StaticLiteral
