import StaticLiteral.Proofs.Binding.Frames
import StaticLiteral.Proofs.Binding.Patterns
import StaticLiteral.Proofs.Syntax.Reach

/-!
# What is declared in the scope of a file

Binding declares in the scope of a file exactly the names that the tree declares around itself: the
plain ones if the scope of the file is the innermost one, the hoisted ones if it is the nearest that
is no block. `adds_iff` says so of every node, `tells_steps_iff` of one step.
-/

namespace StaticLiteral

namespace Binding

open Node

/-- The scope of the file is where names are declared: as the innermost scope, or for what is
hoisted as the nearest one that is no block. -/
def Holds (path : Text) : Bool → BoundScope → Prop
  | false, scope => scope.head? = some ⟨.file path, .file⟩
  | true, scope => scope.functionChain.head? = some ⟨.file path, .file⟩

/-- Among the scopes only that of the file itself is the file's. -/
def Regular (path : Text) (scope : BoundScope) : Prop :=
  ∀ frame ∈ scope, frame.id = .file path → frame = ⟨.file path, .file⟩

/-- The facts declare the name as a value in the scope of the file, for the node. -/
def Adds (path name : Text) (x : NodeId) (facts : List Fact) : Prop :=
  ∃ s, .declares ⟨.file path, .value, name, s⟩ ∈ facts ∧ s.id = .node x

/-- The node is the name, written at the identity. -/
def IsName (text : Text) (x : NodeId) (n : Node) : Prop := n.identifier? = some text ∧ n.id = x

/-- Bound in the scope, the tree should declare the name in the scope of the file. -/
def Gives (path name : Text) (x : NodeId) (scope : BoundScope) (n : Node) : Prop :=
  ∃ hoists, Holds path hoists scope ∧ ∃ leaf, n.Declares hoists leaf ∧ IsName name x leaf

/-- The step should declare the name in the scope of the file. -/
def Tells (path name : Text) (x : NodeId) : Step → Prop
  | .note _ facts => Adds path name x facts
  | .visit target part => Gives path name x target.scope part

variable {path text : Text} {x : NodeId} {site target inner : Site} {scope : BoundScope}
  {n c part name declaration : Node} {manner : Manner} {step : Step} {facts : List Fact}

/-! ## Scopes -/

/-- Nothing else happens to what is hoisted twice. -/
theorem function_chain_function_chain (scope : BoundScope) :
    scope.functionChain.functionChain = scope.functionChain := by
  induction scope using ScopeChain.functionChain.induct with
  | case1 inner outer rest hblock ih => rwa [ScopeChain.functionChain, if_pos hblock]
  | case2 inner outer rest hblock =>
      rw [ScopeChain.functionChain, if_neg hblock, ScopeChain.functionChain, if_neg hblock]
  | case3 scope h =>
      cases scope with
      | nil => rfl
      | cons inner rest =>
          cases rest with
          | nil => rfl
          | cons outer rest => exact absurd rfl (h inner outer rest)

/-- What is hoisted is declared where it was hoisted to. -/
theorem holds_function_chain {hoists : Bool} :
    Holds path hoists scope.functionChain ↔ Holds path true scope := by
  cases hoists with
  | false => exact .rfl
  | true => rw [Holds, function_chain_function_chain, Holds]

/-- Inside of a block, only what is hoisted is declared outside. -/
theorem holds_block {hoists : Bool} {y : NodeId} :
    Holds path hoists (⟨.node y, .block⟩ :: scope) ↔ hoists ∧ Holds path true scope := by
  cases hoists with
  | false => simp [Holds]
  | true =>
      cases scope with
      | nil => simp [Holds, ScopeChain.functionChain]
      | cons frame rest => simp [Holds, ScopeChain.functionChain]

/-- Inside of any other scope nothing is declared outside. -/
theorem not_holds_inner {hoists : Bool} {frame : Frame ScopeId} (hkind : frame.kind ≠ .block)
    (hframe : frame ≠ ⟨.file path, .file⟩) : ¬ Holds path hoists (frame :: scope) := by
  cases hoists with
  | false => simpa [Holds] using hframe
  | true =>
      cases scope with
      | nil => simpa [Holds, ScopeChain.functionChain] using hframe
      | cons outer rest => simpa [Holds, ScopeChain.functionChain, hkind] using hframe

/-- Inside of a function nothing is declared outside. -/
theorem not_holds_inner_site {hoists : Bool} :
    ¬ Holds path hoists (innerSite site n).scope := by
  unfold innerSite
  split
  · exact not_holds_inner (by simp) (by simp)
  · unfold Site.enterFunction
    split
    · next heq =>
        rw [heq]
        exact not_holds_inner (by simp) (by simp)
    · exact not_holds_inner (by simp) (by simp)

/-- Near a node the scopes are regular if they are around it. -/
theorem regular_of_near (h : Near site n step target) (hregular : Regular path site.scope) :
    Regular path target.scope := by
  have hcons : ∀ {y : NodeId} {kind : ScopeKind},
      Regular path (⟨.node y, kind⟩ :: site.scope) := fun {y kind} =>
    List.forall_mem_cons.mpr ⟨nofun, hregular⟩
  cases h with
  | same h => exact h ▸ hregular
  | hoisted h => exact h ▸ fun frame hframe => hregular frame (function_chain_subset _ hframe)
  | own kind h => exact h ▸ hcons
  | method method _ _ h => exact h ▸ hcons

/-- What is hoisted has regular scopes if there are some. -/
theorem regular_hoisted (hregular : Regular path site.scope) : Regular path site.hoisted.scope :=
  fun frame hframe => hregular frame (function_chain_subset _ hframe)

/-- What opens a scope of its own has regular scopes if there are some around. -/
theorem regular_enter {kind : ScopeKind} {y : NodeId} (hregular : Regular path site.scope) :
    Regular path (site.enter kind y).scope :=
  List.forall_mem_cons.mpr ⟨nofun, hregular⟩

/-! ## What a tree gives -/

/-- A tree gives its own names, and what is given beside it or in its blocks. -/
theorem gives_iff : Gives path text x scope n ↔
    (∃ hoists, Holds path hoists scope ∧ ∃ leaf ∈ n.namesAround hoists, IsName text x leaf) ∨
    (∃ c ∈ n.beside, Gives path text x scope c) ∨
    (Holds path true scope ∧ ∃ c ∈ n.blocks, ∃ leaf, c.Declares true leaf ∧
      IsName text x leaf) := by
  simp only [Gives]
  constructor
  · rintro ⟨hoists, hholds, leaf, hdeclares, hname⟩
    rcases declares_iff.mp hdeclares with h | ⟨c, hc, h⟩ | ⟨rfl, c, hc, h⟩
    · exact .inl ⟨hoists, hholds, leaf, h, hname⟩
    · exact .inr (.inl ⟨c, hc, hoists, hholds, leaf, h, hname⟩)
    · exact .inr (.inr ⟨hholds, c, hc, leaf, h, hname⟩)
  · rintro (⟨hoists, hholds, leaf, h, hname⟩ | ⟨c, hc, hoists, hholds, leaf, h, hname⟩ |
      ⟨hholds, c, hc, leaf, h, hname⟩)
    · exact ⟨hoists, hholds, leaf, declares_iff.mpr (.inl h), hname⟩
    · exact ⟨hoists, hholds, leaf, declares_iff.mpr (.inr (.inl ⟨c, hc, h⟩)), hname⟩
    · exact ⟨true, hholds, leaf, declares_iff.mpr (.inr (.inr ⟨rfl, c, hc, h⟩)), hname⟩

/-- Inside of a block a tree gives what it hoists. -/
theorem gives_in_block {y : NodeId} : Gives path text x (⟨.node y, .block⟩ :: scope) n ↔
    Holds path true scope ∧ ∃ leaf, n.Declares true leaf ∧ IsName text x leaf := by
  simp only [Gives, holds_block]
  grind

/-- A tree that is closed gives what it hoists. -/
theorem gives_of_closed (hclosed : ∀ leaf, ¬ n.Declares false leaf) :
    Gives path text x scope n ↔
      Holds path true scope ∧ ∃ leaf, n.Declares true leaf ∧ IsName text x leaf := by
  constructor
  · rintro ⟨hoists, hholds, leaf, hdeclares, hname⟩
    cases hoists with
    | false => exact absurd hdeclares (hclosed leaf)
    | true => exact ⟨hholds, leaf, hdeclares, hname⟩
  · rintro ⟨hholds, h⟩
    exact ⟨true, hholds, h⟩

/-- What is hoisted gives the same from further out. -/
theorem gives_hoisted (hclosed : ∀ leaf, ¬ n.Declares false leaf) :
    Gives path text x scope.functionChain n ↔ Gives path text x scope n := by
  rw [gives_of_closed hclosed, gives_of_closed hclosed, holds_function_chain]

/-- A tree that declares nothing itself and has no blocks gives what is given beside it. -/
theorem gives_of_plain (hscoped : n.scopedNames = []) (hhoisted : n.hoistedNames = [])
    (hblocks : n.blocks = []) :
    Gives path text x scope n ↔ ∃ c ∈ n.beside, Gives path text x scope c := by
  have hnames : ∀ hoists, n.namesAround hoists = [] := by
    intro hoists
    cases hoists with
    | false => exact hscoped
    | true => exact hhoisted
  rw [gives_iff, hblocks]
  simp only [hnames, List.not_mem_nil, false_and, exists_false, and_false, false_or, or_false]

/-- An identifier gives nothing. -/
theorem not_gives_name (h : n.role = .name) : ¬ Gives path text x scope n := by
  cases n <;> simp [role] at h
  rw [gives_of_plain rfl rfl rfl]
  exact fun ⟨c, hc, _⟩ => absurd hc List.not_mem_nil

/-! ## What steps tell -/

/-- One of the steps should declare the name in the scope of the file. -/
def Told (path text : Text) (x : NodeId) (steps : List Step) : Prop :=
  ∃ step ∈ steps, Tells path text x step

/-- No steps tell nothing. -/
@[simp]
theorem not_told_nil : ¬ Told path text x [] := by simp [Told]

/-- What steps tell is told by the first of them or by the others. -/
@[simp]
theorem told_cons {steps : List Step} :
    Told path text x (step :: steps) ↔ Tells path text x step ∨ Told path text x steps := by
  simp [Told]

/-- What steps tell is told by those before or by those after. -/
@[simp]
theorem told_append {steps more : List Step} :
    Told path text x (steps ++ more) ↔ Told path text x steps ∨ Told path text x more := by
  simp only [Told, List.mem_append, or_and_right, exists_or]

/-- What the steps of several nodes tell is told by those of one of them. -/
@[simp]
theorem told_flat_map {f : Node → List Step} {ns : List Node} :
    Told path text x (ns.flatMap f) ↔ ∃ c ∈ ns, Told path text x (f c) := by
  simp only [Told, List.mem_flatMap]
  grind

/-- What visits tell is given by one of the nodes that are visited. -/
@[simp]
theorem told_visit_all {ns : List Node} :
    Told path text x (visitAll site ns) ↔ ∃ c ∈ ns, Gives path text x site.scope c := by
  simp [Told, visitAll, Tells]

/-- Something is declared in the scope of the file only if that is the innermost one. -/
theorem holds_of_declares (hregular : Regular path site.scope) {d : Declared ScopeId BoundSymbol}
    (h : Established site part (.declares d)) (hd : d.frame = .file path) :
    Holds path false site.scope := by
  cases h with
  | declares hframe heq =>
      generalize site.scope = scope at hregular hframe
      cases scope with
      | nil => simp at hframe
      | cons outer rest =>
          obtain rfl := List.mem_singleton.mp hframe
          exact congrArg some (hregular _ List.mem_cons_self (heq.symm.trans hd))

/-- Where nothing is declared in the scope of the file, no step tells anything. -/
theorem not_told_of_taken {steps : List Step} (hregular : Regular path target.scope)
    (hholds : ∀ hoists, ¬ Holds path hoists target.scope)
    (h : ∀ step ∈ steps, Taken target step) : ¬ Told path text x steps := by
  rintro ⟨step, hstep, htells⟩
  have htaken := h step hstep
  cases step with
  | note part facts =>
      obtain ⟨s, hfact, _⟩ := htells
      exact hholds false (holds_of_declares hregular (established_of_taken htaken hfact) rfl)
  | visit _ part =>
      cases htaken
      obtain ⟨hoists, h, _⟩ := htells
      exact hholds hoists h

/-- A declaration adds the name if the scope of the file is the innermost one. -/
theorem adds_declare (hregular : Regular path site.scope) {spaces : List Space}
    (hspaces : .value ∈ spaces) {exported : Bool} {symbolOf : SymbolId → Text → BoundSymbol}
    (hid : ∀ id text, (symbolOf id text).id = id) :
    Adds path text x (site.declare spaces exported symbolOf name) ↔
      Holds path false site.scope ∧ IsName text x name := by
  constructor
  · rintro ⟨s, hfact, hs⟩
    refine ⟨holds_of_declares hregular
      (established_of_taken (.declare spaces exported symbolOf hid name) hfact) rfl, ?_⟩
    cases name with
    | identifier i word =>
        simp only [Site.declare, List.mem_append, List.mem_flatMap, List.mem_map,
          List.mem_cons, reduceCtorEq, false_or] at hfact
        rcases hfact with ⟨frame, _, space, _, heq⟩ | hfact
        · obtain ⟨_, rfl, rfl, rfl⟩ : frame.id = .file path ∧ space = .value ∧ word = text ∧
              symbolOf (.node i.id) word = s := by simpa using heq
          exact ⟨rfl, SymbolId.node.inj ((hid _ _).symm.trans hs)⟩
        · split at hfact <;> simp [Site.exporting] at hfact
    | _ => simp [Site.declare] at hfact
  · rintro ⟨hholds, hword, rfl⟩
    cases name with
    | identifier i word =>
        obtain rfl := Option.some.inj hword
        refine ⟨symbolOf (.node i.id) word, ?_, hid _ _⟩
        generalize hscope : site.scope = scope at hholds
        cases scope with
        | nil => simp [Holds] at hholds
        | cons frame rest =>
            obtain rfl : frame = ⟨.file path, .file⟩ := Option.some.inj hholds
            simp only [Site.declare, hscope, List.take_succ_cons, List.take_zero, List.mem_append]
            exact .inl (by simpa using hspaces)
    | _ => cases hword

/-- The name of a member tells what it gives. -/
theorem tells_member_step {owner : SymbolId} {kind : SymbolKind} {member : Node} :
    Tells path text x (memberStep site owner kind member name) ↔
      Gives path text x site.scope name := by
  unfold memberStep
  split
  · next hfacts =>
      -- A name that is written out declares nothing and has nothing in it.
      cases name with
      | identifier i word | stringLiteral i word | numericLiteral i word =>
          obtain rfl := Option.some.inj hfacts
          rw [gives_of_plain rfl rfl rfl]
          show Adds path text x _ ↔ ∃ c ∈ [], Gives path text x site.scope c
          simp [Adds]
      | _ => cases hfacts
  · exact .rfl

/-- A block of its own tells what is hoisted from it. -/
theorem told_body {y : NodeId} {body : Option Node} :
    Told path text x (bodySteps (site.enter .block y) body) ↔ Holds path true site.scope ∧
      ∃ c ∈ body.toList, ∃ leaf, c.Declares true leaf ∧ IsName text x leaf := by
  have hall : ∀ ns : List Node, Told path text x (visitAll (site.enter .block y) ns) ↔
      Holds path true site.scope ∧ ∃ c ∈ ns, ∃ leaf, c.Declares true leaf ∧ IsName text x leaf := by
    intro ns
    simp only [told_visit_all, Site.enter, gives_in_block]
    grind
  unfold bodySteps
  split
  · next i statements =>
      have hblock : ∀ leaf, (block i statements).Declares true leaf ↔
          ∃ c ∈ statements, c.Declares true leaf := fun leaf => by
        rw [declares_iff]
        show leaf ∈ [] ∨ (∃ c ∈ [], Node.Declares true c leaf) ∨ (true ∧ ∃ c ∈ statements, _) ↔ _
        simp
      simp only [hall, Option.toList, List.mem_singleton, exists_eq_left, hblock]
      grind
  · exact hall _

/-- A pattern tells its names, and what is evaluated in it. -/
theorem told_pattern (hregular : Regular path target.scope) :
    Told path text x (patternSteps target manner declaration name) ↔
      (Holds path false target.scope ∧ ∃ leaf ∈ name.leaves, IsName text x leaf) ∨
        ∃ part ∈ name.evaluated, Gives path text x target.scope part := by
  have hleaf : ∀ leaf d, Tells path text x (.note leaf (target.declare [.value] manner.exported
      (.declaredBy manner.kind d manner.isConst) leaf)) ↔
        Holds path false target.scope ∧ IsName text x leaf := fun leaf d =>
    adds_declare hregular (List.mem_singleton_self _) fun _ _ => rfl
  constructor
  · rintro ⟨step, hstep, htells⟩
    rcases of_mem_pattern_steps hstep with ⟨leaf, hmem, d, _, rfl⟩ | ⟨part, hpart, rfl⟩
    · obtain ⟨hholds, hname⟩ := (hleaf leaf d).mp htells
      exact .inl ⟨hholds, leaf, hmem, hname⟩
    · exact .inr ⟨part, hpart, htells⟩
  · rintro (⟨hholds, leaf, hmem, hname⟩ | ⟨part, hpart, hgives⟩)
    · obtain ⟨step, hstep, d, rfl⟩ := leaf_mem_pattern_steps hmem
      exact ⟨_, hstep, (hleaf leaf d).mpr ⟨hholds, hname⟩⟩
    · exact ⟨_, visit_mem_pattern_steps hpart, hgives⟩

/-- What is evaluated for a name or pattern is seen alike from both sites. -/
def SeesAlike (path text : Text) (x : NodeId) (target site : Site) (n : Node) : Prop :=
  ∀ name ∈ n.declaredNames, ∀ part ∈ name.evaluated,
    Gives path text x target.scope part ↔ Gives path text x site.scope part

/-- A variable tells its names, and what is evaluated for it. -/
theorem told_declarator (hregular : Regular path target.scope) (hrole : n.role = .variable)
    (hsees : SeesAlike path text x target site n) :
    Told path text x (declaratorSteps site target manner n) ↔
      (Holds path false target.scope ∧ ∃ leaf ∈ variableNames [n], IsName text x leaf) ∨
        ∃ c ∈ n.besideVariable, Gives path text x site.scope c := by
  obtain ⟨i, name, type, init, rfl⟩ := exists_variable hrole
  have hevaluated := hsees name (List.mem_singleton_self name)
  simp only [declaratorSteps, told_append, told_pattern hregular, told_visit_all, variableNames,
    declaredNames, besideVariable, List.flatMap_cons, List.flatMap_nil, List.append_nil,
    List.mem_append]
  grind

/-- The variable of a loop tells its names, and what is evaluated for it. -/
theorem told_loop (hregular : Regular path target.scope) (hloop : n.isLoopVariable)
    (hsees : SeesAlike path text x target site n) :
    Told path text x (loopSteps target manner n) ↔
      (Holds path false target.scope ∧ ∃ leaf ∈ variableNames [n], IsName text x leaf) ∨
        ∃ c ∈ n.besideVariable, Gives path text x site.scope c := by
  obtain ⟨i, name, rfl⟩ := exists_loop_variable hloop
  have hsteps : loopSteps target manner (.variableDeclaration i name none none) =
      declaratorSteps site target manner (.variableDeclaration i name none none) := by
    simp [loopSteps, declaratorSteps, visitAll]
  rw [hsteps]
  exact told_declarator hregular rfl hsees

/-- What is caught tells its names, and what is evaluated for it. -/
theorem told_caught (hregular : Regular path inner.scope) (hcaught : n.isCaught)
    (hsees : SeesAlike path text x inner site n) :
    Told path text x (caughtSteps site inner n) ↔
      (Holds path false inner.scope ∧ ∃ leaf ∈ variableNames [n], IsName text x leaf) ∨
        ∃ c ∈ n.besideVariable, Gives path text x site.scope c := by
  obtain ⟨i, name, type, rfl⟩ := exists_caught hcaught
  have hsteps : caughtSteps site inner (.variableDeclaration i name type none) =
      declaratorSteps site inner .ofParameter (.variableDeclaration i name type none) := by
    simp [caughtSteps, declaratorSteps, visitAll]
  rw [hsteps]
  exact told_declarator hregular rfl hsees

/-- A member of a type or an enumeration tells what it gives. -/
theorem told_member {owner : SymbolId} {kind : SymbolKind}
    (hrole : n.role = .signature ∨ n.role = .enumMember) :
    Told path text x (memberSteps site owner kind n) ↔ Gives path text x site.scope n := by
  cases n with
  | propertySignature i name rest | enumMember i name rest =>
      rw [gives_of_plain rfl rfl rfl]
      simp [memberSteps, tells_member_step, beside, children_eq, fields, Field.contents]
  | _ => simp [role] at hrole

/-- What is inside of a function tells nothing. -/
theorem not_told_inner (hregular : Regular path site.scope) :
    ¬ Told path text x (innerSteps site n) := by
  refine not_told_of_taken ?_ (fun _ => not_holds_inner_site) fun _ => taken_of_mem_inner_steps
  rcases scope_inner_site site n with h | h
  · exact h ▸ hregular
  · exact h ▸ List.forall_mem_cons.mpr ⟨nofun, hregular⟩

/-- A property tells what is given beside it. -/
theorem told_property (hregular : Regular path site.scope) {owner : SymbolId} :
    Told path text x (propertySteps site owner n) ↔
      Gives path text x site.scope n.besideProperty := by
  cases n with
  | propertyAssignment i name init =>
      show _ ↔ Gives path text x site.scope (.propertyAssignment i name init)
      rw [gives_of_plain rfl rfl rfl]
      show _ ↔ ∃ c ∈ [name, init], Gives path text x site.scope c
      simp only [propertySteps, told_cons, tells_member_step, not_told_nil, or_false]
      simp [Tells]
  | shorthandPropertyAssignment i name =>
      show _ ↔ Gives path text x site.scope (.shorthandPropertyAssignment i name)
      rw [gives_of_plain rfl rfl rfl]
      show _ ↔ ∃ c ∈ [name], Gives path text x site.scope c
      simp only [propertySteps, told_cons, tells_member_step, not_told_nil, or_false]
      simp [Tells, Adds]
  | methodDeclaration i name body =>
      simp [propertySteps, tells_member_step, besideProperty, not_told_inner hregular]
  | _ => simp [propertySteps, besideProperty, Tells]

/-- Variables side by side tell their names, and what is evaluated for them. -/
theorem told_declarators {declarations : List Node} (hregular : Regular path target.scope)
    (hrole : ∀ c ∈ declarations, c.role = .variable)
    (hsees : ∀ c ∈ declarations, SeesAlike path text x target site c) :
    Told path text x (declarations.flatMap (declaratorSteps site target manner)) ↔
      (Holds path false target.scope ∧ ∃ leaf ∈ variableNames declarations, IsName text x leaf) ∨
        ∃ c ∈ declarations.flatMap besideVariable, Gives path text x site.scope c := by
  have hone : ∀ c ∈ declarations, (Told path text x (declaratorSteps site target manner c) ↔
      (Holds path false target.scope ∧ ∃ leaf ∈ variableNames [c], IsName text x leaf) ∨
        ∃ b ∈ c.besideVariable, Gives path text x site.scope b) := fun c hc =>
    told_declarator hregular (hrole c hc) (hsees c hc)
  simp only [variableNames, List.flatMap_cons, List.flatMap_nil, List.append_nil] at hone
  simp only [told_flat_map, variableNames, List.mem_flatMap]
  grind

/-- What is evaluated in the patterns of a child is closed. -/
theorem closed_of_child {name : Node} (hclosed : n.HasClosedPatterns) (hc : c ∈ n.children)
    (hname : name ∈ c.declaredNames) (hpart : part ∈ name.evaluated) (leaf : Node) :
    ¬ part.Declares false leaf :=
  hclosed name (parts_subset_of_mem_children hc
    (mem_parts_of_mem_names (declared_names_subset_names c hname))) part hpart leaf

/-- What is evaluated in closed patterns is seen alike from where hoisted names are declared. -/
theorem sees_alike_hoisted (hclosed : n.HasClosedPatterns) (hc : c ∈ n.children) :
    SeesAlike path text x site.hoisted site c := fun _ hname _ hpart =>
  gives_hoisted (closed_of_child hclosed hc hname hpart)

/-- What is evaluated in closed patterns is seen alike from inside of a block. -/
theorem sees_alike_block {y : NodeId} (hclosed : n.HasClosedPatterns) (hc : c ∈ n.children) :
    SeesAlike path text x (site.enter .block y) site c := fun _ hname _ hpart =>
  gives_in_block.trans (gives_of_closed (closed_of_child hclosed hc hname hpart)).symm

attribute [local simp] steps namesAround scopedNames hoistedNames beside blocks children_eq fields
  Field.contents

/-- The variable of a loop tells what is hoisted, and what is evaluated for it. -/
theorem told_loop_variable {y : NodeId} {keyword : DeclarationKind}
    (hregular : Regular path site.scope) (hloop : c.isLoopVariable) (hc : c ∈ n.children)
    (hclosed : n.HasClosedPatterns) :
    Told path text x
        (loopSteps (if keyword = .var then site.hoisted else site.enter .block y) manner c) ↔
      (keyword = .var ∧ Holds path true site.scope ∧
          ∃ leaf ∈ variableNames [c], IsName text x leaf) ∨
        ∃ b ∈ c.besideVariable, Gives path text x site.scope b := by
  split
  · next hvar =>
      rw [told_loop (regular_hoisted hregular) hloop (sees_alike_hoisted hclosed hc)]
      simp [hvar, Holds, Site.hoisted]
  · next hvar =>
      rw [told_loop (regular_enter hregular) hloop (sees_alike_block hclosed hc)]
      simp [hvar, Holds, Site.enter]

/-- What is caught tells what is evaluated for it. -/
theorem told_caught_variable {y : NodeId} (hregular : Regular path site.scope)
    (hcaught : c.isCaught) (hc : c ∈ n.children) (hclosed : n.HasClosedPatterns) :
    Told path text x (caughtSteps site (site.enter .block y) c) ↔
      ∃ b ∈ c.besideVariable, Gives path text x site.scope b := by
  rw [told_caught (regular_enter hregular) hcaught (sees_alike_block hclosed hc)]
  simp [Holds, Site.enter]

/-- The name of a function tells itself, hoisted. -/
theorem told_function_name {function : Node} {exported : Bool} {name : Option Node}
    (hregular : Regular path site.scope) :
    Told path text x (name.toList.map fun name => .note name
        (site.hoisted.declare [.value] exported (.declaredBy .function function false) name)) ↔
      Holds path true site.scope ∧ ∃ leaf ∈ name.toList, IsName text x leaf := by
  cases name with
  | none => simp
  | some name =>
      have hadds : Adds path text x (site.hoisted.declare [.value] exported
          (.declaredBy .function function false) name) ↔
            Holds path true site.scope ∧ IsName text x name :=
        adds_declare (regular_hoisted hregular) (List.mem_singleton_self _) fun _ _ => rfl
      simpa [Tells] using hadds

/-- Members side by side tell what they give. -/
theorem told_members {owner : SymbolId} {kind : SymbolKind} {members : List Node}
    (hrole : ∀ c ∈ members, c.role = .signature ∨ c.role = .enumMember) :
    Told path text x (members.flatMap (memberSteps site owner kind)) ↔
      ∃ c ∈ members, Gives path text x site.scope c := by
  rw [told_flat_map]
  exact exists_congr fun c => and_congr_right fun hc => told_member (hrole c hc)

/-- Inside of a scope that is no block, nothing is told. -/
theorem not_told_inside {steps : List Step} {y : NodeId} {kind : ScopeKind}
    (hregular : Regular path site.scope) (hkind : kind ≠ .block)
    (hscope : inner.scope = ⟨.node y, kind⟩ :: site.scope)
    (h : ∀ step ∈ steps, Taken inner step) : ¬ Told path text x steps := by
  refine not_told_of_taken ?_ (fun hoists => ?_) h
  · exact hscope ▸ List.forall_mem_cons.mpr ⟨nofun, hregular⟩
  · exact hscope ▸ not_holds_inner hkind nofun

/-- An import tells its name. -/
theorem told_import {module : Text} (hregular : Regular path site.scope)
    (hrole : c.role = .imported) :
    Told path text x (importSteps site module c) ↔
      Holds path false site.scope ∧ ∃ leaf ∈ c.names, IsName text x leaf := by
  cases c with
  | importSpecifier i name propertyName isNamespace =>
      simpa [importSteps, importFacts, Tells, names] using
        adds_declare hregular (by simp) fun _ _ => rfl
  | _ => cases hrole

/-- An export tells nothing. -/
theorem not_told_export {module : Option Text} :
    ¬ Told path text x (exportSteps site module c) := by
  cases c <;> simp [exportSteps, Tells, Adds, exportFacts, Site.exporting]

/-- The steps of a node tell what the node gives. -/
theorem told_steps_iff (hregular : Regular path site.scope) (hformed : n.isFormed)
    (hclosed : n.HasClosedPatterns) :
    Told path text x (steps site n) ↔ Gives path text x site.scope n := by
  have hname : ∀ {name : Node}, name.role = .name → ¬ Gives path text x site.scope name :=
    not_gives_name
  have hvalue : ∀ {kind : SymbolKind} {d name : Node} {exported : Bool},
      Adds path text x (site.declare [.value, .type] exported (.declaredBy kind d false) name) ↔
        Holds path false site.scope ∧ IsName text x name :=
    adds_declare hregular (by simp) fun _ _ => rfl
  have htype : ∀ {kind : SymbolKind} {d name : Node} {exported : Bool},
      ¬ Adds path text x (site.declare [.type] exported (.declaredBy kind d false) name) := by
    rintro kind d name exported ⟨s, hfact, _⟩
    cases name with
    | identifier j word =>
        cases exported <;> simp [Site.declare, Site.exporting] at hfact
    | _ => simp [Site.declare] at hfact
  rw [gives_iff, Bool.exists_bool]
  cases n with
  | typeReference i name arguments => simp [hname (of_decide_eq_true hformed)]
  | variableStatement i keyword declarations exported ambient =>
      obtain ⟨hknown, hall⟩ := Bool.and_eq_true_iff.mp hformed
      have hrole : ∀ c ∈ declarations, c.role = .variable := by simpa using hall
      have hsees : ∀ c ∈ declarations, SeesAlike path text x site.hoisted site c := fun c hc =>
        sees_alike_hoisted hclosed (by simpa using hc)
      cases keyword with
      | const | «let» =>
          simp [Manner.ofKeyword, told_declarators hregular hrole fun c hc _ _ _ _ => .rfl]
      | var =>
          have htold : Told path text x (declarations.flatMap
              (declaratorSteps site site.hoisted (.ofKeyword .var exported))) ↔
                (Holds path false site.hoisted.scope ∧
                  ∃ leaf ∈ variableNames declarations, IsName text x leaf) ∨
                ∃ c ∈ declarations.flatMap besideVariable, Gives path text x site.scope c :=
            told_declarators (regular_hoisted hregular) hrole hsees
          simpa [Manner.ofKeyword, Holds, Site.hoisted] using htold
      | other word => cases hknown
  | forInStatement i init expression statement keyword
  | forOfStatement i init expression statement keyword =>
      cases keyword with
      | none => simp [told_body, Tells, or_assoc]
      | some keyword =>
          obtain ⟨hknown, hloop⟩ := Bool.and_eq_true_iff.mp hformed
          have hvariable : init.isVariableDeclaration := by
            obtain ⟨j, name, rfl⟩ := exists_loop_variable hloop
            rfl
          have htold : ∀ manner, Told path text x (loopSteps
              (if keyword = .var then site.hoisted else site.enter .block i.id) manner init) ↔
                (keyword = .var ∧ Holds path true site.scope ∧
                  ∃ leaf ∈ variableNames [init], IsName text x leaf) ∨
                ∃ b ∈ init.besideVariable, Gives path text x site.scope b := fun manner =>
            told_loop_variable hregular hloop (by simp) hclosed
          cases keyword with
          | const | «let» =>
              simp only [reduceCtorEq, if_false, false_and, false_or] at htold
              simp [hvariable, htold, told_body, Tells, or_assoc]
          | var =>
              simp only [if_true, true_and] at htold
              simp [hvariable, htold, told_body, Tells, or_assoc, or_left_comm]
          | other word => cases hknown
  | catchClause i declaration block =>
      cases declaration with
      | none => simp [told_body]
      | some declaration =>
          have htold : Told path text x (caughtSteps site (site.enter .block i.id) declaration) ↔
              ∃ b ∈ declaration.besideVariable, Gives path text x site.scope b :=
            told_caught_variable hregular hformed (by simp) hclosed
          simp [told_body, htold]
  | functionDeclaration i name parameters body exported =>
      simp only [steps, told_append, told_function_name hregular, not_told_inner hregular]
      simp
  | functionExpression i name parameters body =>
      have hself : ¬ Told path text x (name.toList.map fun part =>
          .note part ((site.enter .function i.id).declare [.value] false (.declaredBy .function
            (.functionExpression i name parameters body) false) part)) :=
        not_told_inside hregular (by simp) rfl fun _ => taken_of_mem_name_steps fun _ _ => rfl
      simp only [steps, told_append, hself, not_told_inner hregular]
      simp
  | classDeclaration i name exported => cases name <;> simp [Tells, hvalue]
  | typeAliasDeclaration i name type exported =>
      have hnone : ¬ Gives path text x site.scope name := hname (of_decide_eq_true hformed)
      simp [hnone, Tells, htype]
  | interfaceDeclaration i name members exported =>
      obtain ⟨hrole, hall⟩ := Bool.and_eq_true_iff.mp hformed
      have hnone : ¬ Gives path text x site.scope name := hname (of_decide_eq_true hrole)
      have hmembers : ∀ c ∈ members, c.role = .signature ∨ c.role = .enumMember := fun c hc =>
        .inl (of_decide_eq_true (List.all_eq_true.mp hall c hc))
      simp only [steps, told_cons, told_members hmembers]
      simp [hnone, Tells, htype]
  | enumDeclaration i name members isConst exported =>
      obtain ⟨hrole, hall⟩ := Bool.and_eq_true_iff.mp hformed
      have hnone : ¬ Gives path text x site.scope name := hname (of_decide_eq_true hrole)
      have hmembers : ∀ c ∈ members, c.role = .signature ∨ c.role = .enumMember := fun c hc =>
        .inr (of_decide_eq_true (List.all_eq_true.mp hall c hc))
      simp only [steps, told_cons, told_members hmembers]
      simp [hnone, Tells, hvalue]
  | moduleDeclaration i name body exported =>
      have hbody : ¬ Told path text x (bodySteps (site.enterNamespace i.id name) body) :=
        not_told_inside hregular (by simp) (scope_enter_namespace site i.id name)
          fun _ => taken_of_mem_body_steps
      simp [Tells, hvalue, hbody]
  | importDeclaration i module specifiers =>
      have htold : ∀ c ∈ specifiers, (Told path text x (importSteps site module c) ↔
          Holds path false site.scope ∧ ∃ leaf ∈ c.names, IsName text x leaf) := fun c hc =>
        told_import hregular (of_decide_eq_true (List.all_eq_true.mp hformed c hc))
      simp
      grind
  | exportDeclaration i specifiers module isStar =>
      cases isStar <;> simp [not_told_export]
  | objectLiteral i properties => simp [told_property hregular]
  | typeLiteral i members =>
      have hmembers : ∀ c ∈ members, c.role = .signature ∨ c.role = .enumMember := fun c hc =>
        .inl (of_decide_eq_true (List.all_eq_true.mp hformed c hc))
      simp only [steps, told_members hmembers]
      simp
  | block i statements =>
      simp [gives_in_block, Site.enter]
      grind
  | _ => simp

/-- A node declares nothing about itself. -/
theorem not_adds_own : ¬ Adds path text x (ownFacts site n) := by
  rintro ⟨s, hfact, _⟩
  cases n with
  | exportDeclaration i specifiers module isStar =>
      cases isStar <;> cases module <;> simp [ownFacts, starFacts] at hfact
  | exportAssignment i e => simp [ownFacts, defaultFacts, Site.exporting] at hfact
  | _ => simp [ownFacts] at hfact

/-- The facts of a step declare the name if the step should, given that this is so of the tree that
it visits. -/
theorem adds_step_iff
    (hvisit : ∀ target part, step = .visit target part →
      (Adds path text x (ofNode target part) ↔ Gives path text x target.scope part)) :
    Adds path text x step.facts ↔ Tells path text x step := by
  cases step with
  | note part facts => exact .rfl
  | visit target part => exact hvisit target part rfl

/-- Binding a tree with closed patterns declares in the scope of the file the names that the tree
gives it, and no others. -/
theorem adds_iff (hregular : Regular path site.scope) (hwell : n.WellFormed)
    (hclosed : n.HasClosedPatterns) :
    Adds path text x (ofNode site n) ↔ Gives path text x site.scope n := by
  induction n using parts_induction generalizing site with
  | step n ih =>
      rw [← told_steps_iff hregular (well_formed_iff.mp hwell).1 hclosed]
      have hstep : ∀ step ∈ steps site n,
          (Adds path text x step.facts ↔ Tells path text x step) := by
        intro step hstep
        refine adds_step_iff fun target part heq => ?_
        subst heq
        obtain ⟨_, hnear, htaken⟩ := taken_of_mem_steps hstep
        cases htaken
        have hbelow := parts_subset_below hstep (mem_parts_self part)
        have hpart := below_subset_parts n hbelow
        exact ih part hbelow (regular_of_near hnear hregular) (hwell.of_mem_parts hpart)
          fun q hq => hclosed q (parts_subset hpart hq)
      calc Adds path text x (ofNode site n)
          ↔ ∃ step ∈ steps site n, Adds path text x step.facts := by
            rw [of_node_eq]
            have hown : ¬ Adds path text x (ownFacts site n) := not_adds_own
            simp only [Adds, List.mem_append, List.mem_flatMap] at hown ⊢
            grind
        _ ↔ Told path text x (steps site n) :=
            exists_congr fun step => and_congr_right fun hmem => hstep step hmem

end Binding

end StaticLiteral
