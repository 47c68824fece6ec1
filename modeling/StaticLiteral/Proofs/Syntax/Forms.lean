import StaticLiteral.Proofs.Syntax.Layout

/-!
# The forms of nodes

The fields of a node are nodes of any kind, but the trees of sources have nodes of certain kinds
there: a statement of variables holds variables, the elements of a pattern are elements, what is
named after a keyword is an identifier. `Node.isFormed` says so of one node and `Node.WellFormed` of
a whole tree. Where a tree is placed makes no difference.
-/

namespace StaticLiteral

/-- Whether the keyword is one that introduces variables. -/
def DeclarationKind.isKnown : DeclarationKind → Bool
  | .other _ => false
  | _ => true

/-- What a node can be a part of some other node as. -/
inductive Role where
  | name
  | pattern
  | unknown
  | variable
  | parameter
  | element
  | hole
  | signature
  | enumMember
  | imported
  | exported
  | text
  | other
  deriving DecidableEq

namespace Node

/-- The role of a node. -/
def role : Node → Role
  | identifier .. => .name
  | objectBindingPattern .. | arrayBindingPattern .. => .pattern
  | unknown .. => .unknown
  | variableDeclaration .. => .variable
  | parameter .. => .parameter
  | bindingElement .. => .element
  | omittedExpression .. => .hole
  | propertySignature .. => .signature
  | enumMember .. => .enumMember
  | importSpecifier .. => .imported
  | exportSpecifier .. => .exported
  | stringLiteral .. => .text
  | _ => .other

/-- Whether a node has what declares something in a pattern: a name, a pattern, or whatever was not
understood. -/
def isBindingName (n : Node) : Bool := n.role = .name || n.role = .pattern || n.role = .unknown

/-- Whether a node can name a namespace or a module: a name, a text, or a node without children that
was not understood. -/
def isModuleName : Node → Bool
  | identifier .. | stringLiteral .. | unknown _ _ [] => true
  | _ => false

/-- Whether the node is a variable without an initial value. -/
def isCaught : Node → Bool
  | variableDeclaration _ _ _ none => true
  | _ => false

/-- Whether the node is a variable with neither a type nor an initial value. -/
def isLoopVariable : Node → Bool
  | variableDeclaration _ _ none none => true
  | _ => false

/-- Whether the children of the node are of kinds that it has in the tree of a source. -/
def isFormed : Node → Bool
  | variableStatement _ keyword declarations _ _ =>
    keyword.isKnown && declarations.all (·.role = .variable)
  | variableDeclaration _ name _ _ | parameter _ name _ _ | bindingElement _ name _ _ _ =>
    name.isBindingName
  | objectBindingPattern _ elements | arrayBindingPattern _ elements =>
    elements.all fun e => e.role = .element || e.role = .hole
  | forInStatement _ init _ _ (some keyword) | forOfStatement _ init _ _ (some keyword) =>
    keyword.isKnown && init.isLoopVariable
  | catchClause _ declaration _ => declaration.all isCaught
  | functionDeclaration _ name parameters _ _ | functionExpression _ name parameters _ =>
    name.all (·.role = .name) && parameters.all (·.role = .parameter)
  | classDeclaration _ name _ => name.all (·.role = .name)
  | typeAliasDeclaration _ name _ _ | importSpecifier _ name _ _ | typeReference _ name _ =>
    name.role = .name
  | interfaceDeclaration _ name members _ =>
    name.role = .name && members.all (·.role = .signature)
  | enumDeclaration _ name members _ _ => name.role = .name && members.all (·.role = .enumMember)
  | moduleDeclaration _ name _ _ => name.isModuleName
  | importDeclaration _ _ specifiers => specifiers.all (·.role = .imported)
  | exportDeclaration _ specifiers _ _ => specifiers.all (·.role = .exported)
  | typeLiteral _ members => members.all (·.role = .signature)
  | _ => true

/-- Every part of the tree is formed. -/
def WellFormed (n : Node) : Prop := ∀ m ∈ n.parts, m.isFormed

variable {n m : Node}

/-- A tree is well formed if its root and the trees of its children are. -/
theorem well_formed_iff : n.WellFormed ↔ n.isFormed ∧ ∀ c ∈ n.children, c.WellFormed := by
  simp only [WellFormed]
  rw [parts_eq n, List.forall_mem_cons]
  simp only [List.forall_mem_flatMap]

/-- A tree is well formed if its root is formed and what its fields hold is well formed. -/
theorem WellFormed.of_fields (hformed : n.isFormed)
    (h : ∀ c ∈ n.fields.flatMap (·.2.contents), c.WellFormed) : n.WellFormed :=
  well_formed_iff.mpr ⟨hformed, children_eq n ▸ h⟩

/-- The parts of a tree that is well formed are well formed. -/
theorem WellFormed.of_mem_parts (h : n.WellFormed) (hm : m ∈ n.parts) : m.WellFormed :=
  fun q hq => h q (parts_subset hm hq)

/-- A node in the role of a variable is one. -/
theorem exists_variable (h : n.role = .variable) :
    ∃ i name type init, n = .variableDeclaration i name type init := by
  cases n <;> simp_all [role]

/-- A node in the role of a parameter is one. -/
theorem exists_parameter (h : n.role = .parameter) :
    ∃ i name type init, n = .parameter i name type init := by
  cases n <;> simp_all [role]

/-- A node in the role of an element is one. -/
theorem exists_element (h : n.role = .element) :
    ∃ i name key init isRest, n = .bindingElement i name key init isRest := by
  cases n <;> simp_all [role]

/-- A variable that is caught has no initial value. -/
theorem exists_caught (h : n.isCaught) :
    ∃ i name type, n = .variableDeclaration i name type none := by
  unfold isCaught at h
  split at h
  · exact ⟨_, _, _, rfl⟩
  · cases h

/-- The variable of a loop has neither a type nor an initial value. -/
theorem exists_loop_variable (h : n.isLoopVariable) :
    ∃ i name, n = .variableDeclaration i name none none := by
  unfold isLoopVariable at h
  split at h
  · exact ⟨_, _, rfl⟩
  · cases h

/-! ## Placed trees -/

variable {file : Text} {way : List Nat}

/-- Where a node is placed makes no difference to its role. -/
@[simp]
theorem role_place (file : Text) (way : List Nat) (n : Node) :
    (place file way n).role = n.role := by
  cases n <;> rfl

/-- What makes no difference to nodes makes none to lists of them. -/
theorem all_place_all {p : Node → Bool} (h : ∀ way n, p (place file way n) = p n)
    (way : List Nat) (k : Nat) (ns : List Node) : (placeAll file way k ns).all p = ns.all p := by
  induction ns generalizing k with
  | nil => rfl
  | cons n ns ih => simp only [placeAll, List.all_cons, h, ih]

/-- What makes no difference to nodes makes none to nodes that may be missing. -/
theorem all_place_option {p : Node → Bool} (h : ∀ way n, p (place file way n) = p n)
    (way : List Nat) (n : Option Node) : (placeOption file way n).all p = n.all p := by
  cases n with
  | none => rfl
  | some n => simp only [placeOption, Option.all_some, h]

/-- Where a node is placed makes no difference to its form. -/
@[simp]
theorem is_formed_place (file : Text) (way : List Nat) (n : Node) :
    (place file way n).isFormed = n.isFormed := by
  have hmodule : ∀ way n, (place file way n).isModuleName = n.isModuleName := fun way n => by
    cases n with
    | unknown i t children => cases children <;> rfl
    | _ => rfl
  have hcaught : ∀ way n, (place file way n).isCaught = n.isCaught := fun way n => by
    cases n with
    | variableDeclaration i name type init => cases init <;> rfl
    | _ => rfl
  have hloop : ∀ way n, (place file way n).isLoopVariable = n.isLoopVariable := fun way n => by
    cases n with
    | variableDeclaration i name type init => cases type <;> cases init <;> rfl
    | _ => rfl
  cases n with
  | forInStatement i init e statement keyword | forOfStatement i init e statement keyword =>
      cases keyword <;> simp [place, isFormed, hloop]
  | _ => simp [place, isFormed, isBindingName, all_place_all, all_place_option, hmodule, hcaught]

/-- What holds of nodes of a list wherever they are placed holds of the placed list. -/
theorem forall_place_all {P : Node → Prop} {k : Nat} {ns : List Node}
    (h : ∀ q ∈ ns, ∀ way, P (place file way q)) : ∀ c ∈ placeAll file way k ns, P c := by
  intro c hc
  obtain ⟨j, _, q, hq, rfl⟩ := mem_place_all hc
  exact h q hq _

/-- What holds of the children of a node wherever they are placed holds of the children of the
placed node. -/
theorem forall_children_place {P : Node → Prop}
    (h : ∀ q ∈ n.children, ∀ way, P (place file way q)) :
    ∀ c ∈ (place file way n).children, P c := by
  have hoption : ∀ {way o}, (∀ q ∈ o.toList, ∀ way, P (place file way q)) →
      ∀ c ∈ (placeOption file way o).toList, P c := fun {way o} h => by
    cases o with
    | none => nofun
    | some o => simpa [placeOption] using h o (by simp) way
  rw [children_eq] at h ⊢
  cases n <;> simp only [place, fields, Field.contents, List.flatMap_cons, List.flatMap_nil,
    List.nil_append, List.append_nil, List.forall_mem_cons, List.forall_mem_append] at h ⊢
  -- Both sides have one conjunct for each field.
  all_goals
    revert h
    repeat' first
      | exact fun h => h _
      | exact forall_place_all
      | exact hoption
      | exact fun _ _ h => absurd h List.not_mem_nil
      | refine And.imp ?_ ?_

/-- A well-formed tree stays well formed where it is placed. -/
theorem WellFormed.place (h : n.WellFormed) (file : Text) (way : List Nat) :
    (n.place file way).WellFormed := by
  induction n using children_induction generalizing way with
  | step n ih =>
      obtain ⟨hformed, hchildren⟩ := well_formed_iff.mp h
      refine well_formed_iff.mpr ⟨(is_formed_place file way n).trans hformed, ?_⟩
      exact forall_children_place fun q hq further => ih q hq (hchildren q hq) further

end Node

end StaticLiteral
