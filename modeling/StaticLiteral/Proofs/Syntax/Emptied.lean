import StaticLiteral.Proofs.Syntax.Layout

/-!
# Functions left empty

`Node.emptied` leaves out the parameters and the body of one function of a tree, whether it is
declared, an expression or a method. Every other node keeps its identity and its children, the tree
does not grow higher, and of what was inside the function no identity is left:
`not_inner_of_mem_emptied`.
-/

namespace StaticLiteral

namespace Node

mutual

/-- The tree with nothing left inside the function `target`. -/
def emptied (target : NodeId) : Node → Node
  | sourceFile i a b => .sourceFile i a (emptiedAll target b)
  | expressionStatement i a => .expressionStatement i (emptied target a)
  | variableStatement i a b c d => .variableStatement i a (emptiedAll target b) c d
  | variableDeclaration i a b c =>
    .variableDeclaration i (emptied target a) (emptiedOption target b) (emptiedOption target c)
  | importDeclaration i a b => .importDeclaration i a (emptiedAll target b)
  | importSpecifier i a b c => .importSpecifier i (emptied target a) b c
  | exportDeclaration i a b c => .exportDeclaration i (emptiedAll target a) b c
  | exportSpecifier i a b => .exportSpecifier i a b
  | exportAssignment i a => .exportAssignment i (emptied target a)
  | functionDeclaration i a b c d =>
    .functionDeclaration i (emptiedOption target a)
      (if i.id = target then [] else emptiedAll target b)
      (if i.id = target then none else emptiedOption target c) d
  | functionExpression i a b c =>
    .functionExpression i (emptiedOption target a)
      (if i.id = target then [] else emptiedAll target b)
      (if i.id = target then none else emptiedOption target c)
  | parameter i a b c =>
    .parameter i (emptied target a) (emptiedOption target b) (emptiedOption target c)
  | block i a => .block i (emptiedAll target a)
  | classDeclaration i a b => .classDeclaration i (emptiedOption target a) b
  | typeAliasDeclaration i a b c =>
    .typeAliasDeclaration i (emptied target a) (emptied target b) c
  | interfaceDeclaration i a b c =>
    .interfaceDeclaration i (emptied target a) (emptiedAll target b) c
  | propertySignature i a b => .propertySignature i (emptied target a) (emptiedOption target b)
  | objectBindingPattern i a => .objectBindingPattern i (emptiedAll target a)
  | arrayBindingPattern i a => .arrayBindingPattern i (emptiedAll target a)
  | bindingElement i a b c d =>
    .bindingElement i (emptied target a) (emptiedOption target b) (emptiedOption target c) d
  | forInStatement i a b c d =>
    .forInStatement i (emptied target a) (emptied target b) (emptiedOption target c) d
  | forOfStatement i a b c d =>
    .forOfStatement i (emptied target a) (emptied target b) (emptiedOption target c) d
  | catchClause i a b => .catchClause i (emptiedOption target a) (emptiedOption target b)
  | enumDeclaration i a b c d => .enumDeclaration i (emptied target a) (emptiedAll target b) c d
  | enumMember i a b => .enumMember i (emptied target a) (emptiedOption target b)
  | moduleDeclaration i a b c =>
    .moduleDeclaration i (emptied target a) (emptiedOption target b) c
  | numericLiteral i a => .numericLiteral i a
  | bigintLiteral i a => .bigintLiteral i a
  | stringLiteral i a => .stringLiteral i a
  | templateLiteral i a => .templateLiteral i a
  | regularExpressionLiteral i a => .regularExpressionLiteral i a
  | trueKeyword i => .trueKeyword i
  | falseKeyword i => .falseKeyword i
  | nullKeyword i => .nullKeyword i
  | identifier i a => .identifier i a
  | prefixUnaryExpression i a b => .prefixUnaryExpression i a (emptied target b)
  | arrayLiteral i a => .arrayLiteral i (emptiedAll target a)
  | omittedExpression i => .omittedExpression i
  | spreadElement i a => .spreadElement i (emptied target a)
  | objectLiteral i a => .objectLiteral i (emptiedAll target a)
  | propertyAssignment i a b => .propertyAssignment i (emptied target a) (emptied target b)
  | shorthandPropertyAssignment i a => .shorthandPropertyAssignment i (emptied target a)
  | spreadAssignment i a => .spreadAssignment i (emptied target a)
  | methodDeclaration i a b =>
    .methodDeclaration i (emptied target a)
      (if i.id = target then none else emptiedOption target b)
  | computedPropertyName i a => .computedPropertyName i (emptied target a)
  | parenthesizedExpression i a => .parenthesizedExpression i (emptied target a)
  | asExpression i a b => .asExpression i (emptied target a) (emptied target b)
  | typeAssertion i a b => .typeAssertion i (emptied target a) (emptied target b)
  | satisfiesExpression i a b => .satisfiesExpression i (emptied target a) (emptied target b)
  | templateExpression i a b => .templateExpression i a (emptiedAll target b)
  | templateSpan i a b => .templateSpan i (emptied target a) b
  | literalType i a => .literalType i (emptied target a)
  | keywordType i a => .keywordType i a
  | tupleType i a => .tupleType i (emptiedAll target a)
  | arrayType i a => .arrayType i (emptied target a)
  | typeOperator i a b => .typeOperator i a (emptied target b)
  | typeReference i a b => .typeReference i (emptied target a) (emptiedAll target b)
  | typeLiteral i a => .typeLiteral i (emptiedAll target a)
  | unionType i a => .unionType i (emptiedAll target a)
  | unknown i a b => .unknown i a (emptiedAll target b)
  | unknownType i a => .unknownType i a

/-- The trees of a list with nothing left inside the function `target`. -/
def emptiedAll (target : NodeId) : List Node → List Node
  | [] => []
  | n :: ns => emptied target n :: emptiedAll target ns

/-- The tree, if there is one, with nothing left inside the function `target`. -/
def emptiedOption (target : NodeId) : Option Node → Option Node
  | none => none
  | some n => some (emptied target n)

end

/-! ## What stays as it is -/

/-- Nodes are emptied one by one. -/
@[simp]
theorem emptied_all_eq (target : NodeId) (ns : List Node) :
    emptiedAll target ns = ns.map (emptied target) := by
  induction ns with
  | nil => rfl
  | cons n ns ih => rw [emptiedAll, ih, List.map_cons]

/-- A node that may be missing is emptied if it is there. -/
@[simp]
theorem emptied_option_eq (target : NodeId) (n : Option Node) :
    emptiedOption target n = n.map (emptied target) := by
  cases n <;> rfl

/-- An emptied node stays where it is. -/
@[simp]
theorem id_emptied (target : NodeId) (n : Node) : (n.emptied target).id = n.id := by
  cases n <;> rfl

/-- An emptied node is an identifier if it was one, with the same text. -/
@[simp]
theorem identifier_emptied (target : NodeId) (n : Node) :
    (n.emptied target).identifier? = n.identifier? := by
  cases n <;> rfl

/-- Emptying leaves declarations declarations. -/
@[simp]
theorem is_variable_declaration_emptied (target : NodeId) (n : Node) :
    (n.emptied target).isVariableDeclaration = n.isVariableDeclaration := by
  cases n <;> rfl

/-- Every node but the function keeps its children. -/
theorem children_emptied {target : NodeId} {n : Node}
    (h : n.isFunction = true → n.id ≠ target) :
    (n.emptied target).children = n.children.map (emptied target) := by
  rw [children_eq, children_eq]
  cases n with
  | functionDeclaration i name parameters body exported
  | functionExpression i name parameters body =>
      have hne : i.id ≠ target := h rfl
      cases name <;> cases body <;> simp [emptied, fields, Field.contents, hne]
  | methodDeclaration i name body =>
      have hne : i.id ≠ target := h rfl
      cases body <;> simp [emptied, fields, Field.contents, hne]
  | variableDeclaration i a b c | parameter i a b c | bindingElement i a b c d =>
      cases b <;> cases c <;> simp [emptied, fields, Field.contents]
  | propertySignature i a b | enumMember i a b | moduleDeclaration i a b c =>
      cases b <;> simp [emptied, fields, Field.contents]
  | forInStatement i a b c d | forOfStatement i a b c d =>
      cases c <;> simp [emptied, fields, Field.contents]
  | catchClause i a b => cases a <;> cases b <;> simp [emptied, fields, Field.contents]
  | classDeclaration i a b => cases a <;> simp [emptied, fields, Field.contents]
  | _ => simp [emptied, fields, Field.contents]

/-- The function keeps the children that are not inside of it. -/
theorem children_emptied_function {n : Node} (h : n.isFunction = true) :
    ∃ outer, n.children = outer ++ n.inner ∧
      (n.emptied n.id).children = outer.map (emptied n.id) := by
  cases n with
  | functionDeclaration i name parameters body exported
  | functionExpression i name parameters body =>
      refine ⟨name.toList, by simp [children_eq, fields, Field.contents, inner], ?_⟩
      cases name <;> simp [children_eq, emptied, fields, Field.contents, Node.id, Node.info]
  | methodDeclaration i name body =>
      refine ⟨[name], by simp [children_eq, fields, Field.contents, inner], ?_⟩
      simp [children_eq, emptied, fields, Field.contents, Node.id, Node.info]
  | _ => simp [isFunction] at h

/-- No node gets new children. -/
theorem children_emptied_sublist (target : NodeId) (n : Node) :
    (n.emptied target).children.Sublist (n.children.map (emptied target)) := by
  by_cases h : n.isFunction = true ∧ n.id = target
  · obtain ⟨hfunction, rfl⟩ := h
    obtain ⟨outer, hchildren, hemptied⟩ := children_emptied_function hfunction
    rw [hchildren, hemptied, List.map_append]
    exact List.sublist_append_left _ _
  · rw [children_emptied fun hfunction hid => h ⟨hfunction, hid⟩]

/-! ## Heights -/

/-- The highest tree of two lists is that of one of them. -/
@[simp]
theorem height_of_all_append (ns ms : List Node) :
    heightOfAll (ns ++ ms) = max (heightOfAll ns) (heightOfAll ms) := by
  induction ns with
  | nil => simp [heightOfAll]
  | cons n ns ih => simp [heightOfAll, ih, Nat.max_assoc]

/-- The trees of a list are as high as the highest of a longer list at most. -/
theorem height_of_all_le {ns ms : List Node} (h : ns ⊆ ms) : heightOfAll ns ≤ heightOfAll ms := by
  induction ns with
  | nil => exact Nat.zero_le _
  | cons n ns ih =>
      obtain ⟨hn, hns⟩ := List.cons_subset.mp h
      exact Nat.max_le.mpr ⟨height_le_height_of_all hn, ih hns⟩

/-- A tree has one level more than the highest of its children. -/
theorem height_eq (n : Node) : n.height = heightOfAll n.children + 1 := by
  have hoption : ∀ m : Option Node, heightOfAll m.toList = heightOfOption m := by
    intro m
    cases m <;> simp [heightOfAll, heightOfOption]
  rw [children_eq]
  cases n <;> simp [height, fields, Field.contents, heightOfAll, hoption]

/-- An emptied tree is not higher. -/
theorem height_emptied_le (target : NodeId) (n : Node) : (n.emptied target).height ≤ n.height := by
  induction n using children_induction with
  | step n ih =>
      rw [height_eq, height_eq n, Nat.add_le_add_iff_right]
      refine Nat.le_trans (height_of_all_le (children_emptied_sublist target n).subset) ?_
      generalize n.children = children at ih
      induction children with
      | nil => exact Nat.le_refl _
      | cons c cs ihcs =>
          have hc := ih c (by simp)
          have hcs := ihcs fun c hc => ih c (List.mem_cons_of_mem _ hc)
          simp only [List.map_cons, heightOfAll]
          omega

/-- Emptied trees are not higher. -/
theorem height_of_all_emptied_le (target : NodeId) (ns : List Node) :
    heightOfAll (ns.map (emptied target)) ≤ heightOfAll ns := by
  induction ns with
  | nil => exact Nat.le_refl _
  | cons n ns ih =>
      have hn := height_emptied_le target n
      simp only [List.map_cons, heightOfAll]
      omega

/-! ## What is gone -/

/-- The identities in an emptied tree are those of parts. -/
theorem exists_part_of_mem_emptied {target : NodeId} {n m : Node}
    (h : m ∈ (n.emptied target).parts) : ∃ part ∈ n.parts, m.id = part.id := by
  induction n using children_induction generalizing m with
  | step n ih =>
      rw [parts_eq] at h
      rcases List.mem_cons.mp h with rfl | h
      · exact ⟨n, mem_parts_self n, id_emptied target n⟩
      · obtain ⟨c, hc, hm⟩ := List.mem_flatMap.mp h
        obtain ⟨child, hchild, rfl⟩ :=
          List.mem_map.mp ((children_emptied_sublist target n).subset hc)
        obtain ⟨part, hpart, hid⟩ := ih child hchild hm
        exact ⟨part, parts_subset_of_mem_children hchild hpart, hid⟩

/-- No identity in an emptied tree is that of something inside the function. -/
theorem not_inner_of_mem_emptied {n f m inside : Node} (hlaid : Laid n) (hf : f ∈ n.parts)
    (hfunction : f.isFunction = true) (hm : m ∈ (n.emptied f.id).parts)
    (hinside : inside ∈ f.inner) : ¬ inside.id.Encloses m.id := by
  -- A child that stands apart from what is inside holds no part of it.
  have hapart : ∀ c : Node, Laid c → Apart inside c → m ∈ (c.emptied f.id).parts →
      ¬ inside.id.Encloses m.id := by
    intro c hc happart hm henc
    obtain ⟨part, hpart, hid⟩ := exists_part_of_mem_emptied hm
    rcases henc.total (hid ▸ hc.encloses hpart) with h | h
    · exact happart.1 h
    · exact happart.2 h
  induction hlaid with
  | @mk n below fields apart ih =>
      by_cases heq : f = n
      · subst heq
        obtain ⟨outer, hchildren, hemptied⟩ := children_emptied_function hfunction
        have hchild : inside ∈ f.children := inner_subset_children f hinside
        rw [parts_eq, hemptied] at hm
        rcases List.mem_cons.mp hm with rfl | hm
        · intro henc
          obtain ⟨k, hk⟩ := fields inside hchild
          rw [id_emptied] at henc
          exact NodeId.not_field_encloses _ _ (hk.trans henc)
        · obtain ⟨_, hc, hm⟩ := List.mem_flatMap.mp hm
          obtain ⟨c, hmem, rfl⟩ := List.mem_map.mp hc
          rw [hchildren] at apart
          have houter := (List.pairwise_append.mp apart).2.2 c hmem inside hinside
          exact hapart c (below c (by simp [hchildren, hmem])) (symm houter) hm
      · rw [parts_eq] at hf
        obtain ⟨d, hd, hfd⟩ :=
          List.mem_flatMap.mp ((List.mem_cons.mp hf).resolve_left heq)
        have hdinside : d.id.Encloses inside.id := ((below d hd).encloses hfd).trans
          (((below d hd).of_mem_parts hfd).encloses
            (parts_subset_of_mem_children (inner_subset_children f hinside) (mem_parts_self _)))
        rw [parts_eq] at hm
        rcases List.mem_cons.mp hm with rfl | hm
        · intro henc
          obtain ⟨k, hk⟩ := fields d hd
          rw [id_emptied] at henc
          exact NodeId.not_field_encloses _ _ (hk.trans (hdinside.trans henc))
        · obtain ⟨_, hc, hm⟩ := List.mem_flatMap.mp hm
          obtain ⟨c, hmem, rfl⟩ := List.mem_map.mp ((children_emptied_sublist _ n).subset hc)
          by_cases hcd : c = d
          · exact ih d hd hfd (hcd ▸ hm)
          · have happart := apart.forall hd hmem (Ne.symm hcd)
            refine hapart c (below c hmem) ⟨fun h => happart.1 (hdinside.trans h), fun h => ?_⟩ hm
            rcases h.total hdinside with h | h
            · exact happart.2 h
            · exact happart.1 h

/-! ## Places -/

mutual

/-- A tree that was placed and emptied stands in its place. -/
theorem place_emptied_place (target : NodeId) (file : Text) (way : List Nat) : ∀ n : Node,
    place file way (emptied target (place file way n)) = emptied target (place file way n) := by
  intro n
  by_cases h : (⟨file, way⟩ : NodeId) = target <;>
    cases n <;> simp [place, emptied, Info.placed, h, place_emptied_place,
      place_all_emptied_place, place_option_emptied_place, placeAll, placeOption]

/-- Trees that were placed and emptied stand in their places. -/
theorem place_all_emptied_place (target : NodeId) (file : Text) (way : List Nat) (k : Nat) :
    ∀ ns : List Node, placeAll file way k ((placeAll file way k ns).map (emptied target)) =
      (placeAll file way k ns).map (emptied target)
  | [] => rfl
  | n :: ns => by
      simp only [placeAll, List.map_cons, place_emptied_place target file (k :: way) n,
        place_all_emptied_place target file way (k + 1) ns]

/-- A tree that may be missing, placed and emptied stands in its place. -/
theorem place_option_emptied_place (target : NodeId) (file : Text) (way : List Nat) :
    ∀ n : Option Node, placeOption file way ((placeOption file way n).map (emptied target)) =
      (placeOption file way n).map (emptied target)
  | none => rfl
  | some n => by simp only [placeOption, Option.map_some, place_emptied_place target file way n]

end

end Node

end StaticLiteral
