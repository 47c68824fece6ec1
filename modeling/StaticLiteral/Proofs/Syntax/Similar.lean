import Mathlib.Data.List.Forall2
import StaticLiteral.Proofs.Syntax.Parts

/-!
# Trees that look alike

Typing and resolving look at a node and at some of its children, the operands. Two nodes are similar
in a relation if they differ in nothing but their children, and their operands are related.
-/

namespace StaticLiteral.Node

/-- The node with each of its children changed. -/
def mapChildren (f : Node → Node) : Node → Node
  | sourceFile i a b => .sourceFile i a (b.map f)
  | expressionStatement i a => .expressionStatement i (f a)
  | variableStatement i a b c d => .variableStatement i a (b.map f) c d
  | variableDeclaration i a b c => .variableDeclaration i (f a) (b.map f) (c.map f)
  | importDeclaration i a b => .importDeclaration i a (b.map f)
  | importSpecifier i a b c => .importSpecifier i (f a) b c
  | exportDeclaration i a b c => .exportDeclaration i (a.map f) b c
  | exportAssignment i a => .exportAssignment i (f a)
  | functionDeclaration i a b c d => .functionDeclaration i (a.map f) (b.map f) (c.map f) d
  | functionExpression i a b c => .functionExpression i (a.map f) (b.map f) (c.map f)
  | parameter i a b c => .parameter i (f a) (b.map f) (c.map f)
  | block i a => .block i (a.map f)
  | classDeclaration i a b => .classDeclaration i (a.map f) b
  | typeAliasDeclaration i a b c => .typeAliasDeclaration i (f a) (f b) c
  | interfaceDeclaration i a b c => .interfaceDeclaration i (f a) (b.map f) c
  | propertySignature i a b => .propertySignature i (f a) (b.map f)
  | objectBindingPattern i a => .objectBindingPattern i (a.map f)
  | arrayBindingPattern i a => .arrayBindingPattern i (a.map f)
  | bindingElement i a b c d => .bindingElement i (f a) (b.map f) (c.map f) d
  | forInStatement i a b c d => .forInStatement i (f a) (f b) (c.map f) d
  | forOfStatement i a b c d => .forOfStatement i (f a) (f b) (c.map f) d
  | catchClause i a b => .catchClause i (a.map f) (b.map f)
  | enumDeclaration i a b c d => .enumDeclaration i (f a) (b.map f) c d
  | enumMember i a b => .enumMember i (f a) (b.map f)
  | moduleDeclaration i a b c => .moduleDeclaration i (f a) (b.map f) c
  | prefixUnaryExpression i a b => .prefixUnaryExpression i a (f b)
  | arrayLiteral i a => .arrayLiteral i (a.map f)
  | spreadElement i a => .spreadElement i (f a)
  | objectLiteral i a => .objectLiteral i (a.map f)
  | propertyAssignment i a b => .propertyAssignment i (f a) (f b)
  | shorthandPropertyAssignment i a => .shorthandPropertyAssignment i (f a)
  | spreadAssignment i a => .spreadAssignment i (f a)
  | methodDeclaration i a b => .methodDeclaration i (f a) (b.map f)
  | computedPropertyName i a => .computedPropertyName i (f a)
  | parenthesizedExpression i a => .parenthesizedExpression i (f a)
  | asExpression i a b => .asExpression i (f a) (f b)
  | typeAssertion i a b => .typeAssertion i (f a) (f b)
  | satisfiesExpression i a b => .satisfiesExpression i (f a) (f b)
  | templateExpression i a b => .templateExpression i a (b.map f)
  | templateSpan i a b => .templateSpan i (f a) b
  | literalType i a => .literalType i (f a)
  | tupleType i a => .tupleType i (a.map f)
  | arrayType i a => .arrayType i (f a)
  | typeOperator i a b => .typeOperator i a (f b)
  | typeReference i a b => .typeReference i (f a) (b.map f)
  | typeLiteral i a => .typeLiteral i (a.map f)
  | unionType i a => .unionType i (a.map f)
  | unknown i a b => .unknown i a (b.map f)
  | n => n

/-- The children that typing or resolving a node may go on to. -/
def operands : Node → List Node
  | variableDeclaration _ _ type init | parameter _ _ type init => type.toList ++ init.toList
  | propertySignature _ _ type => type.toList
  | typeAliasDeclaration _ _ type _ => [type]
  | prefixUnaryExpression _ _ e | spreadElement _ e | shorthandPropertyAssignment _ e
  | computedPropertyName _ e | parenthesizedExpression _ e | templateSpan _ e _ | literalType _ e
  | arrayType _ e | typeOperator _ _ e => [e]
  | arrayLiteral _ es | objectLiteral _ es | templateExpression _ _ es | tupleType _ es
  | unionType _ es => es
  | propertyAssignment _ a b | asExpression _ a b | typeAssertion _ a b
  | satisfiesExpression _ a b => [a, b]
  | typeReference _ name arguments => name :: arguments
  | _ => []

/-- Operands are children. -/
theorem operands_subset_children (n : Node) : n.operands ⊆ n.children := by
  intro c hc
  cases n <;> simp_all [operands, children_eq, fields, Field.contents]

/-- Children that are not changed leave the node as it is. -/
theorem map_children_id (n : Node) : n.mapChildren (fun c => c) = n := by
  cases n <;> simp [mapChildren]

/-- The children of a node with its children changed are the changed children. -/
theorem children_map_children (f : Node → Node) (n : Node) :
    (n.mapChildren f).children = n.children.map f := by
  rw [children_eq, children_eq]
  cases n <;> simp [mapChildren, fields, Field.contents, Option.toList_map]

/-- The nodes differ in their children at most, and the operands are related. -/
def Similar (N : Node → Node → Prop) (n m : Node) : Prop :=
  ∃ f : Node → Node, m = n.mapChildren f ∧ ∀ c ∈ n.operands, N c (f c)

namespace Similar

variable {N : Node → Node → Prop} {n m : Node}

/-- A node is similar to itself if its operands are related to themselves. -/
theorem refl (h : ∀ c ∈ n.operands, N c c) : Similar N n n :=
  ⟨fun c => c, n.map_children_id.symm, h⟩

/-- Similar nodes are called the same in messages. -/
theorem message_name_eq (h : Similar N n m) : m.messageName = n.messageName := by
  obtain ⟨f, rfl, _⟩ := h
  cases n <;> rfl

/-- A node similar to an identifier is that identifier. -/
theorem identifier_eq (h : Similar N n m) : m.identifier? = n.identifier? := by
  obtain ⟨f, rfl, _⟩ := h
  cases n <;> rfl

/-- Changed elements of a list are related to the elements. -/
theorem forall_map {f : Node → Node} {es : List Node} (h : ∀ c ∈ es, N c (f c)) :
    List.Forall₂ N es (es.map f) := by
  induction es with
  | nil => exact .nil
  | cons e es ih => exact .cons (h e (by simp)) (ih fun c hc => h c (by simp [hc]))

end Similar

end StaticLiteral.Node
