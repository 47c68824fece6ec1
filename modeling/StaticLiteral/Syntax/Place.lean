import StaticLiteral.Syntax.Node

/-!
# Places in a tree

`Node.place` gives every node of a tree its identity: the file of the tree and the way from the
root. The identity of a node depends on nothing but its file and its ancestors, so the order in
which files join a program does not show in it.
-/

namespace StaticLiteral

/-- The same span at another place. -/
def Info.placed (i : Info) (file : Text) (way : List Nat) : Info := { i with id := ⟨file, way⟩ }

namespace Node

mutual

/-- The tree with every node placed, its root at the end of `way`. -/
def place (file : Text) (way : List Nat) : Node → Node
  | sourceFile i a b => .sourceFile (i.placed file way) a (placeAll file (0 :: way) 0 b)
  | expressionStatement i a => .expressionStatement (i.placed file way) (place file (0 :: way) a)
  | variableStatement i a b c d =>
    .variableStatement (i.placed file way) a (placeAll file (0 :: way) 0 b) c d
  | variableDeclaration i a b c =>
    .variableDeclaration (i.placed file way) (place file (0 :: way) a)
      (placeOption file (1 :: way) b) (placeOption file (2 :: way) c)
  | importDeclaration i a b =>
    .importDeclaration (i.placed file way) a (placeAll file (0 :: way) 0 b)
  | importSpecifier i a b c => .importSpecifier (i.placed file way) (place file (0 :: way) a) b c
  | exportDeclaration i a b c =>
    .exportDeclaration (i.placed file way) (placeAll file (0 :: way) 0 a) b c
  | exportSpecifier i a b => .exportSpecifier (i.placed file way) a b
  | exportAssignment i a => .exportAssignment (i.placed file way) (place file (0 :: way) a)
  | functionDeclaration i a b c d =>
    .functionDeclaration (i.placed file way) (placeOption file (0 :: way) a)
      (placeAll file (1 :: way) 0 b) (placeOption file (2 :: way) c) d
  | functionExpression i a b c =>
    .functionExpression (i.placed file way) (placeOption file (0 :: way) a)
      (placeAll file (1 :: way) 0 b) (placeOption file (2 :: way) c)
  | parameter i a b c =>
    .parameter (i.placed file way) (place file (0 :: way) a) (placeOption file (1 :: way) b)
      (placeOption file (2 :: way) c)
  | block i a => .block (i.placed file way) (placeAll file (0 :: way) 0 a)
  | classDeclaration i a b =>
    .classDeclaration (i.placed file way) (placeOption file (0 :: way) a) b
  | typeAliasDeclaration i a b c =>
    .typeAliasDeclaration (i.placed file way) (place file (0 :: way) a) (place file (1 :: way) b)
      c
  | interfaceDeclaration i a b c =>
    .interfaceDeclaration (i.placed file way) (place file (0 :: way) a)
      (placeAll file (1 :: way) 0 b) c
  | propertySignature i a b =>
    .propertySignature (i.placed file way) (place file (0 :: way) a)
      (placeOption file (1 :: way) b)
  | objectBindingPattern i a =>
    .objectBindingPattern (i.placed file way) (placeAll file (0 :: way) 0 a)
  | arrayBindingPattern i a =>
    .arrayBindingPattern (i.placed file way) (placeAll file (0 :: way) 0 a)
  | bindingElement i a b c d =>
    .bindingElement (i.placed file way) (place file (0 :: way) a) (placeOption file (1 :: way) b)
      (placeOption file (2 :: way) c) d
  | forInStatement i a b c d =>
    .forInStatement (i.placed file way) (place file (0 :: way) a) (place file (1 :: way) b)
      (placeOption file (2 :: way) c) d
  | forOfStatement i a b c d =>
    .forOfStatement (i.placed file way) (place file (0 :: way) a) (place file (1 :: way) b)
      (placeOption file (2 :: way) c) d
  | catchClause i a b =>
    .catchClause (i.placed file way) (placeOption file (0 :: way) a)
      (placeOption file (1 :: way) b)
  | enumDeclaration i a b c d =>
    .enumDeclaration (i.placed file way) (place file (0 :: way) a) (placeAll file (1 :: way) 0 b)
      c d
  | enumMember i a b =>
    .enumMember (i.placed file way) (place file (0 :: way) a) (placeOption file (1 :: way) b)
  | moduleDeclaration i a b c =>
    .moduleDeclaration (i.placed file way) (place file (0 :: way) a)
      (placeOption file (1 :: way) b) c
  | numericLiteral i a => .numericLiteral (i.placed file way) a
  | bigintLiteral i a => .bigintLiteral (i.placed file way) a
  | stringLiteral i a => .stringLiteral (i.placed file way) a
  | templateLiteral i a => .templateLiteral (i.placed file way) a
  | regularExpressionLiteral i a => .regularExpressionLiteral (i.placed file way) a
  | trueKeyword i => .trueKeyword (i.placed file way)
  | falseKeyword i => .falseKeyword (i.placed file way)
  | nullKeyword i => .nullKeyword (i.placed file way)
  | identifier i a => .identifier (i.placed file way) a
  | prefixUnaryExpression i a b =>
    .prefixUnaryExpression (i.placed file way) a (place file (0 :: way) b)
  | arrayLiteral i a => .arrayLiteral (i.placed file way) (placeAll file (0 :: way) 0 a)
  | omittedExpression i => .omittedExpression (i.placed file way)
  | spreadElement i a => .spreadElement (i.placed file way) (place file (0 :: way) a)
  | objectLiteral i a => .objectLiteral (i.placed file way) (placeAll file (0 :: way) 0 a)
  | propertyAssignment i a b =>
    .propertyAssignment (i.placed file way) (place file (0 :: way) a) (place file (1 :: way) b)
  | shorthandPropertyAssignment i a =>
    .shorthandPropertyAssignment (i.placed file way) (place file (0 :: way) a)
  | spreadAssignment i a => .spreadAssignment (i.placed file way) (place file (0 :: way) a)
  | methodDeclaration i a b =>
    .methodDeclaration (i.placed file way) (place file (0 :: way) a)
      (placeOption file (1 :: way) b)
  | computedPropertyName i a =>
    .computedPropertyName (i.placed file way) (place file (0 :: way) a)
  | parenthesizedExpression i a =>
    .parenthesizedExpression (i.placed file way) (place file (0 :: way) a)
  | asExpression i a b =>
    .asExpression (i.placed file way) (place file (0 :: way) a) (place file (1 :: way) b)
  | typeAssertion i a b =>
    .typeAssertion (i.placed file way) (place file (0 :: way) a) (place file (1 :: way) b)
  | satisfiesExpression i a b =>
    .satisfiesExpression (i.placed file way) (place file (0 :: way) a) (place file (1 :: way) b)
  | templateExpression i a b =>
    .templateExpression (i.placed file way) a (placeAll file (0 :: way) 0 b)
  | templateSpan i a b => .templateSpan (i.placed file way) (place file (0 :: way) a) b
  | literalType i a => .literalType (i.placed file way) (place file (0 :: way) a)
  | keywordType i a => .keywordType (i.placed file way) a
  | tupleType i a => .tupleType (i.placed file way) (placeAll file (0 :: way) 0 a)
  | arrayType i a => .arrayType (i.placed file way) (place file (0 :: way) a)
  | typeOperator i a b => .typeOperator (i.placed file way) a (place file (0 :: way) b)
  | typeReference i a b =>
    .typeReference (i.placed file way) (place file (0 :: way) a) (placeAll file (1 :: way) 0 b)
  | typeLiteral i a => .typeLiteral (i.placed file way) (placeAll file (0 :: way) 0 a)
  | unionType i a => .unionType (i.placed file way) (placeAll file (0 :: way) 0 a)
  | unknown i a b => .unknown (i.placed file way) a (placeAll file (0 :: way) 0 b)
  | unknownType i a => .unknownType (i.placed file way) a

/-- The trees of a list, each placed under its index, the first of them `k`. -/
def placeAll (file : Text) (way : List Nat) (k : Nat) : List Node → List Node
  | [] => []
  | n :: ns => place file (k :: way) n :: placeAll file way (k + 1) ns

/-- The tree, if there is one, placed at the end of `way`. -/
def placeOption (file : Text) (way : List Nat) : Option Node → Option Node
  | none => none
  | some n => some (place file way n)

end

end Node

end StaticLiteral
