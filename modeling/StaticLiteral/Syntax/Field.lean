import StaticLiteral.Syntax.Node

/-!
# Fields of nodes

The named fields of each kind of node in their order. Addresses inside a tree, the walk over it and
its dump are all read off this view.
-/

namespace StaticLiteral

/-- The content of a field. -/
inductive Field where
  | text (t : Text)
  | optionalText (t : Option Text)
  | flag (b : Bool)
  | node (n : Node)
  | optionalNode (n : Option Node)
  | nodes (ns : List Node)

namespace Node

/-- The fields of a node with their names. -/
def fields : Node → List (String × Field)
  | sourceFile _ name ss => [("file_name", .text name), ("statements", .nodes ss)]
  | expressionStatement _ e => [("expression", .node e)]
  | variableStatement _ kind ds exported ambient =>
    [("declaration_kind", .text kind.toText), ("declarations", .nodes ds),
      ("exported", .flag exported), ("ambient", .flag ambient)]
  | variableDeclaration _ name type init =>
    [("name", .node name), ("type", .optionalNode type), ("initializer", .optionalNode init)]
  | importDeclaration _ module specifiers =>
    [("module_specifier", .text module), ("specifiers", .nodes specifiers)]
  | importSpecifier _ name propertyName isNamespace =>
    [("name", .node name), ("property_name", .optionalText propertyName),
      ("is_namespace", .flag isNamespace)]
  | exportDeclaration _ specifiers module isStar =>
    [("specifiers", .nodes specifiers), ("module_specifier", .optionalText module),
      ("is_star", .flag isStar)]
  | exportSpecifier _ name propertyName =>
    [("name", .text name), ("property_name", .text propertyName)]
  | exportAssignment _ e => [("expression", .node e)]
  | functionDeclaration _ name parameters body exported =>
    [("name", .optionalNode name), ("parameters", .nodes parameters), ("body", .optionalNode body),
      ("exported", .flag exported)]
  | functionExpression _ name parameters body =>
    [("name", .optionalNode name), ("parameters", .nodes parameters), ("body", .optionalNode body)]
  | parameter _ name type init =>
    [("name", .node name), ("type", .optionalNode type), ("initializer", .optionalNode init)]
  | block _ ss => [("statements", .nodes ss)]
  | classDeclaration _ name exported => [("name", .optionalNode name), ("exported", .flag exported)]
  | typeAliasDeclaration _ name type exported =>
    [("name", .node name), ("type", .node type), ("exported", .flag exported)]
  | interfaceDeclaration _ name members exported =>
    [("name", .node name), ("members", .nodes members), ("exported", .flag exported)]
  | propertySignature _ name type => [("name", .node name), ("type", .optionalNode type)]
  | objectBindingPattern _ es => [("elements", .nodes es)]
  | arrayBindingPattern _ es => [("elements", .nodes es)]
  | bindingElement _ name propertyName init isRest =>
    [("name", .node name), ("property_name", .optionalNode propertyName),
      ("initializer", .optionalNode init), ("is_rest", .flag isRest)]
  | forInStatement _ init e statement kind | forOfStatement _ init e statement kind =>
    [("initializer", .node init), ("expression", .node e), ("statement", .optionalNode statement),
      ("declaration_kind", .optionalText (kind.map DeclarationKind.toText))]
  | catchClause _ declaration body =>
    [("variable_declaration", .optionalNode declaration), ("block", .optionalNode body)]
  | enumDeclaration _ name members isConst exported =>
    [("name", .node name), ("members", .nodes members), ("is_const", .flag isConst),
      ("exported", .flag exported)]
  | enumMember _ name init => [("name", .node name), ("initializer", .optionalNode init)]
  | moduleDeclaration _ name body exported =>
    [("name", .node name), ("body", .optionalNode body), ("exported", .flag exported)]
  | numericLiteral _ t | bigintLiteral _ t | stringLiteral _ t | templateLiteral _ t
  | regularExpressionLiteral _ t | identifier _ t => [("text", .text t)]
  | trueKeyword _ | falseKeyword _ | nullKeyword _ | omittedExpression _ => []
  | prefixUnaryExpression _ operator operand =>
    [("operator", .text operator), ("operand", .node operand)]
  | arrayLiteral _ es => [("elements", .nodes es)]
  | spreadElement _ e | spreadAssignment _ e | computedPropertyName _ e
  | parenthesizedExpression _ e => [("expression", .node e)]
  | objectLiteral _ ps => [("properties", .nodes ps)]
  | propertyAssignment _ name init => [("name", .node name), ("initializer", .node init)]
  | shorthandPropertyAssignment _ name => [("name", .node name)]
  | methodDeclaration _ name body => [("name", .node name), ("body", .optionalNode body)]
  | asExpression _ e type | satisfiesExpression _ e type =>
    [("expression", .node e), ("type", .node type)]
  | typeAssertion _ type e => [("type", .node type), ("expression", .node e)]
  | templateExpression _ head spans => [("head", .text head), ("spans", .nodes spans)]
  | templateSpan _ e literal => [("expression", .node e), ("literal", .text literal)]
  | literalType _ literal => [("literal", .node literal)]
  | keywordType _ keyword => [("keyword", .text keyword)]
  | tupleType _ es => [("elements", .nodes es)]
  | arrayType _ element => [("element_type", .node element)]
  | typeOperator _ operator type => [("operator", .text operator), ("type", .node type)]
  | typeReference _ name arguments =>
    [("type_name", .node name), ("type_arguments", .nodes arguments)]
  | typeLiteral _ members => [("members", .nodes members)]
  | unionType _ types => [("types", .nodes types)]
  | unknown _ sourceType children =>
    [("source_type", .text sourceType), ("children", .nodes children)]
  | unknownType _ sourceType => [("source_type", .text sourceType)]

end Node

/-- The nodes in a field, each with the steps of its address inside the node. -/
def Field.nodesWithin (name : String) : Field → List (List String × Node)
  | .node n => [([name], n)]
  | .optionalNode (some n) => [([name], n)]
  | .nodes ns => ns.zipIdx.map fun (n, i) => ([name, toString i], n)
  | _ => []

namespace Node

/-- The child nodes in order, each with the steps of its address. -/
def addressedChildren (n : Node) : List (List String × Node) :=
  n.fields.flatMap fun (name, field) => field.nodesWithin name

/-- The node and all nodes below it, parents before children, each with its address. The walk goes
down at most `depth` levels. -/
def walkFrom : Nat → List String → Node → List (List String × Node)
  | 0, _, _ => []
  | depth + 1, address, n =>
    (address, n) :: n.addressedChildren.flatMap fun (steps, child) =>
      walkFrom depth (address ++ steps) child

mutual

/-- The number of levels of a tree. -/
def height : Node → Nat
  | sourceFile _ _ es | block _ es | objectBindingPattern _ es | arrayBindingPattern _ es
  | arrayLiteral _ es | objectLiteral _ es | templateExpression _ _ es | tupleType _ es
  | typeLiteral _ es | unionType _ es | unknown _ _ es | variableStatement _ _ es _ _
  | importDeclaration _ _ es | exportDeclaration _ es _ _ => heightOfAll es + 1
  | expressionStatement _ e | exportAssignment _ e | prefixUnaryExpression _ _ e
  | spreadElement _ e | shorthandPropertyAssignment _ e | spreadAssignment _ e
  | computedPropertyName _ e | parenthesizedExpression _ e | templateSpan _ e _ | literalType _ e
  | arrayType _ e | typeOperator _ _ e | importSpecifier _ e _ _ => height e + 1
  | typeAliasDeclaration _ a b _ | propertyAssignment _ a b | asExpression _ a b
  | typeAssertion _ a b | satisfiesExpression _ a b => max (height a) (height b) + 1
  | propertySignature _ a b | enumMember _ a b | moduleDeclaration _ a b _
  | methodDeclaration _ a b => max (height a) (heightOfOption b) + 1
  | interfaceDeclaration _ a es _ | enumDeclaration _ a es _ _ | typeReference _ a es =>
    max (height a) (heightOfAll es) + 1
  | variableDeclaration _ a b c | parameter _ a b c | bindingElement _ a b c _ =>
    max (height a) (max (heightOfOption b) (heightOfOption c)) + 1
  | functionDeclaration _ a es b _ | functionExpression _ a es b =>
    max (heightOfOption a) (max (heightOfAll es) (heightOfOption b)) + 1
  | forInStatement _ a b c _ | forOfStatement _ a b c _ =>
    max (height a) (max (height b) (heightOfOption c)) + 1
  | catchClause _ a b => max (heightOfOption a) (heightOfOption b) + 1
  | classDeclaration _ a _ => heightOfOption a + 1
  | exportSpecifier .. | numericLiteral .. | bigintLiteral .. | stringLiteral ..
  | templateLiteral .. | regularExpressionLiteral .. | trueKeyword .. | falseKeyword ..
  | nullKeyword .. | identifier .. | omittedExpression .. | keywordType .. | unknownType .. => 1

/-- The number of levels of the highest of some trees. -/
def heightOfAll : List Node → Nat
  | [] => 0
  | n :: ns => max (height n) (heightOfAll ns)

/-- The number of levels of a tree that may be missing. -/
def heightOfOption : Option Node → Nat
  | none => 0
  | some n => height n

end

/-- The node and all nodes below it, parents before children, each with its address. -/
def walk (n : Node) : List (List String × Node) := walkFrom n.height [] n

/-- The node at an address. -/
def nodeAt? (n : Node) (address : List String) : Option Node :=
  (n.walk.find? (·.1 == address)).map (·.2)

end Node

end StaticLiteral
