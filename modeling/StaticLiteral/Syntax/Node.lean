import StaticLiteral.Text

/-!
# Syntax trees

The lowered syntax of a source file: one kind of node for each construct that the binder, the type
checker or the resolver tells apart, and `unknown` nodes for everything else. A node knows where
in the source it was written and where in its tree it stands; the latter is its identity.
-/

namespace StaticLiteral

/-- The part of a source that a node was written in: lines from 1, columns in bytes from 0. -/
structure Span where
  startLine : Nat
  startColumn : Nat
  endLine : Nat
  endColumn : Nat
  deriving DecidableEq

/-- The identity of a node: its file and the way to it from the root, the last step first. A step
into a field is the number of the field; a step into a list of nodes is followed by an index. -/
structure NodeId where
  file : Text
  place : List Nat
  deriving DecidableEq

/-- What every node carries. -/
structure Info where
  span : Option Span := none
  id : NodeId := ⟨[], []⟩
  deriving DecidableEq

/-- The keyword that introduces variables. -/
inductive DeclarationKind where
  | const
  | let
  | var
  | other (word : Text)
  deriving DecidableEq

namespace DeclarationKind

/-- The kind of a keyword. -/
def ofText (t : Text) : DeclarationKind :=
  if t = Text.ofString "const" then .const
  else if t = Text.ofString "let" then .let
  else if t = Text.ofString "var" then .var
  else .other t

/-- The keyword as written. -/
def toText : DeclarationKind → Text
  | .const => Text.ofString "const"
  | .let => Text.ofString "let"
  | .var => Text.ofString "var"
  | .other t => t

end DeclarationKind

/-- A node of a syntax tree. -/
inductive Node where
  | sourceFile (info : Info) (fileName : Text) (statements : List Node)
  | expressionStatement (info : Info) (expression : Node)
  | variableStatement (info : Info) (kind : DeclarationKind) (declarations : List Node)
      (exported ambient : Bool)
  | variableDeclaration (info : Info) (name : Node) (type initializer : Option Node)
  | importDeclaration (info : Info) (module : Text) (specifiers : List Node)
  | importSpecifier (info : Info) (name : Node) (propertyName : Option Text) (isNamespace : Bool)
  | exportDeclaration (info : Info) (specifiers : List Node) (module : Option Text) (isStar : Bool)
  | exportSpecifier (info : Info) (name propertyName : Text)
  | exportAssignment (info : Info) (expression : Node)
  | functionDeclaration (info : Info) (name : Option Node) (parameters : List Node)
      (body : Option Node) (exported : Bool)
  | functionExpression (info : Info) (name : Option Node) (parameters : List Node)
      (body : Option Node)
  | parameter (info : Info) (name : Node) (type initializer : Option Node)
  | block (info : Info) (statements : List Node)
  | classDeclaration (info : Info) (name : Option Node) (exported : Bool)
  | typeAliasDeclaration (info : Info) (name type : Node) (exported : Bool)
  | interfaceDeclaration (info : Info) (name : Node) (members : List Node) (exported : Bool)
  | propertySignature (info : Info) (name : Node) (type : Option Node)
  | objectBindingPattern (info : Info) (elements : List Node)
  | arrayBindingPattern (info : Info) (elements : List Node)
  | bindingElement (info : Info) (name : Node) (propertyName initializer : Option Node)
      (isRest : Bool)
  | forInStatement (info : Info) (initializer expression : Node) (statement : Option Node)
      (kind : Option DeclarationKind)
  | forOfStatement (info : Info) (initializer expression : Node) (statement : Option Node)
      (kind : Option DeclarationKind)
  | catchClause (info : Info) (declaration block : Option Node)
  | enumDeclaration (info : Info) (name : Node) (members : List Node) (isConst exported : Bool)
  | enumMember (info : Info) (name : Node) (initializer : Option Node)
  | moduleDeclaration (info : Info) (name : Node) (body : Option Node) (exported : Bool)
  | numericLiteral (info : Info) (text : Text)
  | bigintLiteral (info : Info) (text : Text)
  | stringLiteral (info : Info) (text : Text)
  | templateLiteral (info : Info) (text : Text)
  | regularExpressionLiteral (info : Info) (text : Text)
  | trueKeyword (info : Info)
  | falseKeyword (info : Info)
  | nullKeyword (info : Info)
  | identifier (info : Info) (text : Text)
  | prefixUnaryExpression (info : Info) (operator : Text) (operand : Node)
  | arrayLiteral (info : Info) (elements : List Node)
  | omittedExpression (info : Info)
  | spreadElement (info : Info) (expression : Node)
  | objectLiteral (info : Info) (properties : List Node)
  | propertyAssignment (info : Info) (name initializer : Node)
  | shorthandPropertyAssignment (info : Info) (name : Node)
  | spreadAssignment (info : Info) (expression : Node)
  | methodDeclaration (info : Info) (name : Node) (body : Option Node)
  | computedPropertyName (info : Info) (expression : Node)
  | parenthesizedExpression (info : Info) (expression : Node)
  | asExpression (info : Info) (expression type : Node)
  | typeAssertion (info : Info) (type expression : Node)
  | satisfiesExpression (info : Info) (expression type : Node)
  | templateExpression (info : Info) (head : Text) (spans : List Node)
  | templateSpan (info : Info) (expression : Node) (literal : Text)
  | literalType (info : Info) (literal : Node)
  | keywordType (info : Info) (keyword : Text)
  | tupleType (info : Info) (elements : List Node)
  | arrayType (info : Info) (element : Node)
  | typeOperator (info : Info) (operator : Text) (type : Node)
  | typeReference (info : Info) (name : Node) (arguments : List Node)
  | typeLiteral (info : Info) (members : List Node)
  | unionType (info : Info) (types : List Node)
  | unknown (info : Info) (sourceType : Text) (children : List Node)
  | unknownType (info : Info) (sourceType : Text)

namespace Node

/-- What the node carries. -/
def info : Node → Info
  | sourceFile i _ _ | expressionStatement i _ | variableStatement i _ _ _ _
  | variableDeclaration i _ _ _ | importDeclaration i _ _ | importSpecifier i _ _ _
  | exportDeclaration i _ _ _ | exportSpecifier i _ _ | exportAssignment i _
  | functionDeclaration i _ _ _ _ | functionExpression i _ _ _ | parameter i _ _ _ | block i _
  | classDeclaration i _ _ | typeAliasDeclaration i _ _ _ | interfaceDeclaration i _ _ _
  | propertySignature i _ _ | objectBindingPattern i _ | arrayBindingPattern i _
  | bindingElement i _ _ _ _ | forInStatement i _ _ _ _ | forOfStatement i _ _ _ _
  | catchClause i _ _ | enumDeclaration i _ _ _ _ | enumMember i _ _ | moduleDeclaration i _ _ _
  | numericLiteral i _ | bigintLiteral i _ | stringLiteral i _ | templateLiteral i _
  | regularExpressionLiteral i _ | trueKeyword i | falseKeyword i | nullKeyword i | identifier i _
  | prefixUnaryExpression i _ _ | arrayLiteral i _ | omittedExpression i | spreadElement i _
  | objectLiteral i _ | propertyAssignment i _ _ | shorthandPropertyAssignment i _
  | spreadAssignment i _ | methodDeclaration i _ _ | computedPropertyName i _
  | parenthesizedExpression i _ | asExpression i _ _ | typeAssertion i _ _
  | satisfiesExpression i _ _ | templateExpression i _ _ | templateSpan i _ _ | literalType i _
  | keywordType i _ | tupleType i _ | arrayType i _ | typeOperator i _ _ | typeReference i _ _
  | typeLiteral i _ | unionType i _ | unknown i _ _ | unknownType i _ => i

/-- The identity of the node. -/
def id (n : Node) : NodeId := n.info.id

/-- Where the node was written. -/
def span (n : Node) : Option Span := n.info.span

/-- The name of the node's kind. -/
def kindName : Node → String
  | sourceFile .. => "SourceFile"
  | expressionStatement .. => "ExpressionStatement"
  | variableStatement .. => "VariableStatement"
  | variableDeclaration .. => "VariableDeclaration"
  | importDeclaration .. => "ImportDeclaration"
  | importSpecifier .. => "ImportSpecifier"
  | exportDeclaration .. => "ExportDeclaration"
  | exportSpecifier .. => "ExportSpecifier"
  | exportAssignment .. => "ExportAssignment"
  | functionDeclaration .. => "FunctionDeclaration"
  | functionExpression .. => "FunctionExpression"
  | parameter .. => "Parameter"
  | block .. => "Block"
  | classDeclaration .. => "ClassDeclaration"
  | typeAliasDeclaration .. => "TypeAliasDeclaration"
  | interfaceDeclaration .. => "InterfaceDeclaration"
  | propertySignature .. => "PropertySignature"
  | objectBindingPattern .. => "ObjectBindingPattern"
  | arrayBindingPattern .. => "ArrayBindingPattern"
  | bindingElement .. => "BindingElement"
  | forInStatement .. => "ForInStatement"
  | forOfStatement .. => "ForOfStatement"
  | catchClause .. => "CatchClause"
  | enumDeclaration .. => "EnumDeclaration"
  | enumMember .. => "EnumMember"
  | moduleDeclaration .. => "ModuleDeclaration"
  | numericLiteral .. => "NumericLiteral"
  | bigintLiteral .. => "BigIntLiteral"
  | stringLiteral .. => "StringLiteral"
  | templateLiteral .. => "NoSubstitutionTemplateLiteral"
  | regularExpressionLiteral .. => "RegularExpressionLiteral"
  | trueKeyword .. => "TrueKeyword"
  | falseKeyword .. => "FalseKeyword"
  | nullKeyword .. => "NullKeyword"
  | identifier .. => "Identifier"
  | prefixUnaryExpression .. => "PrefixUnaryExpression"
  | arrayLiteral .. => "ArrayLiteralExpression"
  | omittedExpression .. => "OmittedExpression"
  | spreadElement .. => "SpreadElement"
  | objectLiteral .. => "ObjectLiteralExpression"
  | propertyAssignment .. => "PropertyAssignment"
  | shorthandPropertyAssignment .. => "ShorthandPropertyAssignment"
  | spreadAssignment .. => "SpreadAssignment"
  | methodDeclaration .. => "MethodDeclaration"
  | computedPropertyName .. => "ComputedPropertyName"
  | parenthesizedExpression .. => "ParenthesizedExpression"
  | asExpression .. => "AsExpression"
  | typeAssertion .. => "TypeAssertionExpression"
  | satisfiesExpression .. => "SatisfiesExpression"
  | templateExpression .. => "TemplateExpression"
  | templateSpan .. => "TemplateSpan"
  | literalType .. => "LiteralType"
  | keywordType .. => "KeywordType"
  | tupleType .. => "TupleType"
  | arrayType .. => "ArrayType"
  | typeOperator .. => "TypeOperator"
  | typeReference .. => "TypeReference"
  | typeLiteral .. => "TypeLiteral"
  | unionType .. => "UnionType"
  | unknown .. => "Unknown"
  | unknownType .. => "UnknownType"

/-- The name by which messages call the kind; two kinds have a shorter or longer one there. -/
def messageName (n : Node) : String :=
  match n with
  | typeAssertion .. => "TypeAssertion"
  | unknown .. => "UnknownNode"
  | _ => n.kindName

/-- The text of an identifier. -/
def identifier? : Node → Option Text
  | identifier _ text => some text
  | _ => none

/-- Whether the node declares a variable. -/
def isVariableDeclaration : Node → Bool
  | variableDeclaration .. => true
  | _ => false

/-- Whether the node is an assertion that its operand is constant. -/
def isConstAssertion : Node → Bool
  | asExpression _ _ (keywordType _ word) | typeAssertion _ (keywordType _ word) _ =>
    word == Text.ofString "const"
  | _ => false

end Node

end StaticLiteral
