import StaticLiteral.Number.Literal
import StaticLiteral.Program.Alias
import StaticLiteral.Resolution.Model
import StaticLiteral.Semantic.Type

/-!
# Typing

As much of the types of a program as is needed to recover literals: literal types, constants and
widened variables, tuples of constant assertions, and annotations. Symbols may be defined through
each other; a symbol whose type is asked for while it is being worked out has the type `any`.
-/

namespace StaticLiteral

/-- A type of a program. -/
abbrev BoundTy := Ty SymbolId

/-- A type, or a failure to tell it. -/
abbrev TypeAnswer := Except Failure BoundTy

namespace Typing

/-- The types that keywords stand for. -/
def keywords : List (Text × BoundTy) :=
  [(Text.ofString "any", .any), (Text.ofString "unknown", .unknown),
    (Text.ofString "never", .never), (Text.ofString "string", .string),
    (Text.ofString "number", .number), (Text.ofString "bigint", .bigint),
    (Text.ofString "boolean", .boolean), (Text.ofString "null", .null),
    (Text.ofString "undefined", .undefined), (Text.ofString "void", .undefined),
    (Text.ofString "object", .object .none none)]

/-- The type of a keyword. -/
def ofKeyword (word : Text) : BoundTy := (keywords.lookup word).getD .unknown

/-- The type of a name that every file can use. -/
def ofAmbient (name : Text) : BoundTy :=
  if name = Text.ofString "undefined" then .undefined
  else if Program.ambientNames.contains name then .number
  else .unknown

/-- The type of a number literal; text that is none is still some number. -/
def ofNumeric (text : Text) : BoundTy :=
  match NumericLiteral.value? text with
  | some x => .literal (.number x)
  | none => .number

/-- The type of a bigint literal; text that is none is still some bigint. -/
def ofBigint (text : Text) : BoundTy :=
  match BigintLiteral.value text with
  | .ok n => .literal (.bigint n)
  | .error _ => .bigint

/-- Whether an expression, without parentheses around it, is asserted to be constant. -/
def isConstContext : Node → Bool
  | .parenthesizedExpression _ e => isConstContext e
  | e => e.isConstAssertion

/-- The type of `-`, `+` or `~` before an operand. A minus sign keeps a literal type if the operand
is a bigint or is itself written as a number. -/
def ofSigned (operator : Text) (operand : Node) (type : BoundTy) : BoundTy :=
  let isMinus := operator = Text.ofString "-"
  match type with
  | .literal (.bigint n) => if isMinus then .literal (.bigint (-n)) else .bigint
  | .bigint => .bigint
  | .literal (.number x) =>
    match operand with
    | .numericLiteral _ _ => if isMinus then .literal (.number x.negate) else .number
    | _ => .number
  | _ => .number

/-- Whether an operator before an operand makes a number. -/
def isSign (operator : Text) : Bool :=
  ["-", "+", "~"].any (operator == Text.ofString ·)

/-- The elements that a spread of a type adds to an array. -/
def spread : BoundTy → List BoundTy
  | .reference .tuple elements _ => elements
  | .reference _ arguments _ => [.unionOf arguments]
  | _ => [.unknown]

/-- The type of an array with elements of these types: a tuple if it is constant. -/
def ofArray (isConst : Bool) (elements : List BoundTy) : BoundTy :=
  if isConst then .reference .tuple elements true
  else .reference .array [.unionOf (elements.map Ty.widened)] false

/-- The generic types that need no declaration. -/
def ofBuiltin (name : Text) (arguments : List BoundTy) : BoundTy :=
  if name = Text.ofString "Array" then .reference .array [arguments.head?.getD .unknown] false
  else if name = Text.ofString "ReadonlyArray" then
    .reference .readonlyArray [arguments.head?.getD .unknown] true
  else if name = Text.ofString "Readonly" then
    match arguments with
    | type :: _ => type.asReadonly
    | [] => .unknown
  else .unknown

/-- Whether what stands in a literal type is a literal. -/
def isTypeLiteral : Node → Bool
  | .prefixUnaryExpression _ _ (.numericLiteral ..)
  | .prefixUnaryExpression _ _ (.bigintLiteral ..) => true
  | .prefixUnaryExpression .. | .identifier .. | .objectLiteral .. | .arrayLiteral .. => false
  | _ => true

/-! A question about types is asked with the symbols being worked out around it; `guarded` says
whether these are cut off. -/

variable (p : Program) (guarded : Bool)

mutual

/-- The type of a symbol. -/
def ofSymbol : Nat → List SymbolId → BoundSymbol → TypeAnswer
  | 0, _, _ => .error .tooDeep
  | depth + 1, busy, symbol =>
    if guarded ∧ symbol.id ∈ busy then .ok .any
    else
      let busy := symbol.id :: busy
      match symbol.kind, symbol.declaration with
      | .blockScopedVariable, none | .functionScopedVariable, none => .ok (ofAmbient symbol.name)
      | .blockScopedVariable, some declaration | .functionScopedVariable, some declaration =>
        ofVariable depth busy symbol.isConst declaration
      | .property, some declaration => ofProperty depth busy symbol declaration
      | .aliasOf _, _ =>
        let target := p.aliasEnd symbol
        if target.kind.isAlias ∨ target.kind = .unknown then .ok .unknown
        else ofSymbol depth busy target
      | .function, _ | .enum, _ | .namespaceBlock, _ => .ok (.object .anonymous symbol)
      | .classDefinition, _ => .ok (.object .classDefinition symbol)
      | _, _ => .ok .unknown

/-- The type of a variable: its annotation, or else what its initial value tells. The names in a
pattern are not followed. -/
def ofVariable : Nat → List SymbolId → Bool → Node → TypeAnswer
  | 0, _, _, _ => .error .tooDeep
  | depth + 1, busy, isConst, declaration =>
    match declaration with
    | .variableDeclaration _ _ (some type) _ | .parameter _ _ (some type) _ =>
      ofTypeNode depth busy type
    | .variableDeclaration _ _ none none | .parameter _ _ none none => .ok .any
    | .variableDeclaration _ _ none (some init) | .parameter _ _ none (some init) => do
      let type ← ofExpression depth busy false init
      return if isConst || isConstContext init then type else type.widened
    | .bindingElement .. => .ok .any
    | expression => ofExpression depth busy false expression

/-- The type of a property of an object or a type. -/
def ofProperty : Nat → List SymbolId → BoundSymbol → Node → TypeAnswer
  | 0, _, _, _ => .error .tooDeep
  | depth + 1, busy, symbol, declaration =>
    match declaration with
    | .propertyAssignment _ _ init => do
      let type ← ofExpression depth busy false init
      return if isConstContext init then type else type.widened
    | .shorthandPropertyAssignment _ name =>
      match name.identifier?.bind fun text => p.lookup? .value text name with
      | some target => ofSymbol depth busy target
      | none => .ok .unknown
    | .propertySignature _ _ (some type) => ofTypeNode depth busy type
    | .propertySignature _ _ none => .ok .any
    | .methodDeclaration .. => .ok (.object .anonymous symbol)
    | _ => .ok .unknown

/-- The type of an expression, asserted to be constant or not. -/
def ofExpression : Nat → List SymbolId → Bool → Node → TypeAnswer
  | 0, _, _, _ => .error .tooDeep
  | depth + 1, busy, isConst, node =>
    match node with
    | .parenthesizedExpression _ e | .satisfiesExpression _ e _ => ofExpression depth busy isConst e
    | .asExpression _ e type | .typeAssertion _ type e =>
      if node.isConstAssertion then ofExpression depth busy true e else ofTypeNode depth busy type
    | .numericLiteral _ text => .ok (ofNumeric text)
    | .bigintLiteral _ text => .ok (ofBigint text)
    | .stringLiteral _ text | .templateLiteral _ text => .ok (.literal (.text text))
    | .templateExpression .. => .ok .string
    | .trueKeyword _ => .ok (.literal (.boolean true))
    | .falseKeyword _ => .ok (.literal (.boolean false))
    | .nullKeyword _ => .ok .null
    | .regularExpressionLiteral .. => .ok (.object .interface none)
    | .prefixUnaryExpression _ operator operand =>
      if operator = Text.ofString "!" then .ok .boolean
      else if isSign operator then
        ofSigned operator operand <$> ofExpression depth busy false operand
      else .ok .unknown
    | .arrayLiteral _ elements =>
      (ofArray isConst ·.flatten) <$> elements.mapM (ofElement depth busy isConst)
    | .objectLiteral .. => .ok (.object .anonymous (p.literalSymbol? node))
    | .functionExpression .. => .ok (.object .anonymous none)
    | .identifier .. =>
      match p.symbolAt? node with
      | some symbol => ofSymbol depth busy symbol
      | none => .ok .unknown
    | _ => .ok .unknown

/-- The types that an element adds to an array. -/
def ofElement : Nat → List SymbolId → Bool → Node → Except Failure (List BoundTy)
  | 0, _, _, _ => .error .tooDeep
  | depth + 1, busy, isConst, element =>
    match element with
    | .omittedExpression _ => .ok [.undefined]
    | .spreadElement _ e => spread <$> ofExpression depth busy isConst e
    | e => (fun type => [type]) <$> ofExpression depth busy isConst e

/-- The type that an annotation means. -/
def ofTypeNode : Nat → List SymbolId → Node → TypeAnswer
  | 0, _, _ => .error .tooDeep
  | depth + 1, busy, node =>
    match node with
    | .literalType _ literal =>
      if literal.identifier? = some (Text.ofString "undefined") then .ok .undefined
      else if isTypeLiteral literal then ofExpression depth busy false literal
      else .ok .unknown
    | .keywordType _ word => .ok (ofKeyword word)
    | .tupleType _ elements =>
      (.reference .tuple · false) <$> elements.mapM (ofTypeNode depth busy)
    | .arrayType _ element => (.reference .array [·] false) <$> ofTypeNode depth busy element
    | .typeOperator _ operator type =>
      if operator = Text.ofString "readonly" then Ty.asReadonly <$> ofTypeNode depth busy type
      else .ok .unknown
    | .typeReference _ name arguments => do
      let arguments ← arguments.mapM (ofTypeNode depth busy)
      match name.identifier?.bind fun text => p.lookup? .type text name with
      | some symbol => ofNamedType depth busy (p.aliasEnd symbol)
      | none => return ofBuiltin (name.identifier?.getD []) arguments
    | .typeLiteral .. => .ok (.object .anonymous (p.literalSymbol? node))
    | .unionType _ types => Ty.unionOf <$> types.mapM (ofTypeNode depth busy)
    | _ => .ok .unknown

/-- The type that a symbol names. -/
def ofNamedType : Nat → List SymbolId → BoundSymbol → TypeAnswer
  | 0, _, _ => .error .tooDeep
  | depth + 1, busy, symbol =>
    match symbol.kind with
    | .typeAlias =>
      if guarded ∧ symbol.id ∈ busy then .ok .any
      else
        match symbol.declaration with
        | some (.typeAliasDeclaration _ _ type _) => ofTypeNode depth (symbol.id :: busy) type
        | _ => .ok .unknown
    | .interface => .ok (.object .interface symbol)
    | .classDefinition => .ok (.object .classDefinition symbol)
    | _ => .ok .unknown

end

/-- How deep a question about a type may go. -/
def depthLimit : Nat := 1000

/-- What a type tells the resolver. -/
def view : BoundTy → TypeView SymbolId
  | .literal (.text t) => .text t
  | .literal (.number x) => .number x
  | .reference .. => .reference
  | .object _ (some symbol) => .object symbol
  | _ => .other

/-- The arguments of a generic type. -/
def arguments : BoundTy → List BoundTy
  | .reference _ arguments _ => arguments
  | _ => []

end Typing

namespace Program

/-- The type of a symbol. -/
def typeOf (p : Program) (symbol : BoundSymbol) : TypeAnswer :=
  Typing.ofSymbol p true Typing.depthLimit [] symbol

/-- The type of an expression. -/
def typeOfExpression (p : Program) (node : Node) : TypeAnswer :=
  Typing.ofExpression p true Typing.depthLimit [] false node

/-- The type that an annotation means. -/
def typeOfAnnotation (p : Program) (node : Node) : TypeAnswer :=
  Typing.ofTypeNode p true Typing.depthLimit [] node

/-- The program as a resolver sees it whose questions about types go at most `depth` deep. Neither
it nor the resolver cuts cycles off if it is not `guarded`. -/
def modelWithin (p : Program) (depth : Nat) (guarded : Bool := true) :
    SemanticModel SymbolId BoundTy where
  symbolAt node := .ok (p.symbolAt? node)
  aliased symbol := .ok (p.aliased symbol)
  typeOf := Typing.ofSymbol p guarded depth []
  view := Typing.view
  arguments := Typing.arguments
  characterNames := p.config.characterNames
  guarded := guarded

/-- The program as the resolver sees it. -/
def model (p : Program) : SemanticModel SymbolId BoundTy := p.modelWithin Typing.depthLimit

end Program

end StaticLiteral
