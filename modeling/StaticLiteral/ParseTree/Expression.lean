import StaticLiteral.ParseTree.Source

/-!
# Expressions from parse trees

Literals, names, operators, aggregates, assertions and functions. Whatever is no such expression
becomes an unknown node that keeps its children.
-/

namespace StaticLiteral.MakeSyntax.Makers

variable (m : Makers)

/-- The symbols of names. -/
def isName (n : ParseTree) : Bool :=
  ["identifier", "property_identifier", "shorthand_property_identifier",
    "private_property_identifier", "type_identifier", "statement_identifier"].contains n.type

/-- A numeric literal, or a bigint literal if its text has the suffix. -/
def number (n : ParseTree) : MakeSyntax Node := do
  let t ← text n
  if t.endsWith (Text.ofString "n") then return .bigintLiteral (← info n) t
  else return .numericLiteral (← info n) t

/-- A string literal; unknown if it cannot be decoded. -/
def string (n : ParseTree) : MakeSyntax Node := do
  match ← decoded? (unquoted (← text n)) n with
  | some t => return .stringLiteral (← info n) t
  | none => return cutOff n (← info n)

/-- The substitutions of a template with the literal text after each; none as soon as a text cannot
be decoded or the head could not. -/
def templateSpans (n : ParseTree) (hasHead : Bool) : List ParseTree →
    MakeSyntax (Option (List Node))
  | [] => return some []
  | sub :: rest => do
    let stop : Int := match rest with
      | following :: _ => following.start
      | [] => (n.stop : Int) - 1
    let literal ← decoded? (← textBetween sub.stop stop) n
    match literal with
    | some literal =>
      if !hasHead then return none
      let expression ← m.expressionOrMissing sub.firstNamed?
      let span := Node.templateSpan (← info sub) expression literal
      return (← templateSpans n hasHead rest).map (span :: ·)
    | none => return none

/-- A template, with or without substitutions; unknown if a part of it cannot be decoded. -/
def template (n : ParseTree) : MakeSyntax Node := do
  let start := n.start + 1
  match n.children.filter (·.type == "template_substitution") with
  | [] =>
    match ← decoded? (← textBetween start ((n.stop : Int) - 1)) n with
    | some t => return .templateLiteral (← info n) t
    | none => return cutOff n (← info n)
  | first :: rest =>
    let head ← decoded? (← textBetween start first.start) n
    match ← m.templateSpans n head.isSome (first :: rest) with
    | some spans => return .templateExpression (← info n) (head.getD []) spans
    | none => return cutOff n (← info n)

/-- An operator in front of an operand. -/
def unary (n : ParseTree) : MakeSyntax Node := do
  match n.child? "operator", n.child? "argument" with
  | some operator, some argument =>
    return .prefixUnaryExpression (← info n) (symbol operator) (← m.expression argument)
  | _, _ => m.unknown n

/-- The elements of an array. -/
def array (n : ParseTree) : MakeSyntax Node := do
  return .arrayLiteral (← info n) (← elements m.expression true n.children)

/-- The name of a property or member. -/
def propertyName : Option ParseTree → MakeSyntax Node
  | none => return missing
  | some n =>
    if isName n then identifier n
    else if ["string", "number", "computed_property_name"].contains n.type then m.expression n
    else m.unknown n

/-- A member of an object literal. -/
def property (n : ParseTree) : MakeSyntax Node := do
  match n.type with
  | "pair" =>
    let name ← m.propertyName (n.child? "key")
    let value ← m.expressionOrMissing (n.child? "value")
    return .propertyAssignment (← info n) name value
  | "shorthand_property_identifier" =>
    return .shorthandPropertyAssignment (← info n) (← identifier n)
  | "spread_element" =>
    return .spreadAssignment (← info n) (← m.expressionOrMissing n.firstNamed?)
  | "method_definition" =>
    let name ← m.propertyName (n.child? "name")
    let body ← m.optionalBlock (n.child? "body")
    return .methodDeclaration (← info n) name body
  | _ => m.unknown n

/-- The members of an object literal. -/
def object (n : ParseTree) : MakeSyntax Node := do
  return .objectLiteral (← info n) (← n.named.mapM m.property)

/-- The type after `as`, where a constant assertion has a keyword of its own. -/
def assertedType (n : ParseTree) : MakeSyntax Node := do
  if n.hasToken "const" then return .keywordType {} (Text.ofString "const")
  else
    match n.named with
    | _ :: type :: _ => m.type type
    | _ => return missingType

/-- An assertion with `as`. -/
def asExpression (n : ParseTree) : MakeSyntax Node := do
  let expression ← m.expressionOrMissing n.firstNamed?
  let type ← m.assertedType n
  return .asExpression (← info n) expression type

/-- An expression with `satisfies`. -/
def satisfies (n : ParseTree) : MakeSyntax Node := do
  let expression ← m.expressionOrMissing n.firstNamed?
  let type ← match n.named with
    | _ :: type :: _ => m.type type
    | _ => pure missingType
  return .satisfiesExpression (← info n) expression type

/-- What surrounds the word of a constant assertion in angle brackets. -/
def isAngleOrBlank (c : CodePoint) : Bool := (Text.ofString "<> \t\n").contains c

/-- An assertion in angle brackets. -/
def typeAssertion (n : ParseTree) : MakeSyntax Node := do
  match n.named with
  | brackets :: second :: rest =>
    let type ←
      if Text.trim isAngleOrBlank (← text brackets) = Text.ofString "const" then
        pure (Node.keywordType {} (Text.ofString "const"))
      else
        match brackets.firstNamed? with
        | some inner => m.type inner
        | none => pure missingType
    let expression ← m.expression (rest.getLast?.getD second)
    return .typeAssertion (← info n) type expression
  | _ => m.unknown n

/-- The parameters of a function: a single name, or a list in which only parameters count. -/
def parameters (n : ParseTree) : MakeSyntax (List Node) := do
  match n.child? "parameter", n.child? "parameters" with
  | some single, _ =>
    let name ← m.bindingName single
    return [.parameter (← info single) name none none]
  | none, none => return []
  | none, some list =>
    (list.named.filter fun p =>
      p.type == "required_parameter" || p.type == "optional_parameter").mapM fun p => do
        let name ← m.bindingNameOrMissing (p.child? "pattern")
        let type ← m.typeAnnotation (p.child? "type")
        let initializer ← m.optionalExpression (p.child? "value")
        return .parameter (← info p) name type initializer

/-- A name if there is one. -/
def optionalIdentifier : Option ParseTree → MakeSyntax (Option Node)
  | some n => some <$> identifier n
  | none => return none

/-- A function expression or arrow function; its body may be a bare expression. -/
def functionExpression (n : ParseTree) : MakeSyntax Node := do
  let body ← match n.child? "body" with
    | some b => if b.type == "statement_block" then some <$> m.block b else some <$> m.expression b
    | none => pure none
  let name ← optionalIdentifier (n.child? "name")
  let parameters ← m.parameters n
  return .functionExpression (← info n) name parameters body

/-- The expression that a tree of any sort is. -/
def expressionOfType (n : ParseTree) : MakeSyntax Node := do
  match n.type with
  | "number" => number n
  | "string" => string n
  | "template_string" => m.template n
  | "regex" => return .regularExpressionLiteral (← info n) (← text n)
  | "true" => return .trueKeyword (← info n)
  | "false" => return .falseKeyword (← info n)
  | "null" => return .nullKeyword (← info n)
  | "undefined" => identifier n
  | "unary_expression" => m.unary n
  | "array" => m.array n
  | "object" => m.object n
  | "parenthesized_expression" =>
    return .parenthesizedExpression (← info n) (← m.expressionOrMissing n.firstNamed?)
  | "as_expression" => m.asExpression n
  | "satisfies_expression" => m.satisfies n
  | "type_assertion" => m.typeAssertion n
  | "spread_element" =>
    return .spreadElement (← info n) (← m.expressionOrMissing n.firstNamed?)
  | "computed_property_name" =>
    return .computedPropertyName (← info n) (← m.expressionOrMissing n.firstNamed?)
  | "arrow_function" | "function_expression" | "function" | "generator_function" =>
    m.functionExpression n
  | _ => if isName n then identifier n else m.unknown n

/-- An expression one level further down. -/
def makeExpression (n : ParseTree) : MakeSyntax Node :=
  guarded n (cutOff n) (m.expressionOfType n)

end StaticLiteral.MakeSyntax.Makers
