import StaticLiteral.Pattern.Literal
import StaticLiteral.Resolution.Model

/-!
# Resolving expressions

The value that a node denotes without running anything. Literals have their value, wrappers that of
what they wrap, arrays, objects and templates are put together from their parts, and a name leads
to its declaration or, through its type, to a literal type. A part of an array or object that has
no value keeps its place there; a template with such a part has no value itself.

References may be circular. A symbol that is being resolved has no value for the parts that refer
back to it. Depth is limited, and a failure anywhere leaves the whole request without a value.
-/

namespace StaticLiteral.Resolution

/-- A value or none, or a failure of the whole request. -/
abbrev Answer := Except Failure (Option Value)

/-- A number literal, if its text is one. -/
def numericLiteral (text : Text) : Option Value := (NumericLiteral.value? text).map .number

/-- A bigint literal, if its text is one. -/
def bigintLiteral (text : Text) : Option Value :=
  match BigintLiteral.value text with
  | .ok n => some (.bigint n)
  | .error _ => none

/-- A regular expression, if its text is one. -/
def regularExpression (characterNames : CharacterNames) (text : Text) : Answer :=
  match PatternSyntax.literal characterNames text with
  | .ok p => .ok (p.map .pattern)
  | .error .tooDeep => .error .nestedPattern
  | .error .invalid => .ok none
  | .error (.broken breach) => .error (.brokenPattern breach)

/-- The text of a resolved primitive; anything else has none. -/
def coerced : Option Value → Except Failure (Option Text)
  | none => .ok none
  | some v =>
    match v.coerce? with
    | .ok t => .ok t
    | .error _ => .error .tooManyDigits

/-- The value of a minus sign in front of a number. -/
def negated : Option Value → Option Value
  | some (.number x) => some (.number x.negate)
  | _ => none

/-- The entries of an object. Only assignments count; one whose key has no text is skipped with its
value, and of two under one key the later wins. -/
def objectEntries (resolve : Node → Answer) :
    List (Text × Option Value) → List Node → Except Failure (List (Text × Option Value))
  | entries, [] => .ok entries
  | entries, .propertyAssignment _ name init :: rest => do
    match ← coerced (← resolve name) with
    | none => objectEntries resolve entries rest
    | some key =>
      let value ← resolve init
      objectEntries resolve (putEntry key value entries) rest
  | entries, _ :: rest => objectEntries resolve entries rest

/-- The text of a template after its head, or none as soon as one part has no text. -/
def templateText (resolve : Node → Answer) : Text → List Node → Except Failure (Option Text)
  | text, [] => .ok (some text)
  | text, .templateSpan _ expression literal :: rest => do
    match ← coerced (← resolve expression) with
    | none => return none
    | some part => templateText resolve (text ++ part ++ literal) rest
  | text, _ :: rest => templateText resolve text rest

variable {ι τ : Type} [DecidableEq ι] (model : SemanticModel ι τ)

/-- The symbol itself, or the one a step behind it if it is an alias. -/
def followed (symbol : Symbol ι) : Except Failure (Symbol ι) :=
  if symbol.kind.isAlias then model.aliased symbol else .ok symbol

/-- What a symbol stands for: its own name, its declaration, or what its type tells. -/
def symbolValue (ofDeclaration : Node → Answer) (ofType : τ → Answer) (symbol : Symbol ι) :
    Answer :=
  match symbol.kind, symbol.declaration with
  | .property, _ => .ok (some (.text symbol.name))
  | .objectLiteral, some declaration | .blockScopedVariable, some declaration =>
    ofDeclaration declaration
  | _, _ => do ofType (← model.typeOf symbol)

mutual

/-- The value of a node; `busy` are the symbols being resolved around it. -/
def ofNode : Nat → List ι → Node → Answer
  | 0, _, _ => .error .tooDeep
  | depth + 1, busy, node =>
    match node with
    | .numericLiteral _ text => .ok (numericLiteral text)
    | .bigintLiteral _ text => .ok (bigintLiteral text)
    | .stringLiteral _ text | .templateLiteral _ text => .ok (some (.text text))
    | .regularExpressionLiteral _ text => regularExpression model.characterNames text
    | .trueKeyword _ => .ok (some (.boolean true))
    | .falseKeyword _ => .ok (some (.boolean false))
    | .prefixUnaryExpression _ operator operand =>
      if operator = Text.ofString "-" then negated <$> ofNode depth busy operand else .ok none
    | .arrayLiteral _ elements => do
      return some (.array (← elements.mapM (ofNode depth busy)))
    | .parenthesizedExpression _ e | .computedPropertyName _ e | .asExpression _ e _
    | .typeAssertion _ _ e => ofNode depth busy e
    | .variableDeclaration _ _ _ initializer =>
      match initializer with
      | some e => ofNode depth busy e
      | none => .ok none
    | .objectLiteral _ properties => do
      return some (.object (← objectEntries (ofNode depth busy) [] properties))
    | .templateExpression _ head spans => do
      return (← templateText (ofNode depth busy) head spans).map .text
    | .identifier _ text => do
      match ← model.symbolAt node with
      | none => return some (.text text)
      | some symbol => ofSymbol depth busy symbol
    | _ => .ok none

/-- The value that a symbol stands for. An alias is followed one step. -/
def ofSymbol : Nat → List ι → Symbol ι → Answer
  | 0, _, _ => .error .tooDeep
  | depth + 1, busy, symbol => do
    let symbol ← followed model symbol
    if model.guarded ∧ symbol.id ∈ busy then return none
    let busy := symbol.id :: busy
    symbolValue model (ofNode depth busy) (ofType depth busy) symbol

/-- The value that a type leaves no choice about. -/
def ofType : Nat → List ι → τ → Answer
  | 0, _, _ => .error .tooDeep
  | depth + 1, busy, type =>
    match model.view type with
    | .text t => .ok (some (.text t))
    | .number x => .ok (some (.number x))
    | .reference => do
      return some (.array (← (model.arguments type).mapM (ofType depth busy)))
    | .object symbol => ofSymbol depth busy symbol
    | .other => .ok none

end

/-- How deep a request may go. -/
def depthLimit : Nat := 1000

/-- What a request ends with: a value or none, and a warning if it failed. -/
structure Outcome where
  value : Option Value
  warning : Option Text := none

/-- Ends a request. A failure becomes a warning that names the kind of the node asked about. -/
def Outcome.ofAnswer (node : Node) : Answer → Outcome
  | .ok value => ⟨value, none⟩
  | .error failure =>
    match failure.message? with
    | none =>
      ⟨none, some (Text.ofString ("Recursion limit reached resolving " ++ node.messageName))⟩
    | some message =>
      ⟨none, some (Text.ofString ("Semantic model failed while resolving " ++ node.messageName
        ++ ": ") ++ message)⟩

/-- Resolves a node to the value that it statically denotes. Nothing escapes. -/
def resolve (node : Node) : Outcome := .ofAnswer node (ofNode model depthLimit [] node)

end StaticLiteral.Resolution
