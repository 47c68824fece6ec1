import StaticLiteral.Proofs.Session.Marks
import StaticLiteral.Proofs.Typing.Steps

/-!
# Typing with marks

The questions of `Typing` asked of a checker that keeps one set of marks for all of them. A question
that meets a mark is cut off there; a question about a symbol that is not marked marks it until it
ends. `settles_of_depth` says that each question comes out as the answer told with the marked
symbols as those being worked out, and leaves the marks as it found them, also where it fails.
-/

namespace StaticLiteral.Session

variable (p : Program)

mutual

/-- Works out the type of a symbol. -/
def typeOfSymbol : Nat → BoundSymbol → Marking BoundTy
  | 0, _ => throw .tooDeep
  | depth + 1, symbol =>
    Marking.typing symbol.id .any <|
      match symbol.kind, symbol.declaration with
      | .blockScopedVariable, none | .functionScopedVariable, none =>
        return Typing.ofAmbient symbol.name
      | .blockScopedVariable, some declaration | .functionScopedVariable, some declaration =>
        typeOfVariable depth symbol.isConst declaration
      | .property, some declaration => typeOfProperty depth symbol declaration
      | .aliasOf _, _ =>
        let target := p.aliasEnd symbol
        if target.kind.isAlias ∨ target.kind = .unknown then return .unknown
        else typeOfSymbol depth target
      | .function, _ | .enum, _ | .namespaceBlock, _ => return .object .anonymous symbol
      | .classDefinition, _ => return .object .classDefinition symbol
      | _, _ => return .unknown

/-- Works out the type of a variable. -/
def typeOfVariable : Nat → Bool → Node → Marking BoundTy
  | 0, _, _ => throw .tooDeep
  | depth + 1, isConst, declaration =>
    match declaration with
    | .variableDeclaration _ _ (some type) _ | .parameter _ _ (some type) _ =>
      typeOfTypeNode depth type
    | .variableDeclaration _ _ none none | .parameter _ _ none none => return .any
    | .variableDeclaration _ _ none (some init) | .parameter _ _ none (some init) => do
      let type ← typeOfExpression depth false init
      return if isConst || Typing.isConstContext init then type else type.widened
    | .bindingElement .. => return .any
    | expression => typeOfExpression depth false expression

/-- Works out the type of a property of an object or a type. -/
def typeOfProperty : Nat → BoundSymbol → Node → Marking BoundTy
  | 0, _, _ => throw .tooDeep
  | depth + 1, symbol, declaration =>
    match declaration with
    | .propertyAssignment _ _ init => do
      let type ← typeOfExpression depth false init
      return if Typing.isConstContext init then type else type.widened
    | .shorthandPropertyAssignment _ name =>
      match name.identifier?.bind fun text => p.lookup? .value text name with
      | some target => typeOfSymbol depth target
      | none => return .unknown
    | .propertySignature _ _ (some type) => typeOfTypeNode depth type
    | .propertySignature _ _ none => return .any
    | .methodDeclaration .. => return .object .anonymous symbol
    | _ => return .unknown

/-- Works out the type of an expression, asserted to be constant or not. -/
def typeOfExpression : Nat → Bool → Node → Marking BoundTy
  | 0, _, _ => throw .tooDeep
  | depth + 1, isConst, node =>
    match node with
    | .parenthesizedExpression _ e | .satisfiesExpression _ e _ => typeOfExpression depth isConst e
    | .asExpression _ e type | .typeAssertion _ type e =>
      if node.isConstAssertion then typeOfExpression depth true e else typeOfTypeNode depth type
    | .numericLiteral _ text => return Typing.ofNumeric text
    | .bigintLiteral _ text => return Typing.ofBigint text
    | .stringLiteral _ text | .templateLiteral _ text => return .literal (.text text)
    | .templateExpression .. => return .string
    | .trueKeyword _ => return .literal (.boolean true)
    | .falseKeyword _ => return .literal (.boolean false)
    | .nullKeyword _ => return .null
    | .regularExpressionLiteral .. => return .object .interface none
    | .prefixUnaryExpression _ operator operand =>
      if operator = Text.ofString "!" then return .boolean
      else if Typing.isSign operator then
        Typing.ofSigned operator operand <$> typeOfExpression depth false operand
      else return .unknown
    | .arrayLiteral _ elements =>
      (Typing.ofArray isConst ·.flatten) <$> elements.mapM (typesOfElement depth isConst)
    | .objectLiteral .. => return .object .anonymous (p.literalSymbol? node)
    | .functionExpression .. => return .object .anonymous none
    | .identifier .. =>
      match p.symbolAt? node with
      | some symbol => typeOfSymbol depth symbol
      | none => return .unknown
    | _ => return .unknown

/-- Works out the types that an element adds to an array. -/
def typesOfElement : Nat → Bool → Node → Marking (List BoundTy)
  | 0, _, _ => throw .tooDeep
  | depth + 1, isConst, element =>
    match element with
    | .omittedExpression _ => return [.undefined]
    | .spreadElement _ e => Typing.spread <$> typeOfExpression depth isConst e
    | e => (fun type => [type]) <$> typeOfExpression depth isConst e

/-- Works out the type that an annotation means. -/
def typeOfTypeNode : Nat → Node → Marking BoundTy
  | 0, _ => throw .tooDeep
  | depth + 1, node =>
    match node with
    | .literalType _ literal =>
      if literal.identifier? = some (Text.ofString "undefined") then return .undefined
      else if Typing.isTypeLiteral literal then typeOfExpression depth false literal
      else return .unknown
    | .keywordType _ word => return Typing.ofKeyword word
    | .tupleType _ elements =>
      (.reference .tuple · false) <$> elements.mapM (typeOfTypeNode depth)
    | .arrayType _ element => (.reference .array [·] false) <$> typeOfTypeNode depth element
    | .typeOperator _ operator type =>
      if operator = Text.ofString "readonly" then Ty.asReadonly <$> typeOfTypeNode depth type
      else return .unknown
    | .typeReference _ name arguments => do
      let arguments ← arguments.mapM (typeOfTypeNode depth)
      match name.identifier?.bind fun text => p.lookup? .type text name with
      | some symbol => typeOfNamed depth (p.aliasEnd symbol)
      | none => return Typing.ofBuiltin (name.identifier?.getD []) arguments
    | .typeLiteral .. => return .object .anonymous (p.literalSymbol? node)
    | .unionType _ types => Ty.unionOf <$> types.mapM (typeOfTypeNode depth)
    | _ => return .unknown

/-- Works out the type that a symbol names. -/
def typeOfNamed : Nat → BoundSymbol → Marking BoundTy
  | 0, _ => throw .tooDeep
  | depth + 1, symbol =>
    match symbol.kind with
    | .typeAlias =>
      Marking.typing symbol.id .any <|
        match symbol.declaration with
        | some (.typeAliasDeclaration _ _ type _) => typeOfTypeNode depth type
        | _ => return .unknown
    | .interface => return .object .interface symbol
    | .classDefinition => return .object .classDefinition symbol
    | _ => return .unknown

end

/-- The work on each question about types, going down at most so deep. -/
def answers (depth : Nat) : Typing.Answers Marking where
  symbol := typeOfSymbol p depth
  declaration := typeOfVariable p depth
  property := typeOfProperty p depth
  expression := typeOfExpression p depth
  element := typesOfElement p depth
  typeNode := typeOfTypeNode p depth
  namedType := typeOfNamed p depth

/-- Working out types takes the steps of typing, with marks on the symbols. -/
theorem answers_succ (depth : Nat) : answers p (depth + 1) =
    (answers p depth).step p
      (fun s => Marking.typing s.id .any ((answers p depth).ofSymbol p s))
      (fun s => Marking.typing s.id .any ((answers p depth).ofTypeAlias s)) := rfl

variable {p}

open Marking

/-- Work on a symbol with a mark comes out as the answer about it if it is not marked, as long as it
does with the mark put on. -/
theorem settling_typing {depth : Nat} {busy resolving : List SymbolId} {s : BoundSymbol}
    {work : Marking BoundTy}
    {question : Typing.Answers (Except Failure) → BoundSymbol → TypeAnswer}
    (h : (settling (.on (s.id :: busy) resolving)).rel Eq work
      (question (Typing.answers p true depth (s.id :: busy)) s)) :
    (settling (.on busy resolving)).rel Eq (work.typing s.id .any)
      (Typing.entered p true depth busy question s) := by
  have hsettles : Settles (.on busy resolving) (work.typing s.id .any)
      (if s.id ∈ busy then .ok .any
        else question (Typing.answers p true depth (s.id :: busy)) s) :=
    .typing fun _ => settles_iff.mpr h
  simpa only [Typing.entered, true_and] using settles_iff.mp hsettles

/-- Every question about types comes out as the answer told with the marked symbols as those being
worked out, and leaves the marks as it found them. -/
theorem settles_of_depth (depth : Nat) :
    ∀ busy resolving : List SymbolId,
      Typing.Related (settling (.on busy resolving)) Eq .all (answers p depth)
        (Typing.answers p true depth busy) := by
  induction depth with
  | zero =>
      intro busy resolving
      constructor
      all_goals intros; exact ⟨_, .throw _, rfl⟩
  | succ depth ih =>
      intro busy resolving
      rw [answers_succ, Typing.answers_succ]
      refine (ih busy resolving).step Typing.builds_eq Typing.descends_all (fun s _ => ?_)
        fun s _ => ⟨trivial, fun _ => ?_⟩
      · refine settling_typing ?_
        exact (ih _ resolving).of_symbol Typing.builds_eq trivial
          (fun _ _ => ⟨trivial, trivial⟩) fun _ => trivial
      · refine settling_typing ?_
        exact (ih _ resolving).of_type_alias Typing.builds_eq fun _ _ _ _ => trivial

/-- Working out the type of a symbol comes out as the type told with the marked symbols as those
being worked out. -/
theorem settles_type_of_symbol (depth : Nat) (busy resolving : List SymbolId) (s : BoundSymbol) :
    Settles (.on busy resolving) (typeOfSymbol p depth s)
      (Typing.ofSymbol p true depth busy s) :=
  settles_iff.mpr ((settles_of_depth depth busy resolving).symbol trivial)

end StaticLiteral.Session
