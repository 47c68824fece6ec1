import StaticLiteral.Proofs.Typing.Correspondence
import StaticLiteral.Proofs.Typing.Records

/-!
# Typing with records

Types are worked out over again, as records: a payload is copied from one record to the next, and
turned around by a minus sign, without a look at the kind beside it. This leads to the record of the
type that is told, as `parallels` states.
-/

namespace StaticLiteral

/-- A record of a program's type. -/
abbrev LooseBoundTy := LooseTy SymbolId

/-- A record of a type, or a failure to tell it. -/
abbrev LooseTypeAnswer := Except Failure LooseBoundTy

namespace LooseTyping

open Typing (keywords isConstContext isSign isTypeLiteral depthLimit)

/-- The type of a keyword. -/
def ofKeyword (word : Text) : LooseBoundTy :=
  ((keywords.map fun row => (row.1, row.2.loose)).lookup word).getD { kind := .unknown }

/-- The type of a name that every file can use. -/
def ofAmbient (name : Text) : LooseBoundTy :=
  if name = Text.ofString "undefined" then { kind := .undefined }
  else if Program.ambientNames.contains name then { kind := .number }
  else { kind := .unknown }

/-- The type of a number literal; text that is none is still some number. -/
def ofNumeric (text : Text) : LooseBoundTy :=
  match NumericLiteral.value? text with
  | some x => .literal .numberLiteral (.number x)
  | none => { kind := .number }

/-- The type of a bigint literal; text that is none is still some bigint. -/
def ofBigint (text : Text) : LooseBoundTy :=
  match BigintLiteral.value text with
  | .ok n => .literal .bigintLiteral (.integer n)
  | .error _ => { kind := .bigint }

/-- The type of `-`, `+` or `~` before an operand. A minus sign turns the payload of a literal type
around, whatever it is. -/
def ofSigned (operator : Text) (operand : Node) (t : LooseBoundTy) : LooseTypeAnswer :=
  let isMinus := operator = Text.ofString "-"
  match t.kind, operand with
  | .bigintLiteral, _ =>
    if isMinus then .literal .bigintLiteral <$> t.payload.negated else .ok { kind := .bigint }
  | .bigint, _ => .ok { kind := .bigint }
  | .numberLiteral, .numericLiteral _ _ =>
    if isMinus then .literal .numberLiteral <$> t.payload.negated else .ok { kind := .number }
  | _, _ => .ok { kind := .number }

/-- The elements that a spread of a type adds to an array. -/
def spread (t : LooseBoundTy) : List LooseBoundTy :=
  match t.target with
  | some .tuple => t.arguments
  | some _ => [.unionOf t.arguments]
  | none => [{ kind := .unknown }]

/-- The type of an array with elements of these types: a tuple if it is constant. -/
def ofArray (isConst : Bool) (elements : List LooseBoundTy) : LooseBoundTy :=
  if isConst then .reference .tuple elements true
  else .reference .array [.unionOf (elements.map LooseTy.widened)] false

/-- The generic types that need no declaration. -/
def ofBuiltin (name : Text) (arguments : List LooseBoundTy) : LooseBoundTy :=
  let element := arguments.head?.getD { kind := .unknown }
  if name = Text.ofString "Array" then .reference .array [element] false
  else if name = Text.ofString "ReadonlyArray" then .reference .readonlyArray [element] true
  else if name = Text.ofString "Readonly" then element.asReadonly
  else { kind := .unknown }

variable (p : Program)

mutual

/-- The type of a symbol. -/
def ofSymbol : Nat → List SymbolId → BoundSymbol → LooseTypeAnswer
  | 0, _, _ => .error .tooDeep
  | depth + 1, busy, symbol =>
    if symbol.id ∈ busy then .ok { kind := .any }
    else
      let busy := symbol.id :: busy
      match symbol.kind, symbol.declaration with
      | .blockScopedVariable, none | .functionScopedVariable, none => .ok (ofAmbient symbol.name)
      | .blockScopedVariable, some declaration | .functionScopedVariable, some declaration =>
        ofVariable depth busy symbol.isConst declaration
      | .property, some declaration => ofProperty depth busy symbol declaration
      | .aliasOf _, _ =>
        let target := p.aliasEnd symbol
        if target.kind.isAlias ∨ target.kind = .unknown then .ok { kind := .unknown }
        else ofSymbol depth busy target
      | .function, _ | .enum, _ | .namespaceBlock, _ => .ok (.object .anonymous symbol)
      | .classDefinition, _ => .ok (.object .classDefinition symbol)
      | _, _ => .ok { kind := .unknown }

/-- The type of a variable. -/
def ofVariable : Nat → List SymbolId → Bool → Node → LooseTypeAnswer
  | 0, _, _, _ => .error .tooDeep
  | depth + 1, busy, isConst, declaration =>
    match declaration with
    | .variableDeclaration _ _ (some type) _ | .parameter _ _ (some type) _ =>
      ofTypeNode depth busy type
    | .variableDeclaration _ _ none none | .parameter _ _ none none => .ok { kind := .any }
    | .variableDeclaration _ _ none (some init) | .parameter _ _ none (some init) => do
      let type ← ofExpression depth busy false init
      return if isConst || isConstContext init then type else type.widened
    | .bindingElement .. => .ok { kind := .any }
    | expression => ofExpression depth busy false expression

/-- The type of a property of an object or a type. -/
def ofProperty : Nat → List SymbolId → BoundSymbol → Node → LooseTypeAnswer
  | 0, _, _, _ => .error .tooDeep
  | depth + 1, busy, symbol, declaration =>
    match declaration with
    | .propertyAssignment _ _ init => do
      let type ← ofExpression depth busy false init
      return if isConstContext init then type else type.widened
    | .shorthandPropertyAssignment _ name =>
      match name.identifier?.bind fun text => p.lookup? .value text name with
      | some target => ofSymbol depth busy target
      | none => .ok { kind := .unknown }
    | .propertySignature _ _ (some type) => ofTypeNode depth busy type
    | .propertySignature _ _ none => .ok { kind := .any }
    | .methodDeclaration .. => .ok (.object .anonymous symbol)
    | _ => .ok { kind := .unknown }

/-- The type of an expression, asserted to be constant or not. -/
def ofExpression : Nat → List SymbolId → Bool → Node → LooseTypeAnswer
  | 0, _, _, _ => .error .tooDeep
  | depth + 1, busy, isConst, node =>
    match node with
    | .parenthesizedExpression _ e | .satisfiesExpression _ e _ => ofExpression depth busy isConst e
    | .asExpression _ e type | .typeAssertion _ type e =>
      if node.isConstAssertion then ofExpression depth busy true e else ofTypeNode depth busy type
    | .numericLiteral _ text => .ok (ofNumeric text)
    | .bigintLiteral _ text => .ok (ofBigint text)
    | .stringLiteral _ text | .templateLiteral _ text => .ok (.literal .stringLiteral (.text text))
    | .templateExpression .. => .ok { kind := .string }
    | .trueKeyword _ => .ok (.literal .booleanLiteral (.boolean true))
    | .falseKeyword _ => .ok (.literal .booleanLiteral (.boolean false))
    | .nullKeyword _ => .ok { kind := .null }
    | .regularExpressionLiteral .. => .ok (.object .interface none)
    | .prefixUnaryExpression _ operator operand =>
      if operator = Text.ofString "!" then .ok { kind := .boolean }
      else if isSign operator then do
        ofSigned operator operand (← ofExpression depth busy false operand)
      else .ok { kind := .unknown }
    | .arrayLiteral _ elements =>
      (ofArray isConst ·.flatten) <$> elements.mapM (ofElement depth busy isConst)
    | .objectLiteral .. => .ok (.object .anonymous (p.literalSymbol? node))
    | .functionExpression .. => .ok (.object .anonymous none)
    | .identifier .. =>
      match p.symbolAt? node with
      | some symbol => ofSymbol depth busy symbol
      | none => .ok { kind := .unknown }
    | _ => .ok { kind := .unknown }

/-- The types that an element adds to an array. -/
def ofElement : Nat → List SymbolId → Bool → Node → Except Failure (List LooseBoundTy)
  | 0, _, _, _ => .error .tooDeep
  | depth + 1, busy, isConst, element =>
    match element with
    | .omittedExpression _ => .ok [{ kind := .undefined }]
    | .spreadElement _ e => spread <$> ofExpression depth busy isConst e
    | e => (fun type => [type]) <$> ofExpression depth busy isConst e

/-- The type that an annotation means. -/
def ofTypeNode : Nat → List SymbolId → Node → LooseTypeAnswer
  | 0, _, _ => .error .tooDeep
  | depth + 1, busy, node =>
    match node with
    | .literalType _ literal =>
      if literal.identifier? = some (Text.ofString "undefined") then .ok { kind := .undefined }
      else if isTypeLiteral literal then ofExpression depth busy false literal
      else .ok { kind := .unknown }
    | .keywordType _ word => .ok (ofKeyword word)
    | .tupleType _ elements =>
      (.reference .tuple · false) <$> elements.mapM (ofTypeNode depth busy)
    | .arrayType _ element => (.reference .array [·] false) <$> ofTypeNode depth busy element
    | .typeOperator _ operator type =>
      if operator = Text.ofString "readonly" then
        LooseTy.asReadonly <$> ofTypeNode depth busy type
      else .ok { kind := .unknown }
    | .typeReference _ name arguments => do
      let arguments ← arguments.mapM (ofTypeNode depth busy)
      match name.identifier?.bind fun text => p.lookup? .type text name with
      | some symbol => ofNamedType depth busy (p.aliasEnd symbol)
      | none => return ofBuiltin (name.identifier?.getD []) arguments
    | .typeLiteral .. => .ok (.object .anonymous (p.literalSymbol? node))
    | .unionType _ types => LooseTy.unionOf <$> types.mapM (ofTypeNode depth busy)
    | _ => .ok { kind := .unknown }

/-- The type that a symbol names. -/
def ofNamedType : Nat → List SymbolId → BoundSymbol → LooseTypeAnswer
  | 0, _, _ => .error .tooDeep
  | depth + 1, busy, symbol =>
    match symbol.kind with
    | .typeAlias =>
      if symbol.id ∈ busy then .ok { kind := .any }
      else
        match symbol.declaration with
        | some (.typeAliasDeclaration _ _ type _) => ofTypeNode depth (symbol.id :: busy) type
        | _ => .ok { kind := .unknown }
    | .interface => .ok (.object .interface symbol)
    | .classDefinition => .ok (.object .classDefinition symbol)
    | _ => .ok { kind := .unknown }

end

/-! ### What is made of records -/

section

variable (t : BoundTy) (ts : List BoundTy)

/-- A keyword stands for the record of its type. -/
theorem of_keyword_eq (word : Text) : ofKeyword word = (Typing.ofKeyword word).loose := by
  unfold ofKeyword Typing.ofKeyword
  induction keywords with
  | nil => rfl
  | cons row rows ih =>
      rw [List.map_cons, List.lookup_cons, List.lookup_cons]
      split
      · rfl
      · exact ih

/-- The record for a name that every file can use is that of its type. -/
theorem of_ambient_eq (name : Text) : ofAmbient name = (Typing.ofAmbient name).loose := by
  unfold ofAmbient Typing.ofAmbient
  split <;> [rfl; split <;> rfl]

/-- The record for the text of a number is that of its type. -/
theorem of_numeric_eq (text : Text) : ofNumeric text = (Typing.ofNumeric text).loose := by
  unfold ofNumeric Typing.ofNumeric
  cases NumericLiteral.value? text <;> rfl

/-- The record for the text of a bigint is that of its type. -/
theorem of_bigint_eq (text : Text) : ofBigint text = (Typing.ofBigint text).loose := by
  unfold ofBigint Typing.ofBigint
  cases BigintLiteral.value text <;> rfl

/-- A sign in front of the record of a type does not fail, and makes the record of what it makes of
the type: a literal type carries what can be turned around. -/
theorem of_signed_loose (operator : Text) (operand : Node) :
    ofSigned operator operand t.loose = .ok (Typing.ofSigned operator operand t).loose := by
  cases t with
  | literal v =>
      cases v with
      | text _ | boolean _ => rfl
      | bigint n =>
          simp only [ofSigned, Typing.ofSigned, Ty.loose, LooseTy.literal, LiteralValue.kind]
          split <;> rfl
      | number x =>
          cases operand <;>
            simp only [ofSigned, Typing.ofSigned, Ty.loose, LooseTy.literal, LiteralValue.kind]
          split <;> rfl
  | _ => rfl

/-- A spread of the record of a type adds the records of what the type adds. -/
theorem spread_loose : spread t.loose = (Typing.spread t).map Ty.loose := by
  cases t with
  | reference target arguments readonly =>
      have harguments := Ty.loose_all_eq arguments
      cases target with
      | tuple => exact harguments
      | array | readonlyArray =>
          show [LooseTy.unionOf (Ty.looseAll arguments)] = [(Ty.unionOf arguments).loose]
          rw [harguments, Ty.loose_union_of]
  | _ => rfl

/-- The record of an array is made of the records of its elements. -/
theorem of_array_map_loose (isConst : Bool) :
    ofArray isConst (ts.map Ty.loose) = (Typing.ofArray isConst ts).loose := by
  cases isConst with
  | true => simp [ofArray, Typing.ofArray, Ty.loose]
  | false =>
      have hwidened : (ts.map Ty.loose).map LooseTy.widened = (ts.map Ty.widened).map Ty.loose := by
        simp [Ty.loose_widened]
      simp [ofArray, Typing.ofArray, Ty.loose, hwidened, Ty.loose_union_of]

/-- The record of a generic type is made of the records of its arguments. -/
theorem of_builtin_map_loose (name : Text) :
    ofBuiltin name (ts.map Ty.loose) = (Typing.ofBuiltin name ts).loose := by
  have helement : (ts.map Ty.loose).head?.getD { kind := .unknown } =
      (ts.head?.getD .unknown).loose := by
    cases ts <;> rfl
  unfold ofBuiltin Typing.ofBuiltin
  dsimp only
  rw [helement]
  split
  · simp [Ty.loose]
  · split
    · simp [Ty.loose]
    · split
      · cases ts with
        | nil => rfl
        | cons t ts => exact (Ty.loose_as_readonly t).symm
      · rfl

end

/-! ### The records of the types that are told -/

/-- The record is that of the type. -/
abbrev IsRecord (t : BoundTy) (r : LooseBoundTy) : Prop := t.loose = r

/-- Records of types, one by one, are the records of the types. -/
theorem forall₂_is_record_iff {ts : List BoundTy} {rs : List LooseBoundTy} :
    List.Forall₂ IsRecord ts rs ↔ ts.map Ty.loose = rs := by
  rw [← List.forall₂_eq_eq_eq, List.forall₂_map_left_iff]

/-- At some depth, everything is told as the record of its type. -/
structure Parallels (p : Program) (depth : Nat) : Prop where
  symbol : ∀ busy s, Parallel IsRecord (Typing.ofSymbol p true depth busy s)
    (ofSymbol p depth busy s)
  ofDeclaration : ∀ busy isConst n, Parallel IsRecord
    (Typing.ofVariable p true depth busy isConst n) (ofVariable p depth busy isConst n)
  property : ∀ busy s n, Parallel IsRecord (Typing.ofProperty p true depth busy s n)
    (ofProperty p depth busy s n)
  expression : ∀ busy isConst n, Parallel IsRecord
    (Typing.ofExpression p true depth busy isConst n) (ofExpression p depth busy isConst n)
  element : ∀ busy isConst n, Parallel (List.Forall₂ IsRecord)
    (Typing.ofElement p true depth busy isConst n) (ofElement p depth busy isConst n)
  annotation : ∀ busy n, Parallel IsRecord (Typing.ofTypeNode p true depth busy n)
    (ofTypeNode p depth busy n)
  namedType : ∀ busy s, Parallel IsRecord (Typing.ofNamedType p true depth busy s)
    (ofNamedType p depth busy s)

namespace Parallels

variable {p : Program} {depth : Nat} (ih : Parallels p depth) (busy : List SymbolId)
include ih

/-- A symbol is told as a record one level up. -/
theorem symbol_step (s : BoundSymbol) :
    Parallel IsRecord (Typing.ofSymbol p true (depth + 1) busy s)
      (ofSymbol p (depth + 1) busy s) := by
  simp only [Typing.ofSymbol, ofSymbol, true_and]
  split
  · exact .ok rfl
  · cases s.kind with
    | blockScopedVariable | functionScopedVariable =>
        cases s.declaration with
        | none => exact .ok (of_ambient_eq s.name).symm
        | some declaration => exact ih.ofDeclaration _ _ _
    | property =>
        cases s.declaration with
        | none => exact .ok rfl
        | some declaration => exact ih.property _ _ _
    | aliasOf origin =>
        dsimp only
        split
        · exact .ok rfl
        · exact ih.symbol _ _
    | _ => exact .ok rfl

/-- The type of an initial value, widened or not, is told as a record one level up. -/
theorem initial_step (n : Node) (keeps : Bool) :
    Parallel IsRecord
      (do let type ← Typing.ofExpression p true depth busy false n
          return if keeps then type else type.widened)
      (do let type ← ofExpression p depth busy false n
          return if keeps then type else type.widened) := by
  refine (ih.expression busy false n).bind fun t r htr => .ok ?_
  cases htr
  split
  · rfl
  · exact Ty.loose_widened t

/-- A variable is told as a record one level up. -/
theorem declaration_step (isConst : Bool) (n : Node) :
    Parallel IsRecord (Typing.ofVariable p true (depth + 1) busy isConst n)
      (ofVariable p (depth + 1) busy isConst n) := by
  cases n with
  | variableDeclaration i name type init | parameter i name type init =>
      cases type with
      | some type => exact ih.annotation _ _
      | none =>
          cases init with
          | some init => exact ih.initial_step busy init _
          | none => exact .ok rfl
  | bindingElement i name key init isRest => exact .ok rfl
  | _ => exact ih.expression _ _ _

/-- A property is told as a record one level up. -/
theorem property_step (s : BoundSymbol) (n : Node) :
    Parallel IsRecord (Typing.ofProperty p true (depth + 1) busy s n)
      (ofProperty p (depth + 1) busy s n) := by
  cases n with
  | propertyAssignment i name init => exact ih.initial_step busy init _
  | shorthandPropertyAssignment i name =>
      simp only [Typing.ofProperty, ofProperty]
      cases name.identifier?.bind fun text => p.lookup? .value text name with
      | some target => exact ih.symbol _ _
      | none => exact .ok rfl
  | propertySignature i name type =>
      cases type with
      | some type => exact ih.annotation _ _
      | none => exact .ok rfl
  | _ => exact .ok rfl

/-- An expression is told as a record one level up. -/
theorem expression_step (isConst : Bool) (n : Node) :
    Parallel IsRecord (Typing.ofExpression p true (depth + 1) busy isConst n)
      (ofExpression p (depth + 1) busy isConst n) := by
  cases n with
  | parenthesizedExpression i e | satisfiesExpression i e type => exact ih.expression _ _ _
  | asExpression i e type | typeAssertion i type e =>
      simp only [Typing.ofExpression, ofExpression]
      split
      · exact ih.expression _ _ _
      · exact ih.annotation _ _
  | numericLiteral i text => exact .ok (of_numeric_eq text).symm
  | bigintLiteral i text => exact .ok (of_bigint_eq text).symm
  | prefixUnaryExpression i operator operand =>
      simp only [Typing.ofExpression, ofExpression]
      split
      · exact .ok rfl
      · split
        · rw [← bind_pure_comp]
          refine (ih.expression _ _ _).bind fun t r htr => ?_
          cases htr
          rw [of_signed_loose]
          exact .ok rfl
        · exact .ok rfl
  | arrayLiteral i elements =>
      refine .map (.mapM (List.forall₂_same.mpr fun n _ => ih.element _ _ n)) fun ts rs hlists => ?_
      have hflat := forall₂_is_record_iff.mp (List.rel_flatten hlists)
      exact hflat ▸ (of_array_map_loose ts.flatten isConst).symm
  | identifier i text =>
      simp only [Typing.ofExpression, ofExpression]
      cases p.symbolAt? (.identifier i text) with
      | some symbol => exact ih.symbol _ _
      | none => exact .ok rfl
  | _ => exact .ok rfl

/-- An element is told as records one level up. -/
theorem element_step (isConst : Bool) (n : Node) :
    Parallel (List.Forall₂ IsRecord) (Typing.ofElement p true (depth + 1) busy isConst n)
      (ofElement p (depth + 1) busy isConst n) := by
  have hvalue := (ih.expression busy isConst n).map
    (f := fun type => [type]) (g := fun type => [type]) (S := List.Forall₂ IsRecord)
    fun t r htr => .cons htr .nil
  cases n with
  | omittedExpression i => exact .ok (.cons rfl .nil)
  | spreadElement i e =>
      refine (ih.expression busy isConst e).map fun t r htr => ?_
      cases htr
      exact forall₂_is_record_iff.mpr (spread_loose t).symm
  | _ => exact hvalue

/-- An annotation is told as a record one level up. -/
theorem annotation_step (n : Node) :
    Parallel IsRecord (Typing.ofTypeNode p true (depth + 1) busy n)
      (ofTypeNode p (depth + 1) busy n) := by
  have hall : ∀ es : List Node, Parallel (List.Forall₂ IsRecord)
      (es.mapM (Typing.ofTypeNode p true depth busy)) (es.mapM (ofTypeNode p depth busy)) :=
    fun es => .mapM (List.forall₂_same.mpr fun n _ => ih.annotation busy n)
  cases n with
  | literalType i literal =>
      simp only [Typing.ofTypeNode, ofTypeNode]
      split
      · exact .ok rfl
      · split
        · exact ih.expression _ _ _
        · exact .ok rfl
  | keywordType i word => exact .ok (of_keyword_eq word).symm
  | tupleType i elements =>
      refine (hall elements).map fun ts rs hts => ?_
      obtain rfl := forall₂_is_record_iff.mp hts
      exact congrArg (LooseTy.reference .tuple · false) (Ty.loose_all_eq ts)
  | arrayType i element =>
      refine (ih.annotation busy element).map fun t r htr => ?_
      cases htr
      rfl
  | typeOperator i operator type =>
      simp only [Typing.ofTypeNode, ofTypeNode]
      split
      · refine (ih.annotation busy type).map fun t r htr => ?_
        cases htr
        exact Ty.loose_as_readonly t
      · exact .ok rfl
  | typeReference i name arguments =>
      simp only [Typing.ofTypeNode, ofTypeNode]
      refine (hall arguments).bind fun ts rs hts => ?_
      obtain rfl := forall₂_is_record_iff.mp hts
      cases name.identifier?.bind fun text => p.lookup? .type text name with
      | some symbol => exact ih.namedType _ _
      | none => exact .ok (of_builtin_map_loose ts _).symm
  | unionType i types =>
      refine (hall types).map fun ts rs hts => ?_
      obtain rfl := forall₂_is_record_iff.mp hts
      exact Ty.loose_union_of ts
  | _ => exact .ok rfl

/-- The type that a symbol names is told as a record one level up. -/
theorem named_type_step (s : BoundSymbol) :
    Parallel IsRecord (Typing.ofNamedType p true (depth + 1) busy s)
      (ofNamedType p (depth + 1) busy s) := by
  simp only [Typing.ofNamedType, ofNamedType, true_and]
  cases s.kind with
  | typeAlias =>
      dsimp only
      split
      · exact .ok rfl
      · cases s.declaration with
        | none => exact .ok rfl
        | some declaration =>
            cases declaration with
            | typeAliasDeclaration i name type exported => exact ih.annotation _ _
            | _ => exact .ok rfl
  | _ => exact .ok rfl

end Parallels

/-- Everything is told as the record of its type. -/
theorem parallels (p : Program) (depth : Nat) : Parallels p depth := by
  induction depth with
  | zero =>
      constructor
      all_goals intros; exact .error .tooDeep
  | succ depth ih =>
      exact {
        symbol := ih.symbol_step
        ofDeclaration := ih.declaration_step
        property := ih.property_step
        expression := ih.expression_step
        element := ih.element_step
        annotation := ih.annotation_step
        namedType := ih.named_type_step }

end LooseTyping

end StaticLiteral
