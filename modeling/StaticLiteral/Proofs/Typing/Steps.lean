import StaticLiteral.Program.Typing
import StaticLiteral.Proofs.Depth
import StaticLiteral.Proofs.Program.Symbols
import StaticLiteral.Proofs.Syntax.Similar

/-!
# One step of typing

A question about types is answered from answers one level down. `Answers` are answers to all these
questions, in any monad, and `Answers.step` are the answers that follow from them; `answers_succ`
says that typing takes such steps.

Typing at two depths, with guards and without, or with marks in place of guards, is compared step by
step, always in the same way: a `Lifting` relates answers by relating their values, a relation
between types `Builds` whatever typing makes of related types, and the questions that a step leads
to are among those that are compared (`Descends`). `Related.step` goes through typing once for all
these comparisons.
-/

namespace StaticLiteral

/-- The operands that typing a node may go on to: of an assignment to a property its value, not the
key. -/
def Node.subjects : Node → List Node
  | .propertyAssignment _ _ init => [init]
  | n => n.operands

/-- The type has no parts: it is neither an object nor made of other types. -/
def Ty.isPlain {ι : Type} : Ty ι → Bool
  | object .. | reference .. | union _ => false
  | _ => true

namespace Typing

/-- What a minus sign or another one makes of a type has no parts. -/
theorem is_plain_of_signed (operator : Text) (operand : Node) (t : BoundTy) :
    (ofSigned operator operand t).isPlain := by
  unfold ofSigned
  dsimp only
  split
  · split <;> rfl
  · rfl
  · split
    · split <;> rfl
    · rfl
  · rfl

/-- The type of an ambient name has no parts. -/
theorem is_plain_of_ambient (name : Text) : (ofAmbient name).isPlain := by
  unfold ofAmbient
  split
  · rfl
  · split <;> rfl

/-! ## Steps -/

/-- Answers to the questions about types. -/
structure Answers (m : Type → Type) where
  symbol : BoundSymbol → m BoundTy
  declaration : Bool → Node → m BoundTy
  property : BoundSymbol → Node → m BoundTy
  expression : Bool → Node → m BoundTy
  element : Bool → Node → m (List BoundTy)
  typeNode : Node → m BoundTy
  namedType : BoundSymbol → m BoundTy

namespace Answers

variable {m : Type → Type} [Monad m] (below : Answers m) (p : Program)

/-- The type of a symbol that is not being worked out. -/
def ofSymbol (symbol : BoundSymbol) : m BoundTy :=
  match symbol.kind, symbol.declaration with
  | .blockScopedVariable, none | .functionScopedVariable, none => pure (ofAmbient symbol.name)
  | .blockScopedVariable, some declaration | .functionScopedVariable, some declaration =>
    below.declaration symbol.isConst declaration
  | .property, some declaration => below.property symbol declaration
  | .aliasOf _, _ =>
    let target := p.aliasEnd symbol
    if target.kind.isAlias ∨ target.kind = .unknown then pure .unknown
    else below.symbol target
  | .function, _ | .enum, _ | .namespaceBlock, _ => pure (.object .anonymous symbol)
  | .classDefinition, _ => pure (.object .classDefinition symbol)
  | _, _ => pure .unknown

/-- The type of a variable. -/
def ofDeclaration (isConst : Bool) (declaration : Node) : m BoundTy :=
  match declaration with
  | .variableDeclaration _ _ (some type) _ | .parameter _ _ (some type) _ => below.typeNode type
  | .variableDeclaration _ _ none none | .parameter _ _ none none => pure .any
  | .variableDeclaration _ _ none (some init) | .parameter _ _ none (some init) => do
    let type ← below.expression false init
    return if isConst || isConstContext init then type else type.widened
  | .bindingElement .. => pure .any
  | expression => below.expression false expression

/-- The type of a property of an object or a type. -/
def ofProperty (symbol : BoundSymbol) (declaration : Node) : m BoundTy :=
  match declaration with
  | .propertyAssignment _ _ init => do
    let type ← below.expression false init
    return if isConstContext init then type else type.widened
  | .shorthandPropertyAssignment _ name =>
    match name.identifier?.bind fun text => p.lookup? .value text name with
    | some target => below.symbol target
    | none => pure .unknown
  | .propertySignature _ _ (some type) => below.typeNode type
  | .propertySignature _ _ none => pure .any
  | .methodDeclaration .. => pure (.object .anonymous symbol)
  | _ => pure .unknown

/-- The type of an expression. -/
def ofExpression (isConst : Bool) (node : Node) : m BoundTy :=
  match node with
  | .parenthesizedExpression _ e | .satisfiesExpression _ e _ => below.expression isConst e
  | .asExpression _ e type | .typeAssertion _ type e =>
    if node.isConstAssertion then below.expression true e else below.typeNode type
  | .numericLiteral _ text => pure (ofNumeric text)
  | .bigintLiteral _ text => pure (ofBigint text)
  | .stringLiteral _ text | .templateLiteral _ text => pure (.literal (.text text))
  | .templateExpression .. => pure .string
  | .trueKeyword _ => pure (.literal (.boolean true))
  | .falseKeyword _ => pure (.literal (.boolean false))
  | .nullKeyword _ => pure .null
  | .regularExpressionLiteral .. => pure (.object .interface none)
  | .prefixUnaryExpression _ operator operand =>
    if operator = Text.ofString "!" then pure .boolean
    else if isSign operator then ofSigned operator operand <$> below.expression false operand
    else pure .unknown
  | .arrayLiteral _ elements =>
    (ofArray isConst ·.flatten) <$> elements.mapM (below.element isConst)
  | .objectLiteral .. => pure (.object .anonymous (p.literalSymbol? node))
  | .functionExpression .. => pure (.object .anonymous none)
  | .identifier .. =>
    match p.symbolAt? node with
    | some symbol => below.symbol symbol
    | none => pure .unknown
  | _ => pure .unknown

/-- The types that an element adds to an array. -/
def ofElement (isConst : Bool) (element : Node) : m (List BoundTy) :=
  match element with
  | .omittedExpression _ => pure [.undefined]
  | .spreadElement _ e => spread <$> below.expression isConst e
  | e => (fun type => [type]) <$> below.expression isConst e

/-- The type that an annotation means. -/
def ofTypeNode (node : Node) : m BoundTy :=
  match node with
  | .literalType _ literal =>
    if literal.identifier? = some (Text.ofString "undefined") then pure .undefined
    else if isTypeLiteral literal then below.expression false literal
    else pure .unknown
  | .keywordType _ word => pure (ofKeyword word)
  | .tupleType _ elements =>
    (.reference .tuple · false) <$> elements.mapM below.typeNode
  | .arrayType _ element => (.reference .array [·] false) <$> below.typeNode element
  | .typeOperator _ operator type =>
    if operator = Text.ofString "readonly" then Ty.asReadonly <$> below.typeNode type
    else pure .unknown
  | .typeReference _ name arguments => do
    let arguments ← arguments.mapM below.typeNode
    match name.identifier?.bind fun text => p.lookup? .type text name with
    | some symbol => below.namedType (p.aliasEnd symbol)
    | none => return ofBuiltin (name.identifier?.getD []) arguments
  | .typeLiteral .. => pure (.object .anonymous (p.literalSymbol? node))
  | .unionType _ types => Ty.unionOf <$> types.mapM below.typeNode
  | _ => pure .unknown

/-- The type that an alias of a type stands for if it is not being worked out. -/
def ofTypeAlias (symbol : BoundSymbol) : m BoundTy :=
  match symbol.declaration with
  | some (.typeAliasDeclaration _ _ type _) => below.typeNode type
  | _ => pure .unknown

/-- The type that a symbol names, where `target` is what it names if it is an alias of a type. -/
def ofNamedType (target : m BoundTy) (symbol : BoundSymbol) : m BoundTy :=
  match symbol.kind with
  | .typeAlias => target
  | .interface => pure (.object .interface symbol)
  | .classDefinition => pure (.object .classDefinition symbol)
  | _ => pure .unknown

/-- The answers that follow from those one level down. What a symbol is asked for depends on the
guards, so it is given: its type, and the type that it stands for as an alias of a type. -/
def step (symbol target : BoundSymbol → m BoundTy) : Answers m where
  symbol := symbol
  declaration := below.ofDeclaration
  property := below.ofProperty p
  expression := below.ofExpression p
  element := below.ofElement
  typeNode := below.ofTypeNode p
  namedType s := ofNamedType (target s) s

end Answers

variable {p : Program} {guarded : Bool} {depth : Nat} {busy : List SymbolId}

/-- The answers at a depth while some symbols are being worked out. -/
def answers (p : Program) (guarded : Bool) (depth : Nat) (busy : List SymbolId) :
    Answers (Except Failure) where
  symbol := ofSymbol p guarded depth busy
  declaration := ofVariable p guarded depth busy
  property := ofProperty p guarded depth busy
  expression := ofExpression p guarded depth busy
  element := ofElement p guarded depth busy
  typeNode := ofTypeNode p guarded depth busy
  namedType := ofNamedType p guarded depth busy

/-- What is answered about a symbol that is cut off with `any` if it is being worked out. -/
def entered (p : Program) (guarded : Bool) (depth : Nat) (busy : List SymbolId)
    (question : Answers (Except Failure) → BoundSymbol → TypeAnswer) (symbol : BoundSymbol) :
    TypeAnswer :=
  if guarded ∧ symbol.id ∈ busy then .ok .any
  else question (answers p guarded depth (symbol.id :: busy)) symbol

/-- Answers about a symbol are related if they are where it is not being worked out. -/
theorem entered_related (L : Lifting (Except Failure) (Except Failure))
    {W : BoundTy → BoundTy → Prop} (hany : W .any .any) {deep : Nat} {other : List SymbolId}
    {question : Answers (Except Failure) → BoundSymbol → TypeAnswer} {s : BoundSymbol}
    (hbusy : s.id ∈ busy ↔ s.id ∈ other)
    (h : ¬ (guarded ∧ s.id ∈ busy) → L.rel W (question (answers p guarded depth (s.id :: busy)) s)
      (question (answers p guarded deep (s.id :: other)) s)) :
    L.rel W (entered p guarded depth busy question s)
      (entered p guarded deep other question s) := by
  simp only [entered, ← hbusy]
  split
  case isTrue => exact L.pure hany
  case isFalse hfree => exact h hfree

/-- Typing takes steps. -/
theorem answers_succ : answers p guarded (depth + 1) busy =
    (answers p guarded depth busy).step p (entered p guarded depth busy (·.ofSymbol p))
      (entered p guarded depth busy Answers.ofTypeAlias) := rfl

/-- The type that an alias of a type names is the one that it stands for. -/
theorem of_named_type_alias {s : BoundSymbol} (hkind : s.kind = .typeAlias) :
    ofNamedType p guarded (depth + 1) busy s =
      entered p guarded depth busy Answers.ofTypeAlias s := by
  show Answers.ofNamedType (entered p guarded depth busy Answers.ofTypeAlias s) s = _
  rw [Answers.ofNamedType, hkind]

/-- A symbol that is not being worked out is not cut off. -/
theorem entered_of_not_mem {question : Answers (Except Failure) → BoundSymbol → TypeAnswer}
    {s : BoundSymbol} (h : s.id ∉ busy) : entered p guarded depth busy question s =
      question (answers p guarded depth (s.id :: busy)) s :=
  if_neg fun hcut => h hcut.2

/-! ## Comparing steps -/

/-- Whatever typing makes of types in the relation `V` is in the relation `W`, as long as the
objects in it belong to symbols with the property `owner`. -/
structure Builds (owner : BoundSymbol → Prop) (V W : BoundTy → BoundTy → Prop) : Prop where
  kept : ∀ {t u}, V t u → W t u
  plain : ∀ {t : BoundTy}, t.isPlain → W t t
  object : ∀ {shape : ObjectShape} {symbol : Option BoundSymbol},
    (∀ s, symbol = some s → owner s) → W (.object shape symbol) (.object shape symbol)
  reference : ∀ {target : ReferenceTarget} {readonly : Bool} {ts us : List BoundTy},
    List.Forall₂ V ts us → W (.reference target ts readonly) (.reference target us readonly)
  unionOf : ∀ {ts us}, List.Forall₂ V ts us → W (.unionOf ts) (.unionOf us)
  widened : ∀ {t u}, V t u → W t.widened u.widened
  asReadonly : ∀ {t u}, V t u → W t.asReadonly u.asReadonly
  signed : ∀ {t u}, V t u → ∀ operator n, ofSigned operator n t = ofSigned operator n u
  spread : ∀ {t u}, V t u → List.Forall₂ W (spread t) (spread u)
  array : ∀ {ts us}, List.Forall₂ V ts us → ∀ isConst, W (ofArray isConst ts) (ofArray isConst us)
  builtin : ∀ {ts us}, List.Forall₂ V ts us → ∀ name, W (ofBuiltin name ts) (ofBuiltin name us)

namespace Builds

variable {owner : BoundSymbol → Prop} {V W : BoundTy → BoundTy → Prop} (h : Builds owner V W)
include h

/-- What a keyword means is related to itself. -/
theorem of_keyword (word : Text) : W (ofKeyword word) (ofKeyword word) := by
  have hall : ∀ row ∈ keywords, W row.2 row.2 := by
    simp only [keywords, List.forall_mem_cons]
    refine ⟨?_, ?_, ?_, ?_, ?_, ?_, ?_, ?_, ?_, ?_, ?_, by simp⟩
    any_goals exact h.plain rfl
    exact h.object (by simp)
  unfold ofKeyword
  cases hlookup : keywords.lookup word with
  | none => exact h.plain rfl
  | some t =>
      obtain ⟨before, after, hsplit, _⟩ := List.lookup_eq_some_iff.mp hlookup
      exact hall (word, t) (by simp [hsplit])

/-- The type of a number literal is related to itself. -/
theorem of_numeric (text : Text) : W (ofNumeric text) (ofNumeric text) := by
  refine h.plain ?_
  unfold ofNumeric
  split <;> rfl

/-- The type of a bigint literal is related to itself. -/
theorem of_bigint (text : Text) : W (ofBigint text) (ofBigint text) := by
  refine h.plain ?_
  unfold ofBigint
  split <;> rfl

/-- What is kept or widened of related types is related. -/
theorem of_initial {t u : BoundTy} (htu : V t u) (keeps : Bool) :
    W (if keeps then t else t.widened) (if keeps then u else u.widened) := by
  split
  · exact h.kept htu
  · exact h.widened htu

end Builds

/-- Equal types are built of equal types. -/
theorem builds_eq : Builds (fun _ => True) Eq Eq where
  kept := id
  plain _ := rfl
  object _ := rfl
  reference h := by rw [forall₂_eq h]
  unionOf h := by rw [forall₂_eq h]
  widened h := by rw [h]
  asReadonly h := by rw [h]
  signed h operator n := by rw [h]
  spread h := by rw [h, List.forall₂_eq_eq_eq]
  array h isConst := by rw [forall₂_eq h]
  builtin h name := by rw [forall₂_eq h]

/-- The questions about types that are compared. -/
structure Domain where
  symbol : BoundSymbol → Prop
  declaration : Node → Prop
  property : BoundSymbol → Node → Prop
  expression : Node → Prop
  element : Node → Prop
  typeNode : Node → Prop
  namedType : BoundSymbol → Prop

/-- The questions about nodes in `upper` lead to questions in `lower`. -/
structure Descends (p : Program) (owner : BoundSymbol → Prop) (upper lower : Domain) : Prop where
  declaration : ∀ {n}, upper.declaration n →
    lower.expression n ∧ ∀ c ∈ n.subjects, lower.expression c ∧ lower.typeNode c
  property : ∀ {s n}, upper.property s n →
    owner s ∧ ∀ c ∈ n.subjects, lower.expression c ∧ lower.typeNode c
  propertyName : ∀ {s n name c t}, upper.property s n →
    p.lookup? .value name c = some t → lower.symbol t
  expression : ∀ {n}, upper.expression n →
    ∀ c ∈ n.subjects, lower.expression c ∧ lower.element c ∧ lower.typeNode c
  identifier : ∀ {i text t}, upper.expression (.identifier i text) →
    p.symbolAt? (.identifier i text) = some t → lower.symbol t
  literal : ∀ {n t}, p.literalSymbol? n = some t → owner t
  element : ∀ {n}, upper.element n → lower.expression n ∧ ∀ c ∈ n.subjects, lower.expression c
  typeNode : ∀ {n}, upper.typeNode n →
    ∀ c ∈ n.subjects, lower.expression c ∧ lower.typeNode c
  typeName : ∀ {n name c t}, upper.typeNode n →
    p.lookup? .type name c = some t → lower.namedType (p.aliasEnd t)

/-- All questions about types. -/
def Domain.all : Domain where
  symbol _ := True
  declaration _ := True
  property _ _ := True
  expression _ := True
  element _ := True
  typeNode _ := True
  namedType _ := True

/-- All questions lead to questions. -/
theorem descends_all : Descends p (fun _ => True) .all .all := by
  constructor <;> simp [Domain.all]

/-- The questions about symbols of a program, and all about nodes. -/
def Domain.ofProgram (p : Program) : Domain where
  symbol s := s ∈ p.symbols
  declaration _ := True
  property s _ := s ∈ p.symbols
  expression _ := True
  element _ := True
  typeNode _ := True
  namedType s := s ∈ p.symbols

/-- Questions about the symbols of a program lead to questions about its symbols. -/
theorem descends_of_program :
    Descends p (· ∈ p.symbols) (.ofProgram p) (.ofProgram p) where
  declaration _ := ⟨trivial, fun _ _ => ⟨trivial, trivial⟩⟩
  property hs := ⟨hs, fun _ _ => ⟨trivial, trivial⟩⟩
  propertyName _ := Program.lookup_mem_symbols
  expression _ _ _ := ⟨trivial, trivial, trivial⟩
  identifier _ := Program.symbol_at_mem_symbols
  literal := Program.literal_mem_symbols
  element _ := ⟨trivial, fun _ _ => trivial⟩
  typeNode _ _ _ := ⟨trivial, trivial⟩
  typeName _ h := Program.alias_end_mem_symbols (Program.lookup_mem_symbols h)

variable {m n : Type → Type} [Monad m] [Monad n]

/-- The answers to the questions in a domain are related. -/
structure Related (L : Lifting m n) (V : BoundTy → BoundTy → Prop) (D : Domain) (a : Answers m)
    (b : Answers n) : Prop where
  symbol : ∀ {s}, D.symbol s → L.rel V (a.symbol s) (b.symbol s)
  declaration : ∀ {d}, D.declaration d → ∀ isConst,
    L.rel V (a.declaration isConst d) (b.declaration isConst d)
  property : ∀ {s d}, D.property s d → L.rel V (a.property s d) (b.property s d)
  expression : ∀ {e}, D.expression e → ∀ isConst,
    L.rel V (a.expression isConst e) (b.expression isConst e)
  element : ∀ {e}, D.element e → ∀ isConst,
    L.rel (List.Forall₂ V) (a.element isConst e) (b.element isConst e)
  typeNode : ∀ {e}, D.typeNode e → L.rel V (a.typeNode e) (b.typeNode e)
  namedType : ∀ {s}, D.namedType s → L.rel V (a.namedType s) (b.namedType s)

namespace Related

variable {L : Lifting m n} {V W : BoundTy → BoundTy → Prop} {upper lower : Domain} {a : Answers m}
  {b : Answers n} {owner : BoundSymbol → Prop} (h : Related L V lower a b)
  (hbuilds : Builds owner V W) (hdescends : Descends p owner upper lower)
  (isConst : Bool) {s : BoundSymbol} {c : Node}

include h hbuilds in
/-- Initial values have related types, widened or not. -/
theorem of_initial {init : Node} (hinit : lower.expression init) (keeps : Bool) :
    L.rel W (do let t ← a.expression false init; return if keeps then t else t.widened)
      (do let t ← b.expression false init; return if keeps then t else t.widened) :=
  L.bind (h.expression hinit false) fun _ _ htu => L.pure (hbuilds.of_initial htu keeps)

variable [LawfulMonad m] [LawfulMonad n]

/-- Related answers have values in every relation that keeps those of theirs. -/
theorem of_kept (hbuilds : Builds owner V W) {x : m BoundTy} {y : n BoundTy} (h : L.rel V x y) :
    L.rel W x y := by
  have hmap : L.rel W (id <$> x) (id <$> y) := L.map h fun t u htu => hbuilds.kept htu
  rwa [id_map, id_map] at hmap

include h hbuilds

/-- Symbols have related types if their declarations do. -/
theorem of_symbol (howner : owner s)
    (hdeclaration : ∀ d, s.declaration = some d → lower.declaration d ∧ lower.property s d)
    (hend : s.kind.isAlias → lower.symbol (p.aliasEnd s)) :
    L.rel W (a.ofSymbol p s) (b.ofSymbol p s) := by
  have hobject : ∀ shape, W (.object shape (some s)) (.object shape (some s)) := by
    intro shape
    refine hbuilds.object ?_
    rintro _ ⟨⟩
    exact howner
  simp only [Answers.ofSymbol]
  split
  case h_1 | h_2 => exact L.pure (hbuilds.plain (is_plain_of_ambient _))
  case h_3 hd | h_4 hd => exact of_kept hbuilds (h.declaration (hdeclaration _ hd).1 _)
  case h_5 hd => exact of_kept hbuilds (h.property (hdeclaration _ hd).2)
  case h_6 hkind =>
    split
    · exact L.pure (hbuilds.plain rfl)
    · refine of_kept hbuilds (h.symbol (hend ?_))
      simp [hkind, SymbolKind.isAlias]
  case h_7 | h_8 | h_9 | h_10 => exact L.pure (hobject _)
  case h_11 => exact L.pure (hbuilds.plain rfl)

/-- Symbols name related types if what they are aliases of does. -/
theorem of_type_alias
    (hdeclaration : ∀ d, s.declaration = some d → ∀ c ∈ d.subjects, lower.typeNode c) :
    L.rel W (a.ofTypeAlias s) (b.ofTypeAlias s) := by
  simp only [Answers.ofTypeAlias]
  split
  case h_1 hd =>
    refine of_kept hbuilds (h.typeNode (hdeclaration _ hd _ ?_))
    simp [Node.subjects, Node.operands]
  case h_2 => exact L.pure (hbuilds.plain rfl)

include hdescends

/-- Variables have related types. -/
theorem of_declaration (hc : upper.declaration c) :
    L.rel W (a.ofDeclaration isConst c) (b.ofDeclaration isConst c) := by
  obtain ⟨hself, hsubjects⟩ := hdescends.declaration hc
  cases c with
  | variableDeclaration i name type init | parameter i name type init =>
      cases type with
      | some type =>
          have htype := (hsubjects type (by simp [Node.subjects, Node.operands])).2
          exact of_kept hbuilds (h.typeNode htype)
      | none =>
          cases init with
          | none => exact L.pure (hbuilds.plain rfl)
          | some init =>
              have hinit := (hsubjects init (by simp [Node.subjects, Node.operands])).1
              exact h.of_initial hbuilds hinit _
  | bindingElement i name key init isRest => exact L.pure (hbuilds.plain rfl)
  | _ => exact of_kept hbuilds (h.expression hself false)

/-- Properties have related types. -/
theorem of_property (hc : upper.property s c) :
    L.rel W (a.ofProperty p s c) (b.ofProperty p s c) := by
  obtain ⟨howner, hsubjects⟩ := hdescends.property hc
  cases c with
  | propertyAssignment i name init =>
      exact h.of_initial hbuilds (hsubjects init (by simp [Node.subjects])).1 _
  | shorthandPropertyAssignment i name =>
      simp only [Answers.ofProperty]
      split
      case h_1 hlookup =>
        obtain ⟨text, _, hlookup⟩ := Option.bind_eq_some_iff.mp hlookup
        exact of_kept hbuilds (h.symbol (hdescends.propertyName hc hlookup))
      case h_2 => exact L.pure (hbuilds.plain rfl)
  | propertySignature i name type =>
      cases type with
      | some type =>
          have htype := (hsubjects type (by simp [Node.subjects, Node.operands])).2
          exact of_kept hbuilds (h.typeNode htype)
      | none => exact L.pure (hbuilds.plain rfl)
  | methodDeclaration i name body =>
      refine L.pure (hbuilds.object ?_)
      rintro _ ⟨⟩
      exact howner
  | _ => exact L.pure (hbuilds.plain rfl)

/-- Expressions have related types. -/
theorem of_expression (hc : upper.expression c) :
    L.rel W (a.ofExpression p isConst c) (b.ofExpression p isConst c) := by
  have hsubjects := hdescends.expression hc
  cases c with
  | parenthesizedExpression i e | satisfiesExpression i e type =>
      have he := (hsubjects e (by simp [Node.subjects, Node.operands])).1
      exact of_kept hbuilds (h.expression he isConst)
  | asExpression i e type | typeAssertion i type e =>
      have he := (hsubjects e (by simp [Node.subjects, Node.operands])).1
      have htype := (hsubjects type (by simp [Node.subjects, Node.operands])).2.2
      simp only [Answers.ofExpression]
      split
      · exact of_kept hbuilds (h.expression he true)
      · exact of_kept hbuilds (h.typeNode htype)
  | numericLiteral i text => exact L.pure (hbuilds.of_numeric text)
  | bigintLiteral i text => exact L.pure (hbuilds.of_bigint text)
  | regularExpressionLiteral i text | functionExpression i name parameters body =>
      exact L.pure (hbuilds.object (by simp))
  | prefixUnaryExpression i operator operand =>
      have hoperand := (hsubjects operand (by simp [Node.subjects, Node.operands])).1
      simp only [Answers.ofExpression]
      split
      · exact L.pure (hbuilds.plain rfl)
      · split
        · refine L.map (h.expression hoperand false) fun t u htu => ?_
          rw [hbuilds.signed htu]
          exact hbuilds.plain (is_plain_of_signed operator operand u)
        · exact L.pure (hbuilds.plain rfl)
  | arrayLiteral i elements =>
      have hall : L.rel (List.Forall₂ (List.Forall₂ V)) (elements.mapM (a.element isConst))
          (elements.mapM (b.element isConst)) :=
        L.mapM fun e he => h.element (hsubjects e he).2.1 isConst
      exact L.map hall fun _ _ htus => hbuilds.array (List.rel_flatten htus) isConst
  | objectLiteral i properties =>
      exact L.pure (hbuilds.object fun t ht => hdescends.literal ht)
  | identifier i text =>
      simp only [Answers.ofExpression]
      split
      case h_1 hat => exact of_kept hbuilds (h.symbol (hdescends.identifier hc hat))
      case h_2 => exact L.pure (hbuilds.plain rfl)
  | _ => exact L.pure (hbuilds.plain rfl)

/-- Elements add related types. -/
theorem of_element (hc : upper.element c) :
    L.rel (List.Forall₂ W) (a.ofElement isConst c) (b.ofElement isConst c) := by
  obtain ⟨hself, hsubjects⟩ := hdescends.element hc
  cases c with
  | omittedExpression i => exact L.pure (.cons (hbuilds.plain rfl) .nil)
  | spreadElement i e =>
      have he := hsubjects e (by simp [Node.subjects, Node.operands])
      exact L.map (h.expression he isConst) fun _ _ htu => hbuilds.spread htu
  | _ => exact L.map (h.expression hself isConst) fun _ _ htu => .cons (hbuilds.kept htu) .nil

/-- Annotations mean related types. -/
theorem of_type_node (hc : upper.typeNode c) :
    L.rel W (a.ofTypeNode p c) (b.ofTypeNode p c) := by
  have hsubjects := hdescends.typeNode hc
  have hall : ∀ es ⊆ c.subjects, L.rel (List.Forall₂ V) (es.mapM a.typeNode)
      (es.mapM b.typeNode) := by
    intro es hes
    exact L.mapM fun e he => h.typeNode (hsubjects e (hes he)).2
  cases c with
  | literalType i literal =>
      have hliteral := (hsubjects literal (by simp [Node.subjects, Node.operands])).1
      simp only [Answers.ofTypeNode]
      split
      · exact L.pure (hbuilds.plain rfl)
      · split
        · exact of_kept hbuilds (h.expression hliteral false)
        · exact L.pure (hbuilds.plain rfl)
  | keywordType i word => exact L.pure (hbuilds.of_keyword word)
  | tupleType i elements =>
      exact L.map (hall elements (List.Subset.refl _)) fun _ _ htus => hbuilds.reference htus
  | arrayType i element =>
      have helement := (hsubjects element (by simp [Node.subjects, Node.operands])).2
      exact L.map (h.typeNode helement) fun _ _ htu => hbuilds.reference (.cons htu .nil)
  | typeOperator i operator type =>
      have htype := (hsubjects type (by simp [Node.subjects, Node.operands])).2
      simp only [Answers.ofTypeNode]
      split
      · exact L.map (h.typeNode htype) fun _ _ htu => hbuilds.asReadonly htu
      · exact L.pure (hbuilds.plain rfl)
  | typeReference i name arguments =>
      simp only [Answers.ofTypeNode]
      refine L.bind (hall arguments (List.subset_cons_self name arguments)) fun ts us htus => ?_
      split
      case h_1 hlookup =>
        obtain ⟨text, _, hlookup⟩ := Option.bind_eq_some_iff.mp hlookup
        exact of_kept hbuilds (h.namedType (hdescends.typeName hc hlookup))
      case h_2 => exact L.pure (hbuilds.builtin htus _)
  | typeLiteral i members =>
      exact L.pure (hbuilds.object fun t ht => hdescends.literal ht)
  | unionType i types =>
      exact L.map (hall types (List.Subset.refl _)) fun _ _ htus => hbuilds.unionOf htus
  | _ => exact L.pure (hbuilds.plain rfl)

/-- Steps from related answers lead to related answers, if they treat symbols alike. -/
theorem step {fs ft : BoundSymbol → m BoundTy} {gs gt : BoundSymbol → n BoundTy}
    (hsymbol : ∀ s, upper.symbol s → L.rel W (fs s) (gs s))
    (hnamed : ∀ s, upper.namedType s →
      owner s ∧ (s.kind = .typeAlias → L.rel W (ft s) (gt s))) :
    Related L W upper (a.step p fs ft) (b.step p gs gt) where
  symbol hs := hsymbol _ hs
  declaration hd isConst := h.of_declaration hbuilds hdescends isConst hd
  property hd := h.of_property hbuilds hdescends hd
  expression he isConst := h.of_expression hbuilds hdescends isConst he
  element he isConst := h.of_element hbuilds hdescends isConst he
  typeNode he := h.of_type_node hbuilds hdescends he
  namedType {s} hs := by
    obtain ⟨howner, htarget⟩ := hnamed s hs
    have hobject : ∀ shape, W (.object shape (some s)) (.object shape (some s)) := by
      intro shape
      refine hbuilds.object ?_
      rintro _ ⟨⟩
      exact howner
    simp only [Answers.step, Answers.ofNamedType]
    split
    case h_1 hkind => exact htarget hkind
    case h_2 | h_3 => exact L.pure (hobject _)
    case h_4 => exact L.pure (hbuilds.plain rfl)

end Related

end Typing

end StaticLiteral
