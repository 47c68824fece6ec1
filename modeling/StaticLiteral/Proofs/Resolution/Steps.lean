import StaticLiteral.Proofs.Depth
import StaticLiteral.Proofs.Syntax.Height
import StaticLiteral.Resolution.Resolve

/-!
# One step of resolving

A request is answered from answers one level down, like a question about types. `Answers` are
answers to the requests for nodes, symbols and types, in any monad in which failures can be thrown;
`Answers.ofNode`, `Answers.ofValue` and `Answers.ofType` are the answers that follow from them, as
`answers_succ` says of resolving.

Resolving with two models, with guards and without, or with marks in place of guards, is compared
step by step. A step from answers that a `Lifting` relates between equals leads to such answers, as
long as it throws what is thrown alike (`Lifting.Throws`): `Related.of_node`, `Related.of_value` and
`Related.of_type` go through resolving once for all these comparisons.
-/

namespace StaticLiteral

/-- The nodes whose values the value of a node is made of. -/
def Node.valueParts : Node → List Node
  | .prefixUnaryExpression _ _ e | .parenthesizedExpression _ e | .computedPropertyName _ e
  | .asExpression _ e _ | .typeAssertion _ _ e | .variableDeclaration _ _ _ (some e) => [e]
  | .arrayLiteral _ elements => elements
  | .objectLiteral _ properties => properties.flatMap fun
    | .propertyAssignment _ name init => [name, init]
    | _ => []
  | .templateExpression _ _ spans => spans.flatMap fun
    | .templateSpan _ e _ => [e]
    | _ => []
  | _ => []

/-- The parts that the value of a node is made of are less high than the node. -/
theorem Node.height_lt_of_mem_value_parts {n c : Node} (h : c ∈ n.valueParts) :
    c.height < n.height := by
  cases n with
  | prefixUnaryExpression | parenthesizedExpression | computedPropertyName | asExpression
  | typeAssertion =>
      obtain rfl := List.mem_singleton.mp h
      simp only [height]
      omega
  | variableDeclaration i name type init =>
      cases init with
      | none => cases h
      | some e =>
          obtain rfl := List.mem_singleton.mp h
          simp only [height, heightOfOption]
          omega
  | arrayLiteral i elements =>
      have hle : c.height ≤ heightOfAll elements := height_le_height_of_all h
      simp only [height]
      omega
  | objectLiteral i properties =>
      obtain ⟨property, hproperty, h⟩ := List.mem_flatMap.mp h
      have hle := height_le_height_of_all hproperty
      cases property with
      | propertyAssignment j name init =>
          simp only [height] at hle ⊢
          simp only [List.mem_cons, List.not_mem_nil, or_false] at h
          rcases h with rfl | rfl <;> omega
      | _ => cases h
  | templateExpression i head spans =>
      obtain ⟨span, hspan, h⟩ := List.mem_flatMap.mp h
      have hle := height_le_height_of_all hspan
      cases span with
      | templateSpan j e literal =>
          simp only [height] at hle ⊢
          obtain rfl := List.mem_singleton.mp h
          omega
      | _ => cases h
  | _ => cases h

namespace Resolution

/-- Answers to the requests for nodes, symbols and types. -/
structure Answers (ι τ : Type) (m : Type → Type) where
  node : Node → m (Option Value)
  symbol : Symbol ι → m (Option Value)
  type : τ → m (Option Value)

namespace Answers

variable {ι τ : Type} {m : Type → Type} [Monad m] [MonadExcept Failure m] (below : Answers ι τ m)
  (model : SemanticModel ι τ)

/-- The entries of an object, put together from its assignments. -/
def entriesOf :
    List (Text × Option Value) → List Node → m (List (Text × Option Value))
  | entries, [] => return entries
  | entries, .propertyAssignment _ name init :: rest => do
    match ← MonadExcept.ofExcept (coerced (← below.node name)) with
    | none => entriesOf entries rest
    | some key =>
      let value ← below.node init
      entriesOf (putEntry key value entries) rest
  | entries, _ :: rest => entriesOf entries rest

/-- The text of a template, put together from its parts. -/
def textOf : Text → List Node → m (Option Text)
  | text, [] => return some text
  | text, .templateSpan _ expression literal :: rest => do
    match ← MonadExcept.ofExcept (coerced (← below.node expression)) with
    | none => return none
    | some part => textOf (text ++ part ++ literal) rest
  | text, _ :: rest => textOf text rest

/-- The value of a node. -/
def ofNode (node : Node) : m (Option Value) :=
  match node with
  | .numericLiteral _ text => return numericLiteral text
  | .bigintLiteral _ text => return bigintLiteral text
  | .stringLiteral _ text | .templateLiteral _ text => return some (.text text)
  | .regularExpressionLiteral _ text =>
    MonadExcept.ofExcept (regularExpression model.characterNames text)
  | .trueKeyword _ => return some (.boolean true)
  | .falseKeyword _ => return some (.boolean false)
  | .prefixUnaryExpression _ operator operand =>
    if operator = Text.ofString "-" then negated <$> below.node operand else return none
  | .arrayLiteral _ elements => do
    return some (.array (← elements.mapM below.node))
  | .parenthesizedExpression _ e | .computedPropertyName _ e | .asExpression _ e _
  | .typeAssertion _ _ e => below.node e
  | .variableDeclaration _ _ _ initializer =>
    match initializer with
    | some e => below.node e
    | none => return none
  | .objectLiteral _ properties => do
    return some (.object (← below.entriesOf [] properties))
  | .templateExpression _ head spans => do
    return (← below.textOf head spans).map .text
  | .identifier _ text => do
    match ← MonadExcept.ofExcept (model.symbolAt node) with
    | none => return some (.text text)
    | some symbol => below.symbol symbol
  | _ => return none

/-- What a symbol stands for, if `typeOf` are the types of symbols. -/
def ofValue (typeOf : Symbol ι → m τ) (symbol : Symbol ι) : m (Option Value) :=
  match symbol.kind, symbol.declaration with
  | .property, _ => return some (.text symbol.name)
  | .objectLiteral, some declaration | .blockScopedVariable, some declaration =>
    below.node declaration
  | _, _ => do below.type (← typeOf symbol)

/-- The value that a type leaves no choice about. -/
def ofType (type : τ) : m (Option Value) :=
  match model.view type with
  | .text t => return some (.text t)
  | .number x => return some (.number x)
  | .reference => do
    return some (.array (← (model.arguments type).mapM below.type))
  | .object symbol => below.symbol symbol
  | .other => return none

/-- A node resolves to the same with models that have the same symbols of nodes and the same names
of characters. -/
theorem of_node_congr {other : SemanticModel ι τ} (hsymbolAt : other.symbolAt = model.symbolAt)
    (hnames : other.characterNames = model.characterNames) :
    below.ofNode other = below.ofNode model := by
  funext n
  simp only [ofNode, hsymbolAt, hnames]

end Answers

/-! ## Comparing steps -/

variable {ι τ : Type} {model : SemanticModel ι τ}

/-- Whether a primitive can be written does not depend on the depth. -/
theorem coerced_ne_too_deep (value : Option Value) : coerced value ≠ .error .tooDeep := by
  unfold coerced
  split
  · simp
  · split <;> simp

/-- A pattern is read within a limit of its own. -/
theorem regular_expression_ne_too_deep (characterNames : CharacterNames) (text : Text) :
    regularExpression characterNames text ≠ .error .tooDeep := by
  unfold regularExpression
  split <;> simp

/-- The requests that are compared. -/
structure Domain (ι τ : Type) where
  node : Node → Prop
  symbol : Symbol ι → Prop
  type : τ → Prop

/-- All requests. -/
def Domain.all (ι τ : Type) : Domain ι τ where
  node _ := True
  symbol _ := True
  type _ := True

variable {m n : Type → Type} [Monad m] [Monad n]

/-- The answers to the requests in a domain are related between equals. -/
structure Related (L : Lifting m n) (D : Domain ι τ) (a : Answers ι τ m) (b : Answers ι τ n) :
    Prop where
  node : ∀ {e}, D.node e → L.rel Eq (a.node e) (b.node e)
  symbol : ∀ {s}, D.symbol s → L.rel Eq (a.symbol s) (b.symbol s)
  type : ∀ {t}, D.type t → L.rel Eq (a.type t) (b.type t)

namespace Related

variable {L : Lifting m n} {D : Domain ι τ} {a : Answers ι τ m} {b : Answers ι τ n}
  (h : Related L D a b)
include h

/-- A step from related answers leads to related answers about what a symbol stands for, if its
declaration is compared and going on from its type is. -/
theorem of_value {s : Symbol ι} {f : Symbol ι → m τ} {g : Symbol ι → n τ}
    (hdeclaration : ∀ d, s.declaration = some d → D.node d)
    (htype : L.rel Eq (f s >>= a.type) (g s >>= b.type)) :
    L.rel Eq (a.ofValue f s) (b.ofValue g s) := by
  simp only [Answers.ofValue]
  split
  case h_1 => exact L.pure rfl
  case h_2 hd | h_3 hd => exact h.node (hdeclaration _ hd)
  case h_4 => exact htype

section

variable [LawfulMonad m] [LawfulMonad n]

/-- A step from related answers leads to related answers about a type, if its arguments and the
symbol of an object are compared. -/
theorem of_type {t : τ} (harguments : model.view t = .reference → ∀ u ∈ model.arguments t, D.type u)
    (hsymbol : ∀ s, model.view t = .object s → D.symbol s) :
    L.rel Eq (a.ofType model t) (b.ofType model t) := by
  simp only [Answers.ofType]
  split
  case h_3 hview =>
    have hall : L.rel (List.Forall₂ Eq) ((model.arguments t).mapM a.type)
        ((model.arguments t).mapM b.type) := L.mapM fun u hu => h.type (harguments hview u hu)
    exact L.bind hall fun _ _ heq => L.pure (by rw [forall₂_eq heq])
  case h_4 s hview => exact h.symbol (hsymbol s hview)
  all_goals exact L.pure rfl

end

variable [MonadExcept Failure m] [MonadExcept Failure n] (hthrows : L.Throws)
include hthrows

/-- The entries of an object are related if names and values of its properties are compared. -/
theorem of_entries {properties : List Node} (hparts : ∀ i name init,
      .propertyAssignment i name init ∈ properties → D.node name ∧ D.node init)
    (entries : List (Text × Option Value)) :
    L.rel Eq (a.entriesOf entries properties) (b.entriesOf entries properties) := by
  induction properties generalizing entries with
  | nil => exact L.pure rfl
  | cons property rest ih =>
      have hrest := ih fun i name init hmem => hparts i name init (List.mem_cons_of_mem _ hmem)
      cases property with
      | propertyAssignment i name init =>
          obtain ⟨hname, hinit⟩ := hparts i name init List.mem_cons_self
          simp only [Answers.entriesOf]
          refine L.bind (h.node hname) fun value _ heq => ?_
          subst heq
          refine L.bind (hthrows.of_except (coerced_ne_too_deep value)) fun key _ heq => ?_
          subst heq
          cases key with
          | none => exact hrest entries
          | some key =>
              refine L.bind (h.node hinit) fun stored _ heq => ?_
              subst heq
              exact hrest _
      | _ => exact hrest entries

/-- The text of a template is related if what its spans put into it is compared. -/
theorem of_text {spans : List Node}
    (hparts : ∀ i e literal, .templateSpan i e literal ∈ spans → D.node e) (text : Text) :
    L.rel Eq (a.textOf text spans) (b.textOf text spans) := by
  induction spans generalizing text with
  | nil => exact L.pure rfl
  | cons span rest ih =>
      have hrest := ih fun i e literal hmem => hparts i e literal (List.mem_cons_of_mem _ hmem)
      cases span with
      | templateSpan i e literal =>
          simp only [Answers.textOf]
          refine L.bind (h.node (hparts i e literal List.mem_cons_self)) fun value _ heq => ?_
          subst heq
          refine L.bind (hthrows.of_except (coerced_ne_too_deep value)) fun part _ heq => ?_
          subst heq
          cases part with
          | none => exact L.pure rfl
          | some part => exact hrest _
      | _ => exact hrest text

variable [LawfulMonad m] [LawfulMonad n]

/-- A step from related answers leads to related answers about a node, if its parts and the symbol
of a name are compared. -/
theorem of_node {e : Node} (hparts : ∀ c ∈ e.valueParts, D.node c)
    (hstop : ∀ failure, model.symbolAt e = .error failure →
      L.rel (fun _ _ : Option (Symbol ι) => False) (throw failure) (throw failure))
    (hsymbol : ∀ s, e.identifier?.isSome → model.symbolAt e = .ok (some s) → D.symbol s) :
    L.rel Eq (a.ofNode model e) (b.ofNode model e) := by
  cases e with
  | prefixUnaryExpression i operator operand =>
      simp only [Answers.ofNode]
      split
      · exact L.map (h.node (hparts operand List.mem_cons_self)) fun _ _ heq => heq ▸ rfl
      · exact L.pure rfl
  | arrayLiteral i elements =>
      have hall : L.rel (List.Forall₂ Eq) (elements.mapM a.node) (elements.mapM b.node) :=
        L.mapM fun c hc => h.node (hparts c hc)
      exact L.bind hall fun _ _ heq => L.pure (by rw [forall₂_eq heq])
  | parenthesizedExpression i c | computedPropertyName i c | asExpression i c type
  | typeAssertion i type c => exact h.node (hparts c List.mem_cons_self)
  | variableDeclaration i name type init =>
      cases init with
      | none => exact L.pure rfl
      | some c => exact h.node (hparts c List.mem_cons_self)
  | objectLiteral i properties =>
      refine L.bind (h.of_entries hthrows (fun j name init hmem => ?_) []) fun _ _ heq =>
        L.pure (heq ▸ rfl)
      have hmem : ∀ c ∈ [name, init], c ∈ (Node.objectLiteral i properties).valueParts :=
        fun c hc => List.mem_flatMap.mpr ⟨_, hmem, hc⟩
      exact ⟨hparts name (hmem name (by simp)), hparts init (hmem init (by simp))⟩
  | templateExpression i head spans =>
      refine L.bind (h.of_text hthrows (fun j c literal hmem => ?_) head) fun _ _ heq =>
        L.pure (heq ▸ rfl)
      exact hparts c (List.mem_flatMap.mpr ⟨_, hmem, List.mem_cons_self⟩)
  | identifier i text =>
      simp only [Answers.ofNode]
      cases hat : model.symbolAt (.identifier i text) with
      | error failure => exact L.bind (hstop failure hat) fun _ _ hfalse => hfalse.elim
      | ok found =>
          show L.rel Eq (Pure.pure found >>= _) (Pure.pure found >>= _)
          rw [pure_bind, pure_bind]
          cases found with
          | none => exact L.pure rfl
          | some s => exact h.symbol (hsymbol s rfl hat)
  | regularExpressionLiteral i text =>
      exact hthrows.of_except (regular_expression_ne_too_deep _ text)
  | _ => exact L.pure rfl

end Related

/-! ## Resolving takes steps -/

/-- An answer is thrown as it is. -/
theorem of_except_eq {α : Type} (answer : Except Failure α) :
    (MonadExcept.ofExcept answer : Except Failure α) = answer := by
  cases answer <;> rfl

/-- The entries of an object are put together as `Answers.entriesOf` does. -/
theorem object_entries_eq_entries_of (below : Answers ι τ (Except Failure))
    (entries : List (Text × Option Value)) (properties : List Node) :
    objectEntries below.node entries properties = below.entriesOf entries properties := by
  induction properties generalizing entries with
  | nil => rfl
  | cons property rest ih =>
      cases property with
      | propertyAssignment i name init =>
          simp only [objectEntries, Answers.entriesOf, of_except_eq]
          refine bind_congr fun value => bind_congr fun key => ?_
          cases key with
          | none => exact ih entries
          | some key => exact bind_congr fun stored => ih _
      | _ => exact ih entries

/-- The text of a template is put together as `Answers.textOf` does. -/
theorem template_text_eq_text_of (below : Answers ι τ (Except Failure)) (text : Text)
    (spans : List Node) : templateText below.node text spans = below.textOf text spans := by
  induction spans generalizing text with
  | nil => rfl
  | cons span rest ih =>
      cases span with
      | templateSpan i expression literal =>
          simp only [templateText, Answers.textOf, of_except_eq]
          refine bind_congr fun value => bind_congr fun part => ?_
          cases part with
          | none => rfl
          | some part => exact ih _
      | _ => exact ih text

variable [DecidableEq ι]

/-- The answers to all requests at a depth. -/
def answers (model : SemanticModel ι τ) (depth : Nat) (busy : List ι) :
    Answers ι τ (Except Failure) where
  node := ofNode model depth busy
  symbol := ofSymbol model depth busy
  type := ofType model depth busy

/-- Resolving takes a step. A symbol is followed first, and then in flight unless it was before. -/
theorem answers_succ (depth : Nat) (busy : List ι) : answers model (depth + 1) busy =
    { node := (answers model depth busy).ofNode model
      symbol := fun s => do
        let s ← followed model s
        if model.guarded ∧ s.id ∈ busy then return none
        (answers model depth (s.id :: busy)).ofValue model.typeOf s
      type := (answers model depth busy).ofType model } := by
  have hentries := object_entries_eq_entries_of (answers model depth busy)
  have htext := template_text_eq_text_of (answers model depth busy)
  simp only [answers, Answers.mk.injEq]
  refine ⟨?_, rfl, rfl⟩
  funext n
  cases n with
  | objectLiteral i properties =>
      exact congrArg (· >>= fun entries => pure (some (Value.object entries)))
        (hentries [] properties)
  | templateExpression i head spans =>
      exact congrArg (· >>= fun text => pure (text.map Value.text)) (htext head spans)
  | regularExpressionLiteral i text => exact (of_except_eq _).symm
  | identifier i text =>
      simp only [ofNode, Answers.ofNode]
      cases model.symbolAt (.identifier i text) with
      | error failure => rfl
      | ok found => cases found <;> rfl
  | _ => rfl

end Resolution

end StaticLiteral
