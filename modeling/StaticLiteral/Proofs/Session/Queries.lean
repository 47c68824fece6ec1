import StaticLiteral.Program.Report
import StaticLiteral.Proofs.Resolution.Steps
import StaticLiteral.Proofs.Session.Typing

/-!
# Queries in a session

A session puts one query after the other to a program, through one checker that keeps its marks
from query to query. Each request to resolve a node has marks of its own, which also keep whatever
it leaves there. `queries_leave_no_marks` says that nothing is left: after each query, whatever it
ended with, no symbol is marked, and so each query is answered as if it were the only one.
-/

namespace StaticLiteral.Session

open Resolution (Answer)

/-- Puts the entries of an object together from its assignments. -/
def entriesOf (resolve : Node → Marking (Option Value)) :
    List (Text × Option Value) → List Node → Marking (List (Text × Option Value))
  | entries, [] => return entries
  | entries, .propertyAssignment _ name init :: rest => do
    match ← MonadExcept.ofExcept (Resolution.coerced (← resolve name)) with
    | none => entriesOf resolve entries rest
    | some key =>
      let value ← resolve init
      entriesOf resolve (putEntry key value entries) rest
  | entries, _ :: rest => entriesOf resolve entries rest

/-- Puts the text of a template together from its parts. -/
def textOf (resolve : Node → Marking (Option Value)) : Text → List Node → Marking (Option Text)
  | text, [] => return some text
  | text, .templateSpan _ expression literal :: rest => do
    match ← MonadExcept.ofExcept (Resolution.coerced (← resolve expression)) with
    | none => return none
    | some part => textOf resolve (text ++ part ++ literal) rest
  | text, _ :: rest => textOf resolve text rest

section

variable (p : Program) (typing : Nat)

/-- Finds out what a symbol stands for: its own name, its declaration, or what its type tells. -/
def valueOf (ofDeclaration : Node → Marking (Option Value))
    (ofType : BoundTy → Marking (Option Value)) (symbol : BoundSymbol) : Marking (Option Value) :=
  match symbol.kind, symbol.declaration with
  | .property, _ => return some (.text symbol.name)
  | .objectLiteral, some declaration | .blockScopedVariable, some declaration =>
    ofDeclaration declaration
  | _, _ => do ofType (← typeOfSymbol p typing symbol)

mutual

/-- Resolves a node. -/
def resolveNode : Nat → Node → Marking (Option Value)
  | 0, _ => throw .tooDeep
  | depth + 1, node =>
    match node with
    | .numericLiteral _ text => return Resolution.numericLiteral text
    | .bigintLiteral _ text => return Resolution.bigintLiteral text
    | .stringLiteral _ text | .templateLiteral _ text => return some (.text text)
    | .regularExpressionLiteral _ text =>
      MonadExcept.ofExcept (Resolution.regularExpression p.config.characterNames text)
    | .trueKeyword _ => return some (.boolean true)
    | .falseKeyword _ => return some (.boolean false)
    | .prefixUnaryExpression _ operator operand =>
      if operator = Text.ofString "-" then Resolution.negated <$> resolveNode depth operand
      else return none
    | .arrayLiteral _ elements => do
      return some (.array (← elements.mapM (resolveNode depth)))
    | .parenthesizedExpression _ e | .computedPropertyName _ e | .asExpression _ e _
    | .typeAssertion _ _ e => resolveNode depth e
    | .variableDeclaration _ _ _ initializer =>
      match initializer with
      | some e => resolveNode depth e
      | none => return none
    | .objectLiteral _ properties => do
      return some (.object (← entriesOf (resolveNode depth) [] properties))
    | .templateExpression _ head spans => do
      return (← textOf (resolveNode depth) head spans).map .text
    | .identifier _ text =>
      match p.symbolAt? node with
      | none => return some (.text text)
      | some symbol => resolveSymbol depth symbol
    | _ => return none

/-- Resolves a symbol. -/
def resolveSymbol : Nat → BoundSymbol → Marking (Option Value)
  | 0, _ => throw .tooDeep
  | depth + 1, symbol =>
    let symbol := if symbol.kind.isAlias then p.aliased symbol else symbol
    Marking.resolving symbol.id none
      (valueOf p typing (resolveNode depth) (resolveType depth) symbol)

/-- Resolves a type. -/
def resolveType : Nat → BoundTy → Marking (Option Value)
  | 0, _ => throw .tooDeep
  | depth + 1, type =>
    match Typing.view type with
    | .text t => return some (.text t)
    | .number x => return some (.number x)
    | .reference => do return some (.array (← (Typing.arguments type).mapM (resolveType depth)))
    | .object symbol => resolveSymbol depth symbol
    | .other => return none

end

/-- The work on each request, going down at most so deep. -/
def resolvingAnswers (depth : Nat) : Resolution.Answers SymbolId BoundTy Marking where
  node := resolveNode p typing depth
  symbol := resolveSymbol p typing depth
  type := resolveType p typing depth

/-- The entries of an object are put together as resolving does. -/
theorem entries_of_eq (below : Resolution.Answers SymbolId BoundTy Marking)
    (entries : List (Text × Option Value)) (properties : List Node) :
    entriesOf below.node entries properties = below.entriesOf entries properties := by
  induction properties generalizing entries with
  | nil => rfl
  | cons property rest ih =>
      cases property with
      | propertyAssignment i name init =>
          simp only [entriesOf, Resolution.Answers.entriesOf]
          refine bind_congr fun value => bind_congr fun key => ?_
          cases key with
          | none => exact ih entries
          | some key => exact bind_congr fun stored => ih _
      | _ => exact ih entries

/-- The text of a template is put together as resolving does. -/
theorem text_of_eq (below : Resolution.Answers SymbolId BoundTy Marking) (text : Text)
    (spans : List Node) : textOf below.node text spans = below.textOf text spans := by
  induction spans generalizing text with
  | nil => rfl
  | cons span rest ih =>
      cases span with
      | templateSpan i expression literal =>
          simp only [textOf, Resolution.Answers.textOf]
          refine bind_congr fun value => bind_congr fun part => ?_
          cases part with
          | none => rfl
          | some part => exact ih _
      | _ => exact ih text

/-- Resolving takes its steps, with marks on the symbols. -/
theorem resolving_answers_succ (depth : Nat) : resolvingAnswers p typing (depth + 1) =
    { node := (resolvingAnswers p typing depth).ofNode (p.modelWithin typing)
      symbol := fun s =>
        let symbol := if s.kind.isAlias then p.aliased s else s
        Marking.resolving symbol.id none
          ((resolvingAnswers p typing depth).ofValue (typeOfSymbol p typing) symbol)
      type := (resolvingAnswers p typing depth).ofType (p.modelWithin typing) } := by
  have hentries := entries_of_eq (resolvingAnswers p typing depth)
  have htext := text_of_eq (resolvingAnswers p typing depth)
  simp only [resolvingAnswers, Resolution.Answers.mk.injEq]
  refine ⟨?_, rfl, ?_⟩
  · funext n
    cases n with
    | objectLiteral i properties =>
        exact congrArg (· >>= fun entries => pure (some (Value.object entries)))
          (hentries [] properties)
    | templateExpression i head spans =>
        exact congrArg (· >>= fun text => pure (text.map Value.text)) (htext head spans)
    | identifier i text =>
        show _ = (pure (p.symbolAt? (.identifier i text)) : Marking (Option BoundSymbol)) >>= _
        rw [pure_bind, resolveNode]
        cases p.symbolAt? (.identifier i text) <;> rfl
    | _ => rfl
  · funext t
    have hview : (p.modelWithin typing).view t = Typing.view t := rfl
    simp only [resolveType, Resolution.Answers.ofType, hview]
    cases Typing.view t <;> rfl

end

open Marking

/-- A failure settles as itself. -/
theorem throws_settling (marks : Marks) : (settling marks).Throws :=
  fun e _ => ⟨.error e, .throw e, rfl⟩

variable {p : Program}

/-- Resolving comes out as what is told with the marked symbols as those in flight, and leaves the
marks as it found them. It starts with no type being worked out. -/
theorem settles_of_resolving (typing depth : Nat) :
    ∀ busy : List SymbolId,
      Resolution.Related (settling (.on [] busy)) (.all SymbolId BoundTy)
        (resolvingAnswers p typing depth)
        (Resolution.answers (p.modelWithin typing) depth busy) := by
  induction depth with
  | zero =>
      intro busy
      constructor
      all_goals intros; exact ⟨_, .throw _, rfl⟩
  | succ depth ih =>
      intro busy
      rw [resolving_answers_succ, Resolution.answers_succ]
      refine ⟨fun _ => ?_, fun {s} _ => ?_, fun _ => ?_⟩
      · exact (ih busy).of_node (throws_settling _) (fun _ _ => trivial)
          (fun _ hstop => nomatch hstop) fun _ _ _ => trivial
      · have hfollowed : Resolution.followed (p.modelWithin typing) s =
            .ok (if s.kind.isAlias then p.aliased s else s) := by
          unfold Resolution.followed
          split <;> rfl
        simp only [hfollowed]
        generalize (if s.kind.isAlias then p.aliased s else s) = target
        refine settles_iff.mp ?_
        show Settles _ _ (if true = true ∧ target.id ∈ busy then _ else _)
        simp only [true_and]
        refine .resolving fun _ => settles_iff.mpr ?_
        have hbelow := ih (target.id :: busy)
        refine hbelow.of_value (fun _ _ => trivial) ?_
        have htype := settles_type_of_symbol (p := p) typing [] (target.id :: busy) target
        exact (settling _).bind (settles_iff.mp htype) fun t _ heq => heq ▸ hbelow.type trivial
      · exact (ih busy).of_type (fun _ _ _ => trivial) fun _ _ => trivial

/-- How deep the checker and the resolver may go for a query. -/
structure Limits where
  typing : Nat := Typing.depthLimit
  resolving : Nat := Resolution.depthLimit

/-- A query that can be put to a program. -/
inductive Query where
  | symbolAt (node : Node)
  | aliased (symbol : BoundSymbol)
  | typeOfSymbol (symbol : BoundSymbol)
  | typeOfExpression (node : Node)
  | typeOfAnnotation (node : Node)
  | literal (node : Node)

/-- What a query comes back with. -/
inductive Reply where
  | found (symbol : Option BoundSymbol)
  | aliased (symbol : BoundSymbol)
  | type (answer : TypeAnswer)
  | literal (outcome : Resolution.Outcome)

namespace Query

/-- The answer of a program that is asked nothing else. -/
def answer (p : Program) (limits : Limits) : Query → Reply
  | symbolAt node => .found (p.symbolAt? node)
  | aliased symbol => .aliased (p.aliased symbol)
  | typeOfSymbol symbol => .type (Typing.ofSymbol p true limits.typing [] symbol)
  | typeOfExpression node => .type (Typing.ofExpression p true limits.typing [] false node)
  | typeOfAnnotation node => .type (Typing.ofTypeNode p true limits.typing [] node)
  | literal node =>
    .literal (.ofAnswer node
      (Resolution.ofNode (p.modelWithin limits.typing) limits.resolving [] node))

/-- Puts a query to a program. A request to resolve a node starts with nothing being resolved; a
failure ends the query and not the session. -/
def ask (p : Program) (limits : Limits) : Query → StateM Marks Reply
  | symbolAt node => return .found (p.symbolAt? node)
  | aliased symbol => return .aliased (p.aliased symbol)
  | typeOfSymbol symbol => .type <$> (Session.typeOfSymbol p limits.typing symbol).run
  | typeOfExpression node => .type <$> (Session.typeOfExpression p limits.typing false node).run
  | typeOfAnnotation node => .type <$> (typeOfTypeNode p limits.typing node).run
  | literal node => do
    modify fun marks => { marks with resolving := ∅ }
    return .literal (.ofAnswer node (← (resolveNode p limits.typing limits.resolving node).run))

end Query

/-- Puts the next query to a program. The reply comes with the marks that are left when the query
has ended. -/
def next (p : Program) (asked : Limits × Query) : StateM Marks (Reply × Marks) := do
  let reply ← asked.2.ask p asked.1
  return (reply, ← get)

/-- Puts queries to a program, one after the other. -/
def run (p : Program) (asked : List (Limits × Query)) : StateM Marks (List (Reply × Marks)) :=
  asked.mapM (next p)

/-- A reply that is made of what work came out as. -/
theorem reply_of_settles {α : Type} {marks : Marks} {work : Marking α} {answer : Except Failure α}
    (h : Settles marks work answer) (reply : Except Failure α → Reply) :
    (reply <$> ExceptT.run work).run marks = (reply answer, marks) := by
  have hrun : (ExceptT.run work).run marks = (answer, marks) := h
  rw [StateT.run_map, hrun]
  rfl

/-- A query that is put while no symbol is marked is answered as if it were the only one, and leaves
no mark. -/
theorem run_ask (p : Program) (limits : Limits) (query : Query) :
    (query.ask p limits).run {} = (query.answer p limits, {}) := by
  have htyping := settles_of_depth (p := p) limits.typing [] []
  have hresolving := settles_of_resolving (p := p) limits.typing limits.resolving []
  cases query with
  | symbolAt node => rfl
  | aliased symbol => rfl
  | typeOfSymbol symbol => exact reply_of_settles (settles_iff.mpr (htyping.symbol trivial)) .type
  | typeOfExpression node =>
      exact reply_of_settles (settles_iff.mpr (htyping.expression trivial false)) .type
  | typeOfAnnotation node =>
      exact reply_of_settles (settles_iff.mpr (htyping.typeNode trivial)) .type
  | literal node =>
      exact reply_of_settles (settles_iff.mpr (hresolving.node trivial)) fun answer =>
        .literal (.ofAnswer node answer)

/-- Queries leave no trace: whatever queries are put to a program in whatever order, and whatever
they end with, no symbol is marked when one of them has ended, and each reply is the answer of a
program that is asked nothing else. -/
theorem queries_leave_no_marks (p : Program) (asked : List (Limits × Query)) :
    (run p asked).run {} = (asked.map fun (limits, query) => (query.answer p limits, {}), {}) := by
  induction asked with
  | nil => rfl
  | cons first rest ih =>
      have hfirst : (next p first).run {} = ((first.2.answer p first.1, {}), {}) := by
        rw [next, StateT.run_bind, run_ask]
        rfl
      have hrest : ((next p first).run {} >>= fun (reply, marks) =>
          (run p rest).run marks >>= fun (replies, marks) => pure (reply :: replies, marks)) =
          (run p (first :: rest)).run {} := by
        simp only [run, List.mapM_cons, StateT.run_bind, StateT.run_pure]
      rw [← hrest, hfirst]
      show ((run p rest).run {} >>= fun (replies, marks) =>
        pure ((first.2.answer p first.1, {}) :: replies, marks)) = _
      rw [ih]
      rfl

end StaticLiteral.Session
