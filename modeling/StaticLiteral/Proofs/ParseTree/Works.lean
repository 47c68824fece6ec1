import StaticLiteral.Proofs.ParseTree.Making

/-!
# The work of making syntax

All ways to make syntax are put together from a few steps: `Follows` lists them, each beside what it
is when the nesting is not part of the setting but a counter that goes up and down. What is to hold
of all ways is shown for each of the steps; that there are no others is `Makers.works_of_depth`,
which also says where a name may be missing: only in a tree that `ParseTree.LacksName`.
-/

namespace StaticLiteral

open MakeSyntax

namespace ParseTree

variable {n c : ParseTree}

/-- An entry of the list that the statement imports has neither a name nor an alias. -/
structure IsNamelessImport (n : ParseTree) : Prop where
  type : n.type = "import_statement"
  source : (n.child? "source").isSome
  entry : ∃ clause, n.named.find? (·.type == "import_clause") = some clause ∧
    ∃ list ∈ clause.named, list.type = "named_imports" ∧
      ∃ entry ∈ list.named, entry.type = "import_specifier" ∧
        entry.child? "name" = none ∧ entry.child? "alias" = none

/-- There is such an import somewhere in the tree. -/
inductive LacksName : ParseTree → Prop where
  | nameless {n : ParseTree} (h : n.IsNamelessImport) : LacksName n
  | inside {n c : ParseTree} (hc : c ∈ n.children) (h : LacksName c) : LacksName n

namespace LacksName

/-- A name that is lacking in a named child is lacking in the tree. -/
theorem of_named (hc : c ∈ n.named) (h : c.LacksName) : n.LacksName :=
  .inside (List.mem_filter.mp hc).1 h

/-- A name that is lacking in the child of a field is lacking in the tree. -/
theorem of_field {field : String} (hc : c ∈ n.child? field) (h : c.LacksName) : n.LacksName :=
  .inside (List.mem_of_find?_eq_some hc) h

/-- A name that is lacking in the first named child is lacking in the tree. -/
theorem of_first (hc : c ∈ n.firstNamed?) (h : c.LacksName) : n.LacksName :=
  h.of_named (List.mem_of_head? hc)

end LacksName

end ParseTree

/-- What is kept while the syntax of a file is made: a counter of the nesting, and the anomalies
noted so far. -/
structure Progress where
  nesting : Nat := 0
  anomalies : List Anomaly := []

/-- Making syntax with a counter. A stop leaves counter and anomalies as they are. -/
abbrev Counting (α : Type) := ReaderT SyntaxContext (ExceptT SyntaxStop (StateM Progress)) α

namespace Counting

variable {α : Type}

/-- Work that does not touch the counter. -/
def aside (make : MakeSyntax α) : Counting α := fun ctx => ExceptT.mk fun progress =>
  let (outcome, anomalies) := (make { ctx with nesting := progress.nesting }).run progress.anomalies
  (outcome, { progress with anomalies := anomalies })

/-- Makes syntax one level further down: the counter goes up before and down after, also if the work
stops. At the limit the tree is cut off instead, which is noted for the first time. -/
def guarded (n : ParseTree) (cut : Info → α) (run : Counting α) : Counting α := do
  let limit := (← read).maxNesting
  let progress ← get
  if limit ≤ progress.nesting then
    if !progress.anomalies.any fun a => a.reason = .nestingTooDeep then
      aside (note .nestingTooDeep n (nestingDetail limit))
    return cut (← aside (info n))
  else
    modify fun progress => { progress with nesting := progress.nesting + 1 }
    try run finally modify fun progress => { progress with nesting := progress.nesting - 1 }

end Counting

/-- The steps of making syntax, each beside the same step with a counter. -/
inductive Follows : {α : Type} → MakeSyntax α → Counting α → Prop where
  | pure {α : Type} (a : α) : Follows (Pure.pure a) (Pure.pure a)
  | throw {α : Type} (stop : SyntaxStop) :
      Follows (α := α) (MonadExcept.throw stop) (MonadExcept.throw stop)
  | info (n : ParseTree) : Follows (info n) (.aside (info n))
  | textBetween (start : Nat) (stop : Int) :
      Follows (textBetween start stop) (.aside (textBetween start stop))
  | invalidEscape (n : ParseTree) (detail : Text) :
      Follows (note .invalidEscape n detail) (.aside (note .invalidEscape n detail))
  | bind {α β : Type} {make : MakeSyntax α} {run : Counting α} {f : α → MakeSyntax β}
      {g : α → Counting β} (h : Follows make run) (hf : ∀ a, Follows (f a) (g a)) :
      Follows (make >>= f) (run >>= g)
  | guarded {α : Type} {make : MakeSyntax α} {run : Counting α} (n : ParseTree) (cut : Info → α)
      (h : Follows make run) : Follows (guarded n cut make) (.guarded n cut run)

variable {α β : Type} {make : MakeSyntax α} {lacks lacks' : Prop} {n c : ParseTree}

/-- The work is put together from steps, and stops for a missing name only if one is lacking. -/
structure IsWork (lacks : Prop) (make : MakeSyntax α) : Prop where
  steps : ∃ run, Follows make run
  names : ∀ ctx anomalies rest, (make ctx).run anomalies = (.error .missingName, rest) → lacks

namespace IsWork

/-- Making nothing is work. -/
theorem pure (a : α) : IsWork lacks (Pure.pure a) := ⟨⟨_, .pure a⟩, nofun⟩

/-- Work may stop for its depth: no name has to be lacking for that. -/
theorem too_deep : IsWork lacks (MonadExcept.throw .tooDeep : MakeSyntax α) :=
  ⟨⟨_, .throw .tooDeep⟩, nofun⟩

/-- Work stops for a missing name where one is lacking. -/
theorem missing_name (h : lacks) : IsWork lacks (MonadExcept.throw .missingName : MakeSyntax α) :=
  ⟨⟨_, .throw .missingName⟩, fun _ _ _ _ => h⟩

/-- The info of a tree is work. -/
theorem info (n : ParseTree) : IsWork lacks (info n) := ⟨⟨_, .info n⟩, nofun⟩

/-- Reading the text between two offsets is work. -/
theorem text_between (start : Nat) (stop : Int) : IsWork lacks (textBetween start stop) :=
  ⟨⟨_, .textBetween start stop⟩, nofun⟩

/-- Noting an escape that denotes nothing is work. -/
theorem invalid_escape (n : ParseTree) (detail : Text) :
    IsWork lacks (note .invalidEscape n detail) := ⟨⟨_, .invalidEscape n detail⟩, nofun⟩

/-- Work that goes on with what was made before. -/
theorem bind {f : α → MakeSyntax β} (h : IsWork lacks make) (hf : ∀ a, IsWork lacks (f a)) :
    IsWork lacks (make >>= f) where
  steps := by
    obtain ⟨run, hrun⟩ := h.steps
    obtain ⟨g, hg⟩ := Classical.axiomOfChoice fun a => (hf a).steps
    exact ⟨run >>= g, .bind hrun hg⟩
  names ctx anomalies rest hrun := by
    rw [run_bind] at hrun
    split at hrun
    case h_1 a between _ => exact (hf a).names ctx between rest hrun
    case h_2 stop between hstop =>
      obtain rfl : stop = .missingName := Except.error.inj (congrArg Prod.fst hrun)
      exact h.names ctx anomalies between hstop

/-- Work that changes what was made before. -/
theorem map {f : α → β} (h : IsWork lacks make) : IsWork lacks (f <$> make) := by
  rw [map_eq_pure_bind]
  exact h.bind fun a => .pure (f a)

/-- Work on one thing after the other. -/
theorem mapM {f : α → MakeSyntax β} {xs : List α} (h : ∀ x ∈ xs, IsWork lacks (f x)) :
    IsWork lacks (xs.mapM f) := by
  induction xs with
  | nil => exact .pure []
  | cons x rest ih =>
      obtain ⟨hx, hrest⟩ := List.forall_mem_cons.mp h
      rw [List.mapM_cons]
      exact .bind hx fun _ => .bind (ih hrest) fun _ => .pure _

/-- Work one level further down is work: what is lacking there is lacking here. -/
theorem guarded (n : ParseTree) (cut : Info → α) (h : IsWork lacks make) :
    IsWork lacks (guarded n cut make) where
  steps := by
    obtain ⟨run, hrun⟩ := h.steps
    exact ⟨.guarded n cut run, .guarded n cut hrun⟩
  names ctx anomalies rest hrun := by
    rw [run_guarded] at hrun
    split at hrun
    · cases hrun
    · exact h.names _ anomalies rest hrun

/-- What is lacking in a part is lacking in the whole. -/
theorem mono (h : IsWork lacks make) (himp : lacks → lacks') : IsWork lacks' make :=
  ⟨h.steps, fun ctx anomalies rest hrun => himp (h.names ctx anomalies rest hrun)⟩

/-- Decoding notes nothing but escapes that denote nothing. -/
theorem decoded (t : Text) (n : ParseTree) : IsWork lacks (decoded? t n) := by
  unfold decoded?
  split
  · exact .pure _
  · exact .bind (.invalid_escape n _) fun _ => .pure _

/-- The text of a tree is work. -/
theorem text (n : ParseTree) : IsWork lacks (text n) := text_between n.start n.stop

/-- An identifier takes the text of the tree. -/
theorem identifier (n : ParseTree) : IsWork lacks (identifier n) := by
  unfold MakeSyntax.identifier
  exact .bind (.info n) fun _ => .bind (.text n) fun _ => .pure _

/-- The text of a string is read, then decoded. -/
theorem string_text (n : ParseTree) : IsWork lacks (stringText n) := by
  unfold stringText
  exact .bind (.text n) fun _ => .bind (.decoded _ n) fun _ => .pure _

end IsWork

namespace MakeSyntax.Makers

variable {m : Makers}

/-- The ways further down are work. -/
structure Works (m : Makers) : Prop where
  statement : ∀ n, IsWork n.LacksName (m.statement n)
  generic : ∀ n, IsWork n.LacksName (m.generic n)
  expression : ∀ n, IsWork n.LacksName (m.expression n)
  type : ∀ n, IsWork n.LacksName (m.type n)
  bindingName : ∀ n, IsWork n.LacksName (m.bindingName n)
  bindingElement : ∀ n, IsWork n.LacksName (m.bindingElement n)

namespace Works

variable (h : m.Works) (n : ParseTree)
include h

/-! ## Trees of any sort

Each lemma goes along the definition that it is about. -/

omit n in
/-- An expression that may be missing is work; a name is lacking only in one that is there. -/
theorem expression_or_missing {o : Option ParseTree} (ho : ∀ c ∈ o, c.LacksName → lacks) :
    IsWork lacks (m.expressionOrMissing o) := by
  cases o with
  | none => exact .pure _
  | some c => exact (h.expression c).mono (ho c rfl)

omit n in
/-- An optional expression is work; a name is lacking only in one that is there. -/
theorem optional_expression {o : Option ParseTree} (ho : ∀ c ∈ o, c.LacksName → lacks) :
    IsWork lacks (m.optionalExpression o) := by
  cases o with
  | none => exact .pure _
  | some c => exact .map ((h.expression c).mono (ho c rfl))

/-- The children of a tree of no known type are made one after the other. -/
theorem unknown : IsWork n.LacksName (m.unknown n) := by
  unfold Makers.unknown
  refine .bind (.mapM fun c hc => (h.generic c).mono (.of_named hc)) fun _ => ?_
  exact .bind (.info n) fun _ => .pure _

/-- The statements of a block are made one after the other. -/
theorem block : IsWork n.LacksName (m.block n) := by
  unfold Makers.block
  refine .bind (.mapM fun c hc => (h.statement c).mono (.of_named hc)) fun _ => ?_
  exact .bind (.info n) fun _ => .pure _

omit n in
/-- An optional block is work; a name is lacking only in one that is there. -/
theorem optional_block {o : Option ParseTree} (ho : ∀ c ∈ o, c.LacksName → lacks) :
    IsWork lacks (m.optionalBlock o) := by
  cases o with
  | none => exact .pure _
  | some c => exact .map ((h.block c).mono (ho c rfl))

omit n in
/-- The type of an annotation is the annotation itself or its first named child. -/
theorem type_annotation {o : Option ParseTree} (ho : ∀ c ∈ o, c.LacksName → lacks) :
    IsWork lacks (m.typeAnnotation o) := by
  unfold typeAnnotation
  split
  · exact .pure _
  · next c =>
      refine .mono ?_ (ho c rfl)
      split
      · split
        · next inner hinner => exact .map ((h.type inner).mono (.of_first hinner))
        · exact .pure _
      · exact .map (h.type c)

omit n in
/-- A name or pattern that may be missing is work; a name is lacking only in one that is there. -/
theorem binding_name_or_missing {o : Option ParseTree} (ho : ∀ c ∈ o, c.LacksName → lacks) :
    IsWork lacks (m.bindingNameOrMissing o) := by
  cases o with
  | none => exact .pure _
  | some c => exact (h.bindingName c).mono (ho c rfl)

omit h in
/-- Elements between commas are work if each of them is, holes or not. -/
theorem elements {make : ParseTree → MakeSyntax Node} {ns : List ParseTree}
    (h : ∀ c ∈ ns, IsWork lacks (make c)) (expecting : Bool) :
    IsWork lacks (elements make expecting ns) := by
  induction ns generalizing expecting with
  | nil => exact .pure _
  | cons c rest ih =>
      obtain ⟨hc, hrest⟩ := List.forall_mem_cons.mp h
      have ih := ih hrest
      unfold Makers.elements
      split
      · exact ih expecting
      · split
        · exact .pure _
        · split
          · split
            · exact .bind (.info c) fun _ => .bind (ih true) fun _ => .pure _
            · exact ih true
          · exact .bind hc fun _ => .bind (ih false) fun _ => .pure _

/-! ## Expressions -/

omit h in
/-- A number is a big integer or not, by the last letter of its text. -/
theorem number : IsWork lacks (number n) := by
  unfold Makers.number
  refine .bind (.text n) fun t => ?_
  split
  · exact .bind (.info n) fun _ => .pure _
  · exact .bind (.info n) fun _ => .pure _

omit h in
/-- A string that cannot be decoded becomes an unknown node, which is work as well. -/
theorem string : IsWork lacks (string n) := by
  unfold Makers.string
  refine .bind (.text n) fun t => .bind (.decoded _ n) fun decoded => ?_
  split
  · exact .bind (.info n) fun _ => .pure _
  · exact .bind (.info n) fun _ => .pure _

/-- The substitutions of a template are made one after the other, up to the first chunk that cannot
be decoded. -/
theorem template_spans (hasHead : Bool) {subs : List ParseTree}
    (hsubs : ∀ sub ∈ subs, sub ∈ n.children) :
    IsWork n.LacksName (m.templateSpans n hasHead subs) := by
  induction subs with
  | nil => exact .pure _
  | cons sub rest ih =>
      obtain ⟨hsub, hrest⟩ := List.forall_mem_cons.mp hsubs
      unfold templateSpans
      dsimp only
      refine .bind (.text_between _ _) fun t => .bind (.decoded t n) fun literal => ?_
      split
      · split
        · exact .pure _
        · refine .bind (.mono (h.expression_or_missing fun _ => .of_first) (.inside hsub))
            fun e => .bind (.info sub) fun i => ?_
          exact .bind (ih hrest) fun _ => .pure _
      · exact .pure _

/-- A template is its first chunk and its substitutions, or all of one chunk. -/
theorem template : IsWork n.LacksName (m.template n) := by
  unfold Makers.template
  dsimp only
  split
  · refine .bind (.text_between _ _) fun t => .bind (.decoded t n) fun decoded => ?_
    split
    · exact .bind (.info n) fun _ => .pure _
    · exact .bind (.info n) fun _ => .pure _
  · next hsubs =>
      refine .bind (.text_between _ _) fun t => .bind (.decoded t n) fun head => ?_
      refine .bind (h.template_spans n _ fun sub hsub => ?_) fun spans => ?_
      · exact (List.mem_filter.mp (hsubs ▸ hsub)).1
      · split
        · exact .bind (.info n) fun _ => .pure _
        · exact .bind (.info n) fun _ => .pure _

/-- Of an operator and its operand only the operand is made further down. -/
theorem unary : IsWork n.LacksName (m.unary n) := by
  unfold Makers.unary
  split
  · next operator operand _ hoperand =>
      refine .bind (.info n) fun _ => ?_
      exact .bind ((h.expression operand).mono (.of_field hoperand)) fun _ => .pure _
  · exact h.unknown n

/-- The elements of an array are expressions. -/
theorem array : IsWork n.LacksName (m.array n) := by
  unfold Makers.array
  refine .bind (.info n) fun _ => .bind (elements (fun c hc => ?_) true) fun _ => .pure _
  exact (h.expression c).mono (.inside hc)

omit n in
/-- A property name is an identifier, a literal, or an unknown node. -/
theorem property_name {o : Option ParseTree} (ho : ∀ c ∈ o, c.LacksName → lacks) :
    IsWork lacks (m.propertyName o) := by
  unfold propertyName
  split
  · exact .pure _
  · next c =>
      split
      · exact .identifier _
      · split
        · exact (h.expression c).mono (ho c rfl)
        · exact (h.unknown c).mono (ho c rfl)

/-- A property is made of its name and its value, in each of the four forms. -/
theorem property : IsWork n.LacksName (m.property n) := by
  unfold Makers.property
  split
  · refine .bind (h.property_name fun _ => .of_field) fun _ => ?_
    refine .bind (h.expression_or_missing fun _ => .of_field) fun _ => ?_
    exact .bind (.info n) fun _ => .pure _
  · exact .bind (.info n) fun _ => .bind (.identifier n) fun _ => .pure _
  · refine .bind (.info n) fun _ => ?_
    exact .bind (h.expression_or_missing fun _ => .of_first) fun _ => .pure _
  · refine .bind (h.property_name fun _ => .of_field) fun _ => ?_
    refine .bind (h.optional_block fun _ => .of_field) fun _ => ?_
    exact .bind (.info n) fun _ => .pure _
  · exact h.unknown n

/-- The properties of an object are made one after the other. -/
theorem object : IsWork n.LacksName (m.object n) := by
  unfold Makers.object
  refine .bind (.info n) fun _ => .bind (.mapM fun c hc => ?_) fun _ => .pure _
  exact (h.property c).mono (.of_named hc)

/-- An assertion that does not say `const` has a type to make. -/
theorem asserted_type : IsWork n.LacksName (m.assertedType n) := by
  unfold assertedType
  split
  · exact .pure _
  · split
    · next type _ hnamed => exact (h.type type).mono (.of_named (by simp [hnamed]))
    · exact .pure _

/-- An assertion is made of the expression and its type. -/
theorem as_expression : IsWork n.LacksName (m.asExpression n) := by
  unfold Makers.asExpression
  refine .bind (h.expression_or_missing fun _ => .of_first) fun _ => ?_
  exact .bind (h.asserted_type n) fun _ => .bind (.info n) fun _ => .pure _

/-- A satisfies expression is made of the expression and, where there is one, its type. -/
theorem satisfies : IsWork n.LacksName (m.satisfies n) := by
  unfold Makers.satisfies
  refine .bind (h.expression_or_missing fun _ => .of_first) fun e => ?_
  have hend : ∀ type, IsWork n.LacksName (MakeSyntax.info n >>= fun i =>
      Pure.pure (Node.satisfiesExpression i e type)) := fun _ => .bind (.info n) fun _ => .pure _
  dsimp only
  split
  · next type _ hnamed => exact .bind ((h.type type).mono (.of_named (by simp [hnamed]))) hend
  · exact .bind (.pure _) hend

/-- An assertion in angle brackets has the type before the expression; the expression is the last
named child. -/
theorem type_assertion : IsWork n.LacksName (m.typeAssertion n) := by
  unfold Makers.typeAssertion
  split
  · next brackets second rest hnamed =>
      have hlast : rest.getLast?.getD second ∈ n.named := by
        rw [hnamed]
        cases hlast : rest.getLast? with
        | none => simp
        | some last => simp [List.mem_of_getLast? hlast]
      have hend : ∀ type, IsWork n.LacksName (m.expression (rest.getLast?.getD second) >>= fun e =>
          MakeSyntax.info n >>= fun i => Pure.pure (Node.typeAssertion i type e)) := fun _ =>
        .bind ((h.expression _).mono (.of_named hlast)) fun _ => .bind (.info n) fun _ => .pure _
      refine .bind (.text _) fun t => ?_
      dsimp only
      split
      · exact .bind (.pure _) hend
      · have hbrackets : brackets ∈ n.named := by simp [hnamed]
        split
        · next inner hinner =>
            exact .bind (.mono ((h.type inner).mono (.of_first hinner)) (.of_named hbrackets)) hend
        · exact .bind (.pure _) hend
  · exact h.unknown n

/-- Parameters are a single name or the named children of a list. -/
theorem parameters : IsWork n.LacksName (m.parameters n) := by
  unfold Makers.parameters
  split
  · next single hsingle =>
      refine .bind ((h.bindingName single).mono (.of_field hsingle)) fun _ => ?_
      exact .bind (.info single) fun _ => .pure _
  · exact .pure _
  · next list _ hlist =>
      refine .mono (.mapM fun p hp => ?_) (.of_field hlist)
      refine .mono ?_ (.of_named (List.mem_filter.mp hp).1)
      refine .bind (h.binding_name_or_missing fun _ => .of_field) fun _ => ?_
      refine .bind (h.type_annotation fun _ => .of_field) fun _ => ?_
      refine .bind (h.optional_expression fun _ => .of_field) fun _ => ?_
      exact .bind (.info p) fun _ => .pure _

omit h in
/-- An optional identifier is work, and nothing is lacking without it. -/
theorem optional_identifier (o : Option ParseTree) : IsWork lacks (optionalIdentifier o) := by
  cases o with
  | none => exact .pure _
  | some n => exact .map (.identifier n)

/-- The body of a function is a block or an expression, and is made before the parameters. -/
theorem function_expression : IsWork n.LacksName (m.functionExpression n) := by
  unfold Makers.functionExpression
  have hend : ∀ body : Option Node, IsWork n.LacksName (
      optionalIdentifier (n.child? "name") >>= fun name =>
        m.parameters n >>= fun ps => MakeSyntax.info n >>= fun i =>
          Pure.pure (Node.functionExpression i name ps body)) := fun _ =>
    .bind (optional_identifier _) fun _ => .bind (h.parameters n) fun _ => .bind (.info n) fun _ =>
      .pure _
  dsimp only
  split
  · next body hbody =>
      split
      · exact .bind (.map ((h.block body).mono (.of_field hbody))) hend
      · exact .bind (.map ((h.expression body).mono (.of_field hbody))) hend
  · exact .bind (.pure _) hend

/-- An expression of any type is work. -/
theorem expression_of_type : IsWork n.LacksName (m.expressionOfType n) := by
  have hleaf : ∀ node : Info → Node, IsWork n.LacksName (MakeSyntax.info n >>= fun i =>
      Pure.pure (node i)) := fun _ => .bind (.info n) fun _ => .pure _
  have hwrapper : ∀ node : Info → Node → Node, IsWork n.LacksName (MakeSyntax.info n >>= fun i =>
      m.expressionOrMissing n.firstNamed? >>= fun e => Pure.pure (node i e)) := fun _ =>
    .bind (.info n) fun _ => .bind (h.expression_or_missing fun _ => .of_first)
      fun _ => .pure _
  unfold expressionOfType
  split
  · exact number n
  · exact string n
  · exact h.template n
  · exact .bind (.info n) fun _ => .bind (.text n) fun _ => .pure _
  · exact hleaf _
  · exact hleaf _
  · exact hleaf _
  · exact .identifier n
  · exact h.unary n
  · exact h.array n
  · exact h.object n
  · exact hwrapper _
  · exact h.as_expression n
  · exact h.satisfies n
  · exact h.type_assertion n
  · exact hwrapper _
  · exact hwrapper _
  · exact h.function_expression n
  · exact h.function_expression n
  · exact h.function_expression n
  · exact h.function_expression n
  · split
    · exact .identifier n
    · exact h.unknown n

/-! ## Types and patterns -/

/-- A member of a tuple type is an annotation or a type. -/
theorem tuple_member : IsWork n.LacksName (m.tupleMember n) := by
  unfold tupleMember
  split
  · exact .bind (h.type_annotation fun _ => .of_field) fun _ => .pure _
  · exact h.type n

/-- Property signatures are made one after the other, each of its name and its annotation. -/
theorem property_signatures : IsWork n.LacksName (m.propertySignatures n) := by
  unfold propertySignatures
  refine .mapM fun c hc => .mono ?_ (.of_named (List.mem_filter.mp hc).1)
  refine .bind (h.property_name fun _ => .of_field) fun _ => ?_
  refine .bind (h.type_annotation fun _ => .of_field) fun _ => ?_
  exact .bind (.info c) fun _ => .pure _

/-- The arguments of a generic type are types. -/
theorem generic_type : IsWork n.LacksName (m.genericType n) := by
  unfold genericType
  refine .bind (.info n) fun i => ?_
  dsimp only
  -- with a name and without one, the rest is the same work
  split
  all_goals
    refine .bind (by first | exact .text _ | exact .pure _) fun name => ?_
    split
    · next list hlist =>
        have harguments : IsWork list.LacksName (list.named.mapM m.type) :=
          .mapM fun c hc => (h.type c).mono (.of_named hc)
        exact .bind (harguments.mono (.of_field hlist)) fun _ => .pure _
    · exact .bind (.pure _) fun _ => .pure _

/-- A type of any type of tree is work. -/
theorem type_of_type : IsWork n.LacksName (m.typeOfType n) := by
  have hfirst : ∀ {first rest}, n.named = first :: rest → first ∈ n.named := fun hnamed => by
    simp [hnamed]
  unfold typeOfType
  refine .bind (.info n) fun i => ?_
  split
  · next hnamed => exact .bind ((h.expression _).mono (.of_named (hfirst hnamed))) fun _ => .pure _
  · exact .bind (.text n) fun _ => .pure _
  · exact .bind (.mapM fun c hc => (h.tuple_member c).mono (.of_named hc)) fun _ => .pure _
  · next hnamed => exact .bind ((h.type _).mono (.of_named (hfirst hnamed))) fun _ => .pure _
  · next hnamed => exact .bind ((h.type _).mono (.of_named (hfirst hnamed))) fun _ => .pure _
  · next hnamed => exact .bind ((h.type _).mono (.of_named (hfirst hnamed))) fun _ => .pure _
  · exact h.generic_type n
  · exact .bind (.text n) fun _ => .pure _
  · exact .bind (.text n) fun _ => .pure _
  · exact .bind (h.property_signatures n) fun _ => .pure _
  · exact .bind (.mapM fun c hc => (h.type c).mono (.of_named hc)) fun _ => .pure _
  · next hnamed => exact (h.type _).mono (.of_named (hfirst hnamed))
  · exact .pure _

/-- The elements of a pattern are made further down; other names are identifiers. -/
theorem make_binding_name : IsWork n.LacksName (m.makeBindingName n) := by
  unfold makeBindingName
  split
  · exact .identifier n
  · exact .identifier n
  · exact .identifier n
  · refine .bind (.info n) fun _ => .bind (.mapM fun c hc => ?_) fun _ => .pure _
    exact (h.bindingElement c).mono (.of_named hc)
  · refine .bind (.info n) fun _ => .bind (elements (fun c hc => ?_) true) fun _ => .pure _
    exact (h.bindingElement c).mono (.inside hc)
  · exact h.unknown n

/-- An element of a pattern is made of a key, a name and a default, as far as it has them. -/
theorem make_binding_element : IsWork n.LacksName (m.makeBindingElement n) := by
  unfold makeBindingElement
  refine .bind (.info n) fun i => ?_
  have hnamed : IsWork n.LacksName (m.bindingNameOrMissing (n.child? "left") >>= fun name =>
      m.optionalExpression (n.child? "right") >>= fun init =>
        Pure.pure (Node.bindingElement i name none init false)) := by
    refine .bind (h.binding_name_or_missing fun _ => .of_field) fun _ => ?_
    exact .bind (h.optional_expression fun _ => .of_field) fun _ => .pure _
  split
  · have hend : ∀ e, IsWork n.LacksName (m.propertyName (n.child? "key") >>= fun key =>
        Pure.pure (renamed i key e)) := fun _ =>
      .bind (h.property_name fun _ => .of_field) fun _ => .pure _
    dsimp only
    split
    · next value hvalue => exact .bind ((h.bindingElement value).mono (.of_field hvalue)) hend
    · exact .bind (.pure _) hend
  · exact hnamed
  · exact hnamed
  · exact .bind (h.binding_name_or_missing fun _ => .of_first) fun _ => .pure _
  · exact .bind (h.bindingName n) fun _ => .pure _

/-! ## Statements -/

/-- The declarations of a statement are made one after the other. -/
theorem variable_statement (keyword : DeclarationKind) :
    IsWork n.LacksName (m.variableStatement keyword n) := by
  unfold Makers.variableStatement
  refine .bind (.mapM fun d hd => .mono ?_ (.of_named (List.mem_filter.mp hd).1)) fun _ =>
    .bind (.info n) fun _ => .pure _
  refine .bind (h.binding_name_or_missing fun _ => .of_field) fun _ => ?_
  refine .bind (h.type_annotation fun _ => .of_field) fun _ => ?_
  refine .bind (h.optional_expression fun _ => .of_field) fun _ => ?_
  exact .bind (.info d) fun _ => .pure _

omit h in
/-- A name that is exported is an identifier or a string. -/
theorem module_export_name (o : Option ParseTree) : IsWork lacks (moduleExportName o) := by
  unfold moduleExportName
  split
  · exact .pure _
  · split
    · exact .string_text _
    · exact .text _

omit h in
/-- An entry of an export list has a name and perhaps an alias. -/
theorem export_specifier : IsWork lacks (exportSpecifier n) := by
  unfold exportSpecifier
  refine .bind (module_export_name _) fun localName => ?_
  dsimp only
  split
  · exact .bind (module_export_name _) fun _ => .bind (.info n) fun _ => .pure _
  · exact .bind (.pure _) fun _ => .bind (.info n) fun _ => .pure _

/-- What an export statement exports is a declaration, an expression, a list of names or everything
of a module. -/
theorem export_statement : IsWork n.LacksName (m.exportStatement n) := by
  unfold exportStatement
  split
  · next declaration hdeclaration =>
      exact .bind ((h.statement declaration).mono (.of_field hdeclaration)) fun _ => .pure _
  · dsimp only
    -- with a module and without one, the rest is the same work
    split
    all_goals
      refine .bind (by first | exact .map (.string_text _) | exact .pure _) fun module => ?_
      split
      · split
        · exact .pure _
        · next value hvalue =>
            have hlacks : value.LacksName → n.LacksName := by
              rcases Option.or_eq_some_iff.mp hvalue with hvalue | ⟨-, hvalue⟩
              · exact .of_field hvalue
              · exact .of_first hvalue
            refine .bind (.info n) fun _ => ?_
            exact .bind ((h.expression value).mono hlacks) fun _ => .pure _
      · split
        · refine .bind (.mapM fun c _ => export_specifier c) fun _ => ?_
          exact .bind (.info n) fun _ => .pure _
        · split
          · exact .bind (.info n) fun _ => .pure _
          · exact .bind (h.unknown n) fun _ => .pure _

omit h in
/-- An entry of an import list needs a name or an alias. -/
theorem import_specifier :
    IsWork (n.child? "name" = none ∧ n.child? "alias" = none) (importSpecifier n) := by
  unfold importSpecifier
  refine .bind (module_export_name _) fun _ => .bind (module_export_name _) fun _ => ?_
  split
  · next hnone => exact .missing_name (Option.or_eq_none_iff.mp hnone).symm
  · exact .bind (.info n) fun _ => .bind (.info _) fun _ => .pure _

omit h in
/-- A part of an import lacks a name only if it is a list with such an entry. -/
theorem import_part :
    IsWork (n.type = "named_imports" ∧ ∃ entry ∈ n.named, entry.type = "import_specifier" ∧
      entry.child? "name" = none ∧ entry.child? "alias" = none) (importPart n) := by
  unfold importPart
  split
  · exact .bind (.info n) fun _ => .bind (.identifier n) fun _ => .pure _
  · split
    · exact .bind (.info n) fun _ => .bind (.identifier _) fun _ => .pure _
    · exact .pure _
  · next htype =>
      refine .mapM fun entry hentry => (import_specifier entry).mono fun hlacks => ?_
      obtain ⟨hentry, hspecifier⟩ := List.mem_filter.mp hentry
      exact ⟨htype, entry, hentry, beq_iff_eq.mp hspecifier, hlacks⟩
  · exact .pure _

/-- An import lacks a name only if it is nameless; its source is then there. -/
theorem import_statement (htype : n.type = "import_statement") :
    IsWork n.LacksName (m.importStatement n) := by
  unfold importStatement
  split
  · exact h.unknown n
  · next source hsource =>
      refine .bind (.mapM fun part hpart => (import_part part).mono fun hlacks => ?_) fun _ =>
        .bind (.string_text _) fun _ => .bind (.info n) fun _ => .pure _
      refine .nameless ⟨htype, hsource ▸ rfl, ?_⟩
      split at hpart
      · next clause hclause => exact ⟨clause, hclause, part, hpart, hlacks⟩
      · cases hpart

/-- A function is made of its name, its parameters and its body. -/
theorem function_declaration : IsWork n.LacksName (m.functionDeclaration n) := by
  unfold Makers.functionDeclaration
  refine .bind (optional_identifier _) fun _ => .bind (h.parameters n) fun _ => ?_
  refine .bind (h.optional_block fun _ => .of_field) fun _ => ?_
  exact .bind (.info n) fun _ => .pure _

omit h in
/-- Of a class only the name is made. -/
theorem class_declaration : IsWork lacks (classDeclaration n) := by
  unfold classDeclaration
  exact .bind (.info n) fun _ => .bind (optional_identifier _) fun _ => .pure _

/-- A type alias without a name or a value becomes an unknown node. -/
theorem type_alias_declaration : IsWork n.LacksName (m.typeAliasDeclaration n) := by
  unfold Makers.typeAliasDeclaration
  split
  · next name value _ hvalue =>
      refine .bind (.info n) fun _ => .bind (.identifier _) fun _ => ?_
      exact .bind ((h.type value).mono (.of_field hvalue)) fun _ => .pure _
  · exact h.unknown n

/-- An interface without a name becomes an unknown node; its body is made where it has one. -/
theorem interface_declaration : IsWork n.LacksName (m.interfaceDeclaration n) := by
  unfold Makers.interfaceDeclaration
  split
  · exact h.unknown n
  · next tree _ =>
      have hend : ∀ members, IsWork n.LacksName (MakeSyntax.info n >>= fun i =>
          MakeSyntax.identifier tree >>= fun name =>
            Pure.pure (Node.interfaceDeclaration i name members false)) := fun _ =>
        .bind (.info n) fun _ => .bind (.identifier tree) fun _ => .pure _
      dsimp only
      split
      · next body hbody => exact .bind ((h.property_signatures body).mono (.of_field hbody)) hend
      · exact .bind (.pure _) hend

/-- A member of an enum has a name and perhaps a value, or is itself the name. -/
theorem make_enum_member : IsWork n.LacksName (m.makeEnumMember n) := by
  unfold makeEnumMember
  split
  · refine .bind (h.property_name fun _ => .of_field) fun _ => ?_
    refine .bind (h.optional_expression fun _ => .of_field) fun _ => ?_
    exact .bind (.info n) fun _ => .pure _
  · have hself : ∀ c ∈ some n, c.LacksName → n.LacksName := fun c hc =>
      Option.mem_some_iff.mp hc ▸ id
    exact .bind (.info n) fun _ => .bind (h.property_name hself) fun _ => .pure _

/-- An enum without a name becomes an unknown node; its members are made where it has a body. -/
theorem enum_declaration : IsWork n.LacksName (m.enumDeclaration n) := by
  unfold Makers.enumDeclaration
  split
  · exact h.unknown n
  · next tree _ =>
      have hend : ∀ members, IsWork n.LacksName (MakeSyntax.info n >>= fun i =>
          MakeSyntax.identifier tree >>= fun name =>
            Pure.pure (Node.enumDeclaration i name members (n.hasToken "const") false)) := fun _ =>
        .bind (.info n) fun _ => .bind (.identifier tree) fun _ => .pure _
      dsimp only
      split
      · next body hbody =>
          refine .bind (.mono (.mapM fun c hc => ?_) (.of_field hbody)) hend
          exact (h.make_enum_member c).mono (.of_named hc)
      · exact .bind (.pure _) hend

omit h in
/-- The name of a namespace is a string, an identifier, or what stands before the first dot. -/
theorem module_name : IsWork lacks (moduleName n) := by
  unfold moduleName
  split
  · exact string n
  · exact .bind (.text n) fun _ => .bind (.info n) fun _ => .pure _
  · exact .identifier n

/-- A namespace without a name becomes an unknown node. -/
theorem module_declaration : IsWork n.LacksName (m.moduleDeclaration n) := by
  unfold Makers.moduleDeclaration
  split
  · exact h.unknown n
  · refine .bind (module_name _) fun _ => ?_
    refine .bind (h.optional_block fun _ => .of_field) fun _ => ?_
    exact .bind (.info n) fun _ => .pure _

/-- A namespace may stand where an expression does. -/
theorem expression_statement : IsWork n.LacksName (m.expressionStatement n) := by
  unfold Makers.expressionStatement
  split
  · exact .pure _
  · next inner hinner =>
      split
      · exact .bind ((h.module_declaration inner).mono (.of_first hinner)) fun _ => .pure _
      · refine .bind (.info n) fun _ => ?_
        exact .bind ((h.expression inner).mono (.of_first hinner)) fun _ => .pure _

/-- The statement that is declared is made further down. -/
theorem ambient_declaration : IsWork n.LacksName (m.ambientDeclaration n) := by
  unfold ambientDeclaration
  split
  · exact .pure _
  · next inner hinner => exact .bind ((h.statement inner).mono (.of_first hinner)) fun _ => .pure _

omit n in
/-- The left side of a loop is a declared name or an expression. -/
theorem loop_target (isDeclared : Bool) {left : Option ParseTree}
    (hleft : ∀ c ∈ left, c.LacksName → lacks) : IsWork lacks (m.loopTarget isDeclared left) := by
  unfold loopTarget
  split
  · refine .bind (h.binding_name_or_missing hleft) fun name => ?_
    dsimp only
    split
    · exact .bind (.info _) fun _ => .pure _
    · exact .bind (.pure _) fun _ => .pure _
  · exact h.expression_or_missing hleft

/-- A loop is made of its left side, its expression and, where there is one, its body. -/
theorem for_in_statement : IsWork n.LacksName (m.forInStatement n) := by
  unfold Makers.forInStatement
  dsimp only
  refine .bind (h.loop_target _ fun _ => .of_field) fun init => ?_
  refine .bind (h.expression_or_missing fun _ => .of_field) fun e => ?_
  have hend : ∀ statement : Option Node, IsWork n.LacksName (
      if n.hasToken "of" then MakeSyntax.info n >>= fun i =>
        Pure.pure (Node.forOfStatement i init e statement (loopKeyword? n))
      else MakeSyntax.info n >>= fun i =>
        Pure.pure (Node.forInStatement i init e statement (loopKeyword? n)) : MakeSyntax Node) :=
    fun _ => by
      split
      · exact .bind (.info n) fun _ => .pure _
      · exact .bind (.info n) fun _ => .pure _
  split
  · next body hbody => exact .bind ((h.statement body).mono (.of_field hbody)) hend
  · exact .bind (.pure _) hend

/-- The parameter of a catch clause is made before its body. -/
theorem catch_clause : IsWork n.LacksName (m.catchClause n) := by
  have hend : ∀ declaration, IsWork n.LacksName (m.optionalBlock (n.child? "body") >>= fun body =>
      MakeSyntax.info n >>= fun i => Pure.pure (Node.catchClause i declaration body)) := fun _ =>
    .bind (h.optional_block fun _ => .of_field) fun _ => .bind (.info n) fun _ =>
      .pure _
  unfold Makers.catchClause
  dsimp only
  split
  · next parameter hparameter =>
      refine .bind ((h.bindingName parameter).mono (.of_field hparameter)) fun _ => ?_
      refine .bind (h.type_annotation fun _ => .of_field) fun _ => ?_
      exact .bind (.info _) fun _ => .bind (.pure _) hend
  · exact .bind (.pure _) hend

omit n in
/-- A statement of any type of tree is work. -/
theorem statement_of_type {n : ParseTree} {make : MakeSyntax (Option Node)}
    (hmake : m.statementOfType? n = some make) : IsWork n.LacksName make := by
  unfold statementOfType? at hmake
  split at hmake <;> try obtain rfl := Option.some.inj hmake
  · exact h.expression_statement n
  · exact .map (h.variable_statement n _)
  · exact .map (h.variable_statement n _)
  · exact h.ambient_declaration n
  · exact h.export_statement n
  · next htype => exact .map (h.import_statement n htype)
  · exact .map (h.function_declaration n)
  · exact .map (h.function_declaration n)
  · exact .map (h.function_declaration n)
  · exact .map (class_declaration n)
  · exact .map (class_declaration n)
  · exact .map (h.type_alias_declaration n)
  · exact .map (h.interface_declaration n)
  · exact .map (h.enum_declaration n)
  · exact .map (h.module_declaration n)
  · exact .map (h.module_declaration n)
  · exact .map (h.for_in_statement n)
  · exact .map (h.catch_clause n)
  · exact .map (h.block n)
  · cases hmake

/-! ## One level up -/

omit n in
/-- The ways one level up are work, too. -/
theorem above : m.above.Works where
  statement n := by
    show IsWork n.LacksName (m.makeStatement n)
    unfold makeStatement
    split
    · exact .pure _
    · refine .guarded n _ ?_
      split
      · next hmake => exact h.statement_of_type hmake
      · exact .map (h.unknown n)
  generic n := by
    show IsWork n.LacksName (m.makeGeneric n)
    unfold makeGeneric
    split
    · next hmake =>
        refine .bind (.guarded n _ (h.statement_of_type hmake)) fun s => ?_
        split
        · exact .pure _
        · exact h.unknown n
    · exact h.expression n
  expression n := .guarded n _ (h.expression_of_type n)
  type n := .guarded n _ (h.type_of_type n)
  bindingName := h.make_binding_name
  bindingElement := h.make_binding_element

end Works

/-- All ways to make syntax are work, whatever the depth. -/
theorem works_of_depth (depth : Nat) : (ofDepth depth).Works := by
  induction depth with
  | zero => exact ⟨fun _ => .too_deep, fun _ => .too_deep, fun _ => .too_deep, fun _ => .too_deep,
      fun _ => .too_deep, fun _ => .too_deep⟩
  | succ depth ih => exact ih.above

end MakeSyntax.Makers

end StaticLiteral
