import StaticLiteral.Proofs.ParseTree.Making
import StaticLiteral.Proofs.Syntax.Forms

/-!
# The forms of expressions made from parse trees

`Makers.Sound` says that the ways that lead further down make well-formed trees. Expressions made
with such ways are well formed, whatever the parse tree.
-/

namespace StaticLiteral

open Node

namespace MakeSyntax

/-- A tree without children is well formed if its root is formed. -/
theorem well_formed_of_leaf {n : Node} (hformed : n.isFormed) (h : n.children = []) :
    n.WellFormed :=
  well_formed_iff.mpr ⟨hformed, by simp [h]⟩

/-- What stands for something missing is well formed. -/
theorem well_formed_missing : missing.WellFormed := well_formed_of_leaf rfl rfl

/-- A tree that is cut off is well formed. -/
theorem well_formed_cut_off (n : ParseTree) (i : Info) : (cutOff n i).WellFormed :=
  well_formed_of_leaf rfl rfl

/-- A type that is cut off is well formed. -/
theorem well_formed_cut_off_type (n : ParseTree) (i : Info) : (cutOffType n i).WellFormed :=
  well_formed_of_leaf rfl rfl

/-- A name is made of any tree. -/
theorem makes_identifier (n : ParseTree) :
    Makes (fun q => q.WellFormed ∧ q.role = .name) (identifier n) := by
  unfold identifier
  exact .bind (.any _) fun i _ => .bind (.any _) fun t _ => .pure ⟨well_formed_of_leaf rfl rfl, rfl⟩

namespace Makers

variable {m : Makers}

/-- The ways further down make well-formed trees. -/
structure Sound (m : Makers) : Prop where
  statement (n : ParseTree) : Makes (fun s => ∀ q ∈ s, q.WellFormed) (m.statement n)
  generic (n : ParseTree) : Makes WellFormed (m.generic n)
  expression (n : ParseTree) : Makes WellFormed (m.expression n)
  type (n : ParseTree) : Makes WellFormed (m.type n)
  bindingName (n : ParseTree) :
    Makes (fun q => q.WellFormed ∧ q.isBindingName) (m.bindingName n)
  bindingElement (n : ParseTree) :
    Makes (fun q => q.WellFormed ∧ q.role = .element) (m.bindingElement n)

/-! ## Trees of any sort -/

/-- An expression that may be missing is well formed. -/
theorem Sound.expression_or_missing (h : m.Sound) (n : Option ParseTree) :
    Makes WellFormed (m.expressionOrMissing n) := by
  cases n with
  | none => exact .pure well_formed_missing
  | some n => exact h.expression n

/-- An expression is well formed if there is one. -/
theorem Sound.optional_expression (h : m.Sound) (n : Option ParseTree) :
    Makes (fun e => ∀ q ∈ e, q.WellFormed) (m.optionalExpression n) := by
  cases n with
  | none => exact .pure (by simp)
  | some n => exact .map (h.expression n) fun e he => by simpa using he

/-- A tree with no syntax of its own leaves a well-formed tree, which is unknown. -/
theorem Sound.unknown (h : m.Sound) (n : ParseTree) :
    Makes (fun q => q.WellFormed ∧ q.role = .unknown) (m.unknown n) := by
  unfold Makers.unknown
  refine .bind (.mapM fun c _ => h.generic c) fun children hchildren => ?_
  refine .bind (.any _) fun i _ => .pure ⟨?_, rfl⟩
  exact .of_fields rfl (by simpa [fields, Field.contents] using hchildren)

/-- A block is well formed. -/
theorem Sound.block (h : m.Sound) (n : ParseTree) : Makes WellFormed (m.block n) := by
  unfold Makers.block
  refine .bind (.mapM fun c _ => h.statement c) fun statements hstatements => ?_
  refine .bind (.any _) fun i _ => .pure (.of_fields rfl ?_)
  simp only [fields, Field.contents, List.flatMap_cons, List.flatMap_nil, List.append_nil]
  intro q hq
  obtain ⟨s, hs, hq⟩ := List.mem_filterMap.mp hq
  exact hstatements s hs q hq

/-- A block is well formed if there is one. -/
theorem Sound.optional_block (h : m.Sound) (n : Option ParseTree) :
    Makes (fun e => ∀ q ∈ e, q.WellFormed) (m.optionalBlock n) := by
  cases n with
  | none => exact .pure (by simp)
  | some n => exact .map (h.block n) fun e he => by simpa using he

/-- The type in an annotation is well formed if there is one. -/
theorem Sound.type_annotation (h : m.Sound) (n : Option ParseTree) :
    Makes (fun e => ∀ q ∈ e, q.WellFormed) (m.typeAnnotation n) := by
  have hsome : ∀ n, Makes (fun e => ∀ q ∈ e, q.WellFormed) (some <$> m.type n) :=
    fun n => .map (h.type n) fun e he => by simpa using he
  unfold typeAnnotation
  split
  · exact .pure (by simp)
  · split
    · split
      · exact hsome _
      · exact .pure (by simp)
    · exact hsome _

/-- A bound name that may be missing can declare something. -/
theorem Sound.binding_name_or_missing (h : m.Sound) (n : Option ParseTree) :
    Makes (fun q => q.WellFormed ∧ q.isBindingName) (m.bindingNameOrMissing n) := by
  cases n with
  | none => exact .pure ⟨well_formed_missing, rfl⟩
  | some n => exact h.bindingName n

/-- Between brackets there are elements and holes. -/
theorem makes_elements {make : ParseTree → MakeSyntax Node} {P : Node → Prop}
    (hhole : ∀ i, P (.omittedExpression i)) (h : ∀ n, Makes P (make n)) (expecting : Bool)
    (ns : List ParseTree) :
    Makes (fun es => ∀ e ∈ es, P e) (elements make expecting ns) := by
  induction ns generalizing expecting with
  | nil => exact .pure (by simp)
  | cons c rest ih =>
      unfold elements
      split
      · exact ih expecting
      · split
        · exact .pure (by simp)
        · split
          · split
            · refine .bind (.any _) fun i _ => .bind (ih true) fun es hes => .pure ?_
              exact List.forall_mem_cons.mpr ⟨hhole i, hes⟩
            · exact ih true
          · refine .bind (h c) fun e he => .bind (ih false) fun es hes => .pure ?_
            exact List.forall_mem_cons.mpr ⟨he, hes⟩

/-! ## Expressions -/

/-- A number is well formed. -/
theorem makes_number (n : ParseTree) : Makes WellFormed (number n) := by
  unfold number
  refine .bind (.any _) fun t _ => ?_
  split
  · exact .bind (.any _) fun i _ => .pure (well_formed_of_leaf rfl rfl)
  · exact .bind (.any _) fun i _ => .pure (well_formed_of_leaf rfl rfl)

/-- A string is well formed and can name a module. -/
theorem makes_string (n : ParseTree) :
    Makes (fun q => q.WellFormed ∧ q.isModuleName) (string n) := by
  unfold string
  refine .bind (.any _) fun t _ => .bind (.any _) fun decoded _ => ?_
  split
  · exact .bind (.any _) fun i _ => .pure ⟨well_formed_of_leaf rfl rfl, rfl⟩
  · exact .bind (.any _) fun i _ => .pure ⟨well_formed_cut_off n i, rfl⟩

/-- The substitutions of a template are well formed. -/
theorem Sound.template_spans (h : m.Sound) (n : ParseTree) (hasHead : Bool)
    (subs : List ParseTree) :
    Makes (fun spans => ∀ es ∈ spans, ∀ e ∈ es, e.WellFormed)
      (m.templateSpans n hasHead subs) := by
  induction subs with
  | nil => exact .pure (by simp)
  | cons sub rest ih =>
      unfold templateSpans
      dsimp only
      refine .bind (.any _) fun t _ => .bind (.any _) fun literal _ => ?_
      split
      · split
        · exact .pure (by simp)
        · refine .bind (h.expression_or_missing _) fun e he => .bind (.any _) fun i _ => ?_
          refine .bind ih fun spans hspans => .pure ?_
          have hspan : (Node.templateSpan i e ‹_›).WellFormed :=
            .of_fields rfl (by simpa [fields, Field.contents] using he)
          cases spans with
          | none => simp
          | some es => simpa using ⟨hspan, hspans es rfl⟩
      · exact .pure (by simp)

/-- A template is well formed. -/
theorem Sound.template (h : m.Sound) (n : ParseTree) : Makes WellFormed (m.template n) := by
  unfold Makers.template
  dsimp only
  split
  · refine .bind (.any _) fun t _ => .bind (.any _) fun decoded _ => ?_
    split
    · exact .bind (.any _) fun i _ => .pure (well_formed_of_leaf rfl rfl)
    · exact .bind (.any _) fun i _ => .pure (well_formed_cut_off n i)
  · refine .bind (.any _) fun t _ => .bind (.any _) fun head _ => ?_
    refine .bind (h.template_spans n _ _) fun spans hspans => ?_
    split
    · next es =>
        refine .bind (.any _) fun i _ => .pure (.of_fields rfl ?_)
        simpa [fields, Field.contents] using hspans es rfl
    · exact .bind (.any _) fun i _ => .pure (well_formed_cut_off n i)

/-- An operator with its operand is well formed. -/
theorem Sound.unary (h : m.Sound) (n : ParseTree) : Makes WellFormed (m.unary n) := by
  unfold Makers.unary
  split
  · refine .bind (.any _) fun i _ => .bind (h.expression _) fun e he => .pure (.of_fields rfl ?_)
    simpa [fields, Field.contents] using he
  · exact .mono (h.unknown n) fun _ hq => hq.1

/-- An array is well formed. -/
theorem Sound.array (h : m.Sound) (n : ParseTree) : Makes WellFormed (m.array n) := by
  unfold Makers.array
  refine .bind (.any _) fun i _ => ?_
  refine .bind (makes_elements (fun i => well_formed_of_leaf rfl rfl) h.expression true _)
    fun es hes => .pure (.of_fields rfl ?_)
  simpa [fields, Field.contents] using hes

/-- The name of a property or member is well formed. -/
theorem Sound.property_name (h : m.Sound) (n : Option ParseTree) :
    Makes WellFormed (m.propertyName n) := by
  unfold propertyName
  split
  · exact .pure well_formed_missing
  · split
    · exact .mono (makes_identifier _) fun _ hq => hq.1
    · split
      · exact h.expression _
      · exact .mono (h.unknown _) fun _ hq => hq.1

/-- A member of an object literal is well formed. -/
theorem Sound.property (h : m.Sound) (n : ParseTree) : Makes WellFormed (m.property n) := by
  unfold Makers.property
  split
  · refine .bind (h.property_name _) fun name hname => ?_
    refine .bind (h.expression_or_missing _) fun value hvalue => ?_
    refine .bind (.any _) fun i _ => .pure (.of_fields rfl ?_)
    simpa [fields, Field.contents] using ⟨hname, hvalue⟩
  · refine .bind (.any _) fun i _ => .bind (makes_identifier n) fun name hname => ?_
    exact .pure (.of_fields rfl (by simpa [fields, Field.contents] using hname.1))
  · refine .bind (.any _) fun i _ => .bind (h.expression_or_missing _) fun e he => ?_
    exact .pure (.of_fields rfl (by simpa [fields, Field.contents] using he))
  · refine .bind (h.property_name _) fun name hname => ?_
    refine .bind (h.optional_block _) fun body hbody => ?_
    refine .bind (.any _) fun i _ => .pure (.of_fields rfl ?_)
    simpa [fields, Field.contents] using ⟨hname, hbody⟩
  · exact .mono (h.unknown n) fun _ hq => hq.1

/-- An object literal is well formed. -/
theorem Sound.object (h : m.Sound) (n : ParseTree) : Makes WellFormed (m.object n) := by
  unfold Makers.object
  refine .bind (.any _) fun i _ => .bind (.mapM fun c _ => h.property c) fun es hes => ?_
  exact .pure (.of_fields rfl (by simpa [fields, Field.contents] using hes))

/-- The type after `as` is well formed. -/
theorem Sound.asserted_type (h : m.Sound) (n : ParseTree) :
    Makes WellFormed (m.assertedType n) := by
  unfold assertedType
  split
  · exact .pure (well_formed_of_leaf rfl rfl)
  · split
    · exact h.type _
    · exact .pure (well_formed_of_leaf rfl rfl)

/-- An assertion with `as` is well formed. -/
theorem Sound.as_expression (h : m.Sound) (n : ParseTree) :
    Makes WellFormed (m.asExpression n) := by
  unfold Makers.asExpression
  refine .bind (h.expression_or_missing _) fun e he => .bind (h.asserted_type n) fun t ht => ?_
  refine .bind (.any _) fun i _ => .pure (.of_fields rfl ?_)
  simpa [fields, Field.contents] using ⟨he, ht⟩

/-- An expression with `satisfies` is well formed. -/
theorem Sound.satisfies (h : m.Sound) (n : ParseTree) : Makes WellFormed (m.satisfies n) := by
  unfold Makers.satisfies
  refine .bind (h.expression_or_missing _) fun e he => ?_
  have hend : ∀ t : Node, t.WellFormed → Makes WellFormed
      (info n >>= fun i => Pure.pure (Node.satisfiesExpression i e t)) := fun t ht => by
    refine .bind (.any _) fun i _ => .pure (.of_fields rfl ?_)
    simpa [fields, Field.contents] using ⟨he, ht⟩
  dsimp only
  split
  · exact .bind (h.type _) hend
  · exact .bind (.pure (well_formed_of_leaf rfl rfl)) hend

/-- An assertion in angle brackets is well formed. -/
theorem Sound.type_assertion (h : m.Sound) (n : ParseTree) :
    Makes WellFormed (m.typeAssertion n) := by
  unfold Makers.typeAssertion
  split
  · next brackets second rest _ =>
      have hend : ∀ t : Node, t.WellFormed → Makes WellFormed
          (m.expression (rest.getLast?.getD second) >>= fun e => info n >>= fun i =>
            Pure.pure (Node.typeAssertion i t e)) := fun t ht => by
        refine .bind (h.expression _) fun e he => .bind (.any _) fun i _ => ?_
        exact .pure (.of_fields rfl (by simpa [fields, Field.contents] using ⟨ht, he⟩))
      refine .bind (.any _) fun t _ => ?_
      dsimp only
      split
      · exact .bind (.pure (well_formed_of_leaf rfl rfl)) hend
      · split
        · exact .bind (h.type _) hend
        · exact .bind (.pure (well_formed_of_leaf rfl rfl)) hend
  · exact .mono (h.unknown n) fun _ hq => hq.1

/-- The parameters of a function are well formed. -/
theorem Sound.parameters (h : m.Sound) (n : ParseTree) :
    Makes (fun ps => ∀ p ∈ ps, p.WellFormed ∧ p.role = .parameter) (m.parameters n) := by
  unfold Makers.parameters
  split
  · refine .bind (h.bindingName _) fun name hname => .bind (.any _) fun i _ => .pure ?_
    have hwhole : (Node.parameter i name none none).WellFormed :=
      .of_fields hname.2 (by simpa [fields, Field.contents] using hname.1)
    simpa [role] using hwhole
  · exact .pure (by simp)
  · refine .mapM fun p _ => ?_
    refine .bind (h.binding_name_or_missing _) fun name hname => ?_
    refine .bind (h.type_annotation _) fun type htype => ?_
    refine .bind (h.optional_expression _) fun init hinit => .bind (.any _) fun i _ => ?_
    refine .pure ⟨.of_fields hname.2 ?_, rfl⟩
    simpa [fields, Field.contents, or_imp, forall_and] using ⟨hname.1, htype, hinit⟩

/-- A name is well formed if there is one. -/
theorem makes_optional_identifier (n : Option ParseTree) :
    Makes (fun e => ∀ q ∈ e, q.WellFormed ∧ q.role = .name) (optionalIdentifier n) := by
  cases n with
  | none => exact .pure (by simp)
  | some n => exact .map (makes_identifier n) fun e he => by simpa using he

/-- A function is well formed if its fields are and its name and parameters have their roles. -/
theorem well_formed_function {i : Info} {name body : Option Node} {parameters : List Node}
    (hname : ∀ q ∈ name, q.WellFormed ∧ q.role = .name)
    (hparameters : ∀ p ∈ parameters, p.WellFormed ∧ p.role = .parameter)
    (hbody : ∀ q ∈ body, q.WellFormed) :
    (Node.functionExpression i name parameters body).WellFormed ∧
      ∀ exported, (Node.functionDeclaration i name parameters body exported).WellFormed := by
  have hformed : name.all (·.role = .name) && parameters.all (·.role = .parameter) := by
    simp only [Option.all_eq_true, List.all_eq_true, Bool.and_eq_true, decide_eq_true_eq]
    exact ⟨fun q hq => (hname q hq).2, fun p hp => (hparameters p hp).2⟩
  have hfields : ∀ c ∈ name.toList ++ (parameters ++ body.toList), c.WellFormed := by
    simp only [List.forall_mem_append, Option.mem_toList]
    exact ⟨fun q hq => (hname q hq).1, fun p hp => (hparameters p hp).1, hbody⟩
  refine ⟨.of_fields hformed ?_, fun exported => .of_fields hformed ?_⟩ <;>
    simpa only [fields, Field.contents, List.flatMap_cons, List.flatMap_nil, List.append_nil]
      using hfields

/-- A function expression is well formed. -/
theorem Sound.function_expression (h : m.Sound) (n : ParseTree) :
    Makes WellFormed (m.functionExpression n) := by
  unfold Makers.functionExpression
  have hend : ∀ body : Option Node, (∀ q ∈ body, q.WellFormed) → Makes WellFormed
      (optionalIdentifier (n.child? "name") >>= fun name => m.parameters n >>= fun ps =>
        info n >>= fun i => Pure.pure (Node.functionExpression i name ps body)) :=
    fun body hbody => by
      refine .bind (makes_optional_identifier _) fun name hname => ?_
      refine .bind (h.parameters n) fun ps hps => .bind (.any _) fun i _ => ?_
      exact .pure (well_formed_function hname hps hbody).1
  have hsome : ∀ b : Node, b.WellFormed → ∀ q ∈ some b, q.WellFormed := by simp
  dsimp only
  split
  · split
    · exact .bind (.map (h.block _) hsome) hend
    · exact .bind (.map (h.expression _) hsome) hend
  · exact .bind (.pure (by simp)) hend

/-- An expression of any sort is well formed. -/
theorem Sound.expression_of_type (h : m.Sound) (n : ParseTree) :
    Makes WellFormed (m.expressionOfType n) := by
  have hleaf : ∀ node : Info → Node, (∀ i, (node i).isFormed ∧ (node i).children = []) →
      Makes WellFormed (info n >>= fun i => Pure.pure (node i)) := fun node hnode =>
    .bind (.any _) fun i _ => .pure (well_formed_of_leaf (hnode i).1 (hnode i).2)
  have hwrapper : ∀ node : Info → Node → Node,
      (∀ i e, (node i e).isFormed ∧ (node i e).children = [e]) →
      Makes WellFormed (info n >>= fun i => m.expressionOrMissing n.firstNamed? >>= fun e =>
        Pure.pure (node i e)) := fun node hnode => by
    refine .bind (.any _) fun i _ => .bind (h.expression_or_missing _) fun e he => .pure ?_
    exact well_formed_iff.mpr ⟨(hnode i e).1, by simpa [(hnode i e).2] using he⟩
  have hname : Makes WellFormed (identifier n) := .mono (makes_identifier n) fun _ hq => hq.1
  unfold expressionOfType
  split
  · exact makes_number n
  · exact .mono (makes_string n) fun _ hq => hq.1
  · exact h.template n
  · exact .bind (.any _) fun i _ => .bind (.any _) fun t _ => .pure (well_formed_of_leaf rfl rfl)
  · exact hleaf _ fun _ => ⟨rfl, rfl⟩
  · exact hleaf _ fun _ => ⟨rfl, rfl⟩
  · exact hleaf _ fun _ => ⟨rfl, rfl⟩
  · exact hname
  · exact h.unary n
  · exact h.array n
  · exact h.object n
  · exact hwrapper _ fun _ _ => ⟨rfl, rfl⟩
  · exact h.as_expression n
  · exact h.satisfies n
  · exact h.type_assertion n
  · exact hwrapper _ fun _ _ => ⟨rfl, rfl⟩
  · exact hwrapper _ fun _ _ => ⟨rfl, rfl⟩
  · exact h.function_expression n
  · exact h.function_expression n
  · exact h.function_expression n
  · exact h.function_expression n
  · split
    · exact hname
    · exact .mono (h.unknown n) fun _ hq => hq.1

end Makers

end MakeSyntax

end StaticLiteral
