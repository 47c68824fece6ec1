import StaticLiteral.ParseTree.Statement

/-!
# Type parameters

A function or a type alias may have type parameters, but they leave no trace: wherever such a tree
stands, the same syntax is made of it, with the same anomalies, as of the tree without the list of
its type parameters. `ignores_type_parameters` says so.
-/

namespace StaticLiteral

namespace ParseTree

/-- The tree without the list of its type parameters. -/
def withoutTypeParameters (n : ParseTree) : ParseTree :=
  .node n.type n.isNamed n.start n.stop n.field
    (n.children.filter fun c => c.field != some "type_parameters")

/-- Whether the tree is a function declaration or signature, or a type alias with its name and
type. -/
def isGenericDeclaration (n : ParseTree) : Bool :=
  ["function_declaration", "generator_function_declaration",
      "function_signature"].contains n.type ||
    n.type == "type_alias_declaration" && (n.child? "name").isSome && (n.child? "value").isSome

/-- Whether the tree is a function expression or an arrow function. -/
def isFunctionExpression (n : ParseTree) : Bool :=
  ["arrow_function", "function_expression", "function", "generator_function"].contains n.type

/-- The other fields are filled by the same children. -/
theorem child_without_type_parameters (n : ParseTree) (field : String)
    (h : field ≠ "type_parameters") : n.withoutTypeParameters.child? field = n.child? field := by
  rw [child?, withoutTypeParameters, children, List.find?_filter]
  refine congrArg (List.find? · n.children) (funext fun c => ?_)
  by_cases hc : c.field = some field <;> simp [hc, h]

end ParseTree

namespace MakeSyntax.Makers

open ParseTree

variable (m : Makers) {n : ParseTree}

/-- The type parameters of functions and type aliases make no difference to the syntax. -/
structure IgnoresTypeParameters : Prop where
  declaration : ∀ n : ParseTree, n.isGenericDeclaration →
    m.statement n.withoutTypeParameters = m.statement n ∧
      m.generic n.withoutTypeParameters = m.generic n
  function : ∀ n : ParseTree, n.isFunctionExpression →
    m.expression n.withoutTypeParameters = m.expression n ∧
      m.generic n.withoutTypeParameters = m.generic n
  method : ∀ n : ParseTree, n.type = "method_definition" →
    m.property n.withoutTypeParameters = m.property n

/-- The parameters of a function are made without its type parameters. -/
theorem parameters_without_type_parameters (n : ParseTree) :
    m.parameters n.withoutTypeParameters = m.parameters n := by
  simp only [parameters, child_without_type_parameters n "parameter" (by decide),
    child_without_type_parameters n "parameters" (by decide)]

/-- A function declaration or a type alias makes a statement, which is made without its type
parameters. -/
theorem exists_statement_of_type (h : n.isGenericDeclaration) :
    ∃ make : MakeSyntax Node, m.statementOfType? n = some (some <$> make) ∧
      m.statementOfType? n.withoutTypeParameters = some (some <$> make) := by
  have hname := child_without_type_parameters n "name" (by decide)
  have hvalue := child_without_type_parameters n "value" (by decide)
  have hbody := child_without_type_parameters n "body" (by decide)
  have hfunction : m.functionDeclaration n.withoutTypeParameters = m.functionDeclaration n := by
    rw [functionDeclaration, functionDeclaration, hname, hbody,
      parameters_without_type_parameters]
    rfl
  have halias (hnamed : (n.child? "name").isSome) (hvalued : (n.child? "value").isSome) :
      m.typeAliasDeclaration n.withoutTypeParameters = m.typeAliasDeclaration n := by
    obtain ⟨name, hn⟩ := Option.isSome_iff_exists.mp hnamed
    obtain ⟨value, hv⟩ := Option.isSome_iff_exists.mp hvalued
    rw [typeAliasDeclaration, typeAliasDeclaration, hname, hvalue, hn, hv]
    rfl
  simp only [isGenericDeclaration, Bool.or_eq_true, Bool.and_eq_true, List.contains_eq_mem,
    List.mem_cons, List.not_mem_nil, or_false, decide_eq_true_eq, beq_iff_eq] at h
  rcases h with (htype | htype | htype) | ⟨⟨htype, hnamed⟩, hvalued⟩
  all_goals
    have hsame : n.withoutTypeParameters.type = _ := htype
    simp only [statementOfType?, hsame, htype]
  · exact ⟨_, rfl, by rw [hfunction]⟩
  · exact ⟨_, rfl, by rw [hfunction]⟩
  · exact ⟨_, rfl, by rw [hfunction]⟩
  · exact ⟨_, rfl, by rw [halias hnamed hvalued]⟩

/-- A function expression is no statement. -/
theorem statement_of_type_of_function_expression (h : n.isFunctionExpression) :
    m.statementOfType? n = none := by
  simp only [isFunctionExpression, List.contains_eq_mem, List.mem_cons, List.not_mem_nil, or_false,
    decide_eq_true_eq] at h
  rcases h with htype | htype | htype | htype <;> simp [statementOfType?, htype]

/-- A function expression is made without its type parameters. -/
theorem expression_of_type_without_type_parameters (h : n.isFunctionExpression) :
    m.expressionOfType n.withoutTypeParameters = m.expressionOfType n := by
  have hname := child_without_type_parameters n "name" (by decide)
  have hbody := child_without_type_parameters n "body" (by decide)
  have hfunction : m.functionExpression n.withoutTypeParameters = m.functionExpression n := by
    rw [functionExpression, functionExpression, hname, hbody, parameters_without_type_parameters]
    rfl
  simp only [isFunctionExpression, List.contains_eq_mem, List.mem_cons, List.not_mem_nil, or_false,
    decide_eq_true_eq] at h
  rcases h with htype | htype | htype | htype
  all_goals
    have hsame : n.withoutTypeParameters.type = _ := htype
    simp only [expressionOfType, hsame, htype]
    exact hfunction

/-- A method of an object is made without its type parameters. -/
theorem property_without_type_parameters (h : n.type = "method_definition") :
    m.property n.withoutTypeParameters = m.property n := by
  have hname := child_without_type_parameters n "name" (by decide)
  have hbody := child_without_type_parameters n "body" (by decide)
  have hsame : n.withoutTypeParameters.type = _ := h
  simp only [property, hsame, h, hname, hbody]
  rfl

/-- What is left of a tree that is cut off is changed like what is made of it. -/
theorem guarded_map {α β : Type} (f : α → β) (n : ParseTree) (cut : Info → α)
    (make : MakeSyntax α) :
    guarded n (fun i => f (cut i)) (f <$> make) = f <$> guarded n cut make := by
  simp only [guarded, map_bind]
  refine bind_congr fun ctx => ?_
  split
  · simp only [map_bind]
    refine bind_congr fun anomalies => ?_
    split <;> simp only [map_bind, map_pure]
  · rfl

/-- At every depth, a function expression is made without its type parameters. -/
theorem expression_without_type_parameters (h : n.isFunctionExpression) (depth : Nat) :
    (ofDepth depth).expression n.withoutTypeParameters = (ofDepth depth).expression n := by
  cases depth with
  | zero => rfl
  | succ depth =>
      show guarded _ _ ((ofDepth depth).expressionOfType _) = guarded _ _ _
      rw [expression_of_type_without_type_parameters _ h]
      rfl

/-- At every depth, type parameters make no difference. -/
theorem ignores_type_parameters (depth : Nat) : (ofDepth depth).IgnoresTypeParameters := by
  cases depth with
  | zero =>
      exact ⟨fun _ _ => ⟨rfl, rfl⟩, fun _ _ => ⟨rfl, rfl⟩,
        fun _ => property_without_type_parameters _⟩
  | succ depth =>
      refine ⟨fun n h => ?_, fun n h => ⟨expression_without_type_parameters h _, ?_⟩,
        fun n => property_without_type_parameters _⟩
      · obtain ⟨make, hmake, hsame⟩ := exists_statement_of_type (ofDepth depth) h
        constructor
        · show (ofDepth depth).makeStatement _ = (ofDepth depth).makeStatement n
          rw [makeStatement, makeStatement, hmake, hsame]
          rfl
        · show (ofDepth depth).makeGeneric _ = (ofDepth depth).makeGeneric n
          rw [makeGeneric, makeGeneric, hmake, hsame]
          simp only [guarded_map, bind_map_left]
          rfl
      · have hnone := statement_of_type_of_function_expression (ofDepth depth) h
        have hsame : (ofDepth depth).statementOfType? n.withoutTypeParameters = none :=
          statement_of_type_of_function_expression _ h
        show (ofDepth depth).makeGeneric _ = (ofDepth depth).makeGeneric n
        rw [makeGeneric, makeGeneric, hnone, hsame]
        exact expression_without_type_parameters h depth

end MakeSyntax.Makers

end StaticLiteral
