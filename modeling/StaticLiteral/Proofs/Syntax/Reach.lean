import StaticLiteral.Proofs.Syntax.Names

/-!
# What a tree declares around itself

A statement declares names in the scope that it is bound in, or, with `var` or as a function, in the
nearest scope that is no block. `Node.Reaches` says which statements below a node still belong to
the scope of the node: those beside it, and, for what is hoisted, also those in blocks, loops and
catch clauses. `Node.Declares` collects their names.
-/

namespace StaticLiteral.Node

/-- What is evaluated for a variable, outside of the names that it declares. -/
def besideVariable : Node → List Node
  | variableDeclaration _ name type init => name.evaluated ++ type.toList ++ init.toList
  | _ => []

/-- What belongs to the surroundings of a property: of a method only its name does. -/
def besideProperty : Node → Node
  | methodDeclaration _ name _ => name
  | property => property

/-- What is below a node and in no scope of its own. What stands for the name of a declaration is
left out, even if it is not understood. -/
def beside : Node → List Node
  | variableStatement _ _ declarations _ _ => declarations.flatMap besideVariable
  | forInStatement _ init expression _ (some _) | forOfStatement _ init expression _ (some _) =>
    expression :: init.besideVariable
  | forInStatement _ init expression _ none | forOfStatement _ init expression _ none =>
    [expression, init]
  | catchClause _ declaration _ => declaration.toList.flatMap besideVariable
  | objectLiteral _ properties => properties.map besideProperty
  | functionDeclaration .. | functionExpression .. | moduleDeclaration .. | block ..
  | classDeclaration .. | importDeclaration .. | exportDeclaration .. => []
  | n => n.children

/-- What is below a node in a block: the statements of a block, the body of a loop, and the block of
a catch clause. -/
def blocks : Node → List Node
  | block _ statements => statements
  | forInStatement _ _ _ statement _ | forOfStatement _ _ _ statement _ => statement.toList
  | catchClause _ _ body => body.toList
  | _ => []

/-- The nodes below a node that belong to its surroundings, beside it or, for what is hoisted, also
in blocks. -/
inductive Reaches (hoists : Bool) : Node → Node → Prop where
  | here (n : Node) : Reaches hoists n n
  | beside {n c m : Node} (hc : c ∈ n.beside) (h : Reaches hoists c m) : Reaches hoists n m
  | block {n c m : Node} (hhoists : hoists) (hc : c ∈ n.blocks) (h : Reaches hoists c m) :
      Reaches hoists n m

/-- The names of variables. -/
def variableNames (declarations : List Node) : List Node :=
  declarations.flatMap fun d => d.declaredNames.flatMap leaves

/-- The names that a node declares in the scope that it is bound in. -/
def scopedNames : Node → List Node
  | variableStatement _ .const declarations _ _ | variableStatement _ .let declarations _ _ =>
    variableNames declarations
  | classDeclaration _ name _ => name.toList
  | enumDeclaration _ name _ _ _ | moduleDeclaration _ name _ _ => [name]
  | importDeclaration _ _ specifiers => specifiers.flatMap names
  | _ => []

/-- The names that a node declares in the nearest scope that is no block. -/
def hoistedNames : Node → List Node
  | variableStatement _ .var declarations _ _ => variableNames declarations
  | functionDeclaration _ name _ _ _ => name.toList
  | forInStatement _ init _ _ (some .var) | forOfStatement _ init _ _ (some .var) =>
    variableNames [init]
  | _ => []

/-- The names that a node declares around itself, hoisted ones or others. -/
def namesAround : Bool → Node → List Node
  | false => scopedNames
  | true => hoistedNames

/-- The name is declared somewhere in the tree, and belongs to its surroundings. -/
def Declares (hoists : Bool) (n name : Node) : Prop :=
  ∃ m, n.Reaches hoists m ∧ name ∈ m.namesAround hoists

/-- Nothing that is evaluated in a pattern of the tree, a default or a key that is computed,
declares anything around itself but what it hoists. -/
def HasClosedPatterns (n : Node) : Prop :=
  ∀ q ∈ n.parts, ∀ part ∈ q.evaluated, ∀ name, ¬ part.Declares false name

variable {hoists : Bool} {n c name : Node}

/-- What a node declares is its own names and what is declared beside it or in its blocks. -/
theorem declares_iff : n.Declares hoists name ↔ name ∈ n.namesAround hoists ∨
    (∃ c ∈ n.beside, c.Declares hoists name) ∨
    (hoists ∧ ∃ c ∈ n.blocks, c.Declares hoists name) := by
  constructor
  · rintro ⟨m, hreaches, hname⟩
    cases hreaches with
    | here => exact .inl hname
    | beside hc h => exact .inr (.inl ⟨_, hc, m, h, hname⟩)
    | block hhoists hc h => exact .inr (.inr ⟨hhoists, _, hc, m, h, hname⟩)
  · rintro (hname | ⟨c, hc, m, h, hname⟩ | ⟨hhoists, c, hc, m, h, hname⟩)
    · exact ⟨n, .here n, hname⟩
    · exact ⟨m, .beside hc h, hname⟩
    · exact ⟨m, .block hhoists hc h, hname⟩

/-- A node that declares nothing and has nothing beside it is closed. -/
theorem not_declares_of_plain (hbeside : n.beside.isEmpty) (hnames : n.scopedNames.isEmpty)
    (name : Node) : ¬ n.Declares false name := by
  rw [declares_iff, List.isEmpty_iff.mp hbeside, namesAround, List.isEmpty_iff.mp hnames]
  simp

end StaticLiteral.Node
