import Mathlib.Data.List.Basic
import StaticLiteral.Proofs.Syntax.Height
import StaticLiteral.Syntax.Field

/-!
# Parts of trees

The parts of a tree are the nodes that a walk over it meets. `parts_eq` describes them without the
bound of the walk: the node itself, and then the parts of its children. Trees are taken apart by
`children_induction`.
-/

namespace StaticLiteral

/-- The nodes in a field. -/
def Field.contents : Field → List Node
  | .node n => [n]
  | .optionalNode n => n.toList
  | .nodes ns => ns
  | _ => []

namespace Node

/-- The nodes in the fields of a node. -/
def children (n : Node) : List Node := n.addressedChildren.map (·.2)

/-- The node and all nodes below it. -/
def parts (n : Node) : List Node := n.walk.map (·.2)

/-- The children are what the fields contain, in their order. -/
theorem children_eq (n : Node) : n.children = n.fields.flatMap (·.2.contents) := by
  rw [children, addressedChildren, List.map_flatMap]
  congr 1
  funext row
  obtain ⟨name, field⟩ := row
  cases field with
  | optionalNode m => cases m <;> rfl
  | nodes ns =>
      show (ns.zipIdx.map fun row => ([name, toString row.2], row.1)).map (·.2) = ns
      rw [List.map_map]
      exact List.zipIdx_map_fst 0 ns
  | _ => rfl

/-- Whether the node is a function of any kind. -/
def isFunction : Node → Bool
  | functionDeclaration .. | functionExpression .. | methodDeclaration .. => true
  | _ => false

/-- The parameters and the body of a function. -/
def inner : Node → List Node
  | functionDeclaration _ _ parameters body _ | functionExpression _ _ parameters body =>
    parameters ++ body.toList
  | methodDeclaration _ _ body => body.toList
  | _ => []

/-- What is inside a function is below it. -/
theorem inner_subset_children (n : Node) : n.inner ⊆ n.children := by
  intro m hm
  cases n <;> simp_all [inner, children_eq, fields, Field.contents]

/-- A child has fewer levels than its parent. -/
theorem height_lt_of_mem_children {n c : Node} (h : c ∈ n.children) : c.height < n.height := by
  rw [children_eq] at h
  have hall : ∀ ns : List Node, c ∈ ns → c.height ≤ heightOfAll ns :=
    fun _ => height_le_height_of_all
  have hoption : ∀ m : Option Node, m = some c → c.height = heightOfOption m := by
    rintro _ rfl
    rfl
  cases n <;> simp [fields, Field.contents] at h <;> simp only [height] <;> grind

/-- What holds of a node if it holds of its children holds of every node. -/
theorem children_induction {motive : Node → Prop}
    (step : ∀ n, (∀ c ∈ n.children, motive c) → motive n) (n : Node) : motive n := by
  induction h : n.height using Nat.strongRecOn generalizing n with
  | ind height ih =>
      refine step n fun c hc => ih c.height ?_ c rfl
      exact h ▸ height_lt_of_mem_children hc

/-- A walk that may go deep enough meets the same nodes at every depth and from every address. -/
theorem walk_from_map_eq (n : Node) :
    ∀ depth other, n.height ≤ depth → n.height ≤ other → ∀ address further,
      (walkFrom depth address n).map (·.2) = (walkFrom other further n).map (·.2) := by
  induction n using children_induction with
  | step n ih =>
      intro depth other hdepth hother address further
      have hpos := n.height_pos
      obtain ⟨depth, rfl⟩ : ∃ k, depth = k + 1 := ⟨depth - 1, by omega⟩
      obtain ⟨other, rfl⟩ : ∃ k, other = k + 1 := ⟨other - 1, by omega⟩
      simp only [walkFrom, List.map_cons, List.map_flatMap, List.cons.injEq, true_and]
      refine List.flatMap_congr fun row hrow => ?_
      have hc : row.2 ∈ n.children := List.mem_map_of_mem hrow
      have hlt := height_lt_of_mem_children hc
      exact ih row.2 hc depth other (by omega) (by omega) _ _

/-- The parts of a node are the node and the parts of its children. -/
theorem parts_eq (n : Node) : n.parts = n :: n.children.flatMap parts := by
  have hpos := n.height_pos
  obtain ⟨depth, hdepth⟩ : ∃ k, n.height = k + 1 := ⟨n.height - 1, by omega⟩
  rw [parts, walk, hdepth, walkFrom, List.map_cons, List.map_flatMap, children, List.flatMap_map]
  congr 1
  refine List.flatMap_congr fun row hrow => ?_
  have hlt := height_lt_of_mem_children (List.mem_map_of_mem hrow : row.2 ∈ n.children)
  exact walk_from_map_eq row.2 depth row.2.height (by omega) (Nat.le_refl _) _ _

/-- A node is one of its parts. -/
theorem mem_parts_self (n : Node) : n ∈ n.parts := by simp [parts_eq n]

/-- The parts below a node are parts of it. -/
theorem below_subset_parts (n : Node) : n.children.flatMap parts ⊆ n.parts := by
  rw [parts_eq n]
  exact List.subset_cons_self _ _

/-- The parts of a child are parts of its parent. -/
theorem parts_subset_of_mem_children {n c : Node} (h : c ∈ n.children) : c.parts ⊆ n.parts :=
  fun _ hm => below_subset_parts n (List.mem_flatMap.mpr ⟨c, h, hm⟩)

/-- The parts of a part are parts. -/
theorem parts_subset {n m : Node} (h : m ∈ n.parts) : m.parts ⊆ n.parts := by
  induction n using children_induction with
  | step n ih =>
      rw [parts_eq n] at h
      rcases List.mem_cons.mp h with rfl | h
      · exact List.Subset.refl _
      · obtain ⟨c, hc, hm⟩ := List.mem_flatMap.mp h
        exact List.Subset.trans (ih c hc hm) (parts_subset_of_mem_children hc)

/-- A part below a node has fewer levels than the node. -/
theorem height_lt_of_mem_below {n m : Node} (h : m ∈ n.children.flatMap parts) :
    m.height < n.height := by
  induction n using children_induction with
  | step n ih =>
      obtain ⟨c, hc, hm⟩ := List.mem_flatMap.mp h
      have hlt := height_lt_of_mem_children hc
      rw [parts_eq c] at hm
      rcases List.mem_cons.mp hm with rfl | hm
      · exact hlt
      · exact Nat.lt_trans (ih c hc hm) hlt

/-- What holds of a node if it holds of the parts below it holds of every node. -/
theorem parts_induction {motive : Node → Prop}
    (step : ∀ n, (∀ m ∈ n.children.flatMap parts, motive m) → motive n) (n : Node) : motive n := by
  induction h : n.height using Nat.strongRecOn generalizing n with
  | ind height ih =>
      refine step n fun m hm => ih m.height ?_ m rfl
      exact h ▸ height_lt_of_mem_below hm

end Node

end StaticLiteral
