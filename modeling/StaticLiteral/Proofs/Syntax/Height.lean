import StaticLiteral.Syntax.Field

/-!
# Heights of trees

The number of levels of a tree bounds those of its parts.
-/

namespace StaticLiteral

/-- No number of a list is greater than their maximum. -/
theorem le_foldr_max {x : Nat} {xs : List Nat} (h : x ∈ xs) : x ≤ xs.foldr max 0 := by
  induction xs with
  | nil => simp at h
  | cons y ys ih =>
      simp only [List.foldr_cons]
      rcases List.mem_cons.mp h with rfl | h
      · omega
      · have := ih h
        omega

namespace Node

/-- A tree of a list is at most as high as the highest. -/
theorem height_le_height_of_all {n : Node} {ns : List Node} (h : n ∈ ns) :
    n.height ≤ heightOfAll ns := by
  induction ns with
  | nil => simp at h
  | cons m ms ih =>
      simp only [heightOfAll]
      rcases List.mem_cons.mp h with rfl | h
      · omega
      · have := ih h
        omega

/-- Every tree has a level. -/
theorem height_pos (n : Node) : 0 < n.height := by
  cases n <;> simp [height]

end Node

end StaticLiteral
