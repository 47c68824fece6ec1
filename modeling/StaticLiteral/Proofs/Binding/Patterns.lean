import StaticLiteral.Proofs.Binding.Steps
import StaticLiteral.Proofs.Syntax.Names

/-!
# The steps of patterns

Binding a pattern declares what its leaves are and binds what is evaluated in it, nothing else:
`of_mem_pattern_steps`, `leaf_mem_pattern_steps`, `visit_mem_pattern_steps`.
-/

namespace StaticLiteral.Binding

open Node

variable {target : Site} {manner : Manner} {step : Step} {name leaf part declaration : Node}

/-- The step that declares a variable of a pattern for some declaration. -/
def IsLeafStep (target : Site) (manner : Manner) (leaf : Node) (step : Step) : Prop :=
  ∃ declaration, step = .note leaf (target.declare [.value] manner.exported
    (.declaredBy manner.kind declaration manner.isConst) leaf)

/-- The node can declare something in the tree: it is a part of it and no mere name. -/
def DeclarerIn (n d : Node) : Prop := d ∈ n.parts ∧ d.identifier? = none

/-- What can declare something in a child can do so in the tree. -/
theorem DeclarerIn.of_mem_children {n c d : Node} (h : DeclarerIn c d) (hc : c ∈ n.children) :
    DeclarerIn n d :=
  ⟨parts_subset_of_mem_children hc h.1, h.2⟩

/-- The step of a key is taken if the key is evaluated. -/
theorem key_steps_eq (key : Option Node) :
    keySteps target key = visitAll target (evaluatedKey key) := by
  cases key with
  | none => rfl
  | some key => cases key <;> rfl

mutual

/-- A step of a pattern declares a leaf or binds what is evaluated. A leaf is declared by the
element that it is the name of. -/
theorem of_mem_pattern_steps {declaration : Node} : ∀ {name : Node},
    step ∈ patternSteps target manner declaration name →
      (∃ leaf ∈ name.leaves, ∃ d, (d = declaration ∨ DeclarerIn name d) ∧ step = .note leaf
        (target.declare [.value] manner.exported (.declaredBy manner.kind d manner.isConst) leaf)) ∨
        ∃ part ∈ name.evaluated, step = .visit target part := by
  intro name h
  cases name with
  | objectBindingPattern i elements | arrayBindingPattern i elements =>
      rw [patternSteps] at h
      rcases of_mem_element_steps h with ⟨leaf, hleaf, d, ⟨element, helement, hd⟩, h⟩ |
        ⟨part, hpart, h⟩
      · refine .inl ⟨leaf, by simpa only [leaves] using hleaf, d, .inr (hd.of_mem_children ?_), h⟩
        simpa [children_eq, fields, Field.contents] using helement
      · exact .inr ⟨part, by simpa only [evaluated] using hpart, h⟩
  | _ =>
      obtain rfl := List.mem_singleton.mp (by simpa only [patternSteps] using h)
      exact .inl ⟨_, by simp only [leaves, List.mem_singleton], declaration, .inl rfl, rfl⟩

/-- A step of the elements of a pattern declares a leaf or binds what is evaluated. -/
theorem of_mem_element_steps : ∀ {elements : List Node},
    step ∈ elementSteps target manner elements →
      (∃ leaf ∈ leavesOfAll elements, ∃ d, (∃ e ∈ elements, DeclarerIn e d) ∧ step = .note leaf
        (target.declare [.value] manner.exported (.declaredBy manner.kind d manner.isConst) leaf)) ∨
        ∃ part ∈ evaluatedOfAll elements, step = .visit target part
  | [], h => by simp [elementSteps] at h
  | element :: rest, h => by
      have hrest : step ∈ elementSteps target manner rest →
          (∃ leaf ∈ leavesOfAll rest, ∃ d, (∃ e ∈ element :: rest, DeclarerIn e d) ∧
            step = .note leaf (target.declare [.value] manner.exported
              (.declaredBy manner.kind d manner.isConst) leaf)) ∨
            ∃ part ∈ evaluatedOfAll rest, step = .visit target part := fun h =>
        (of_mem_element_steps h).imp_left fun ⟨leaf, hleaf, d, ⟨e, he, hd⟩, h⟩ =>
          ⟨leaf, hleaf, d, ⟨e, List.mem_cons_of_mem _ he, hd⟩, h⟩
      cases element with
      | bindingElement i name key init isRest =>
          simp only [elementSteps, key_steps_eq, visitAll, List.mem_append, List.mem_map] at h
          simp only [leavesOfAll, evaluatedOfAll, List.mem_append]
          rcases h with ((⟨part, hpart, rfl⟩ | h) | ⟨part, hpart, rfl⟩) | h
          · exact .inr ⟨part, .inl (.inl (.inl hpart)), rfl⟩
          · rcases of_mem_pattern_steps h with ⟨leaf, hleaf, d, hd, h⟩ | ⟨part, hpart, h⟩
            · refine .inl ⟨leaf, .inl hleaf, d, ⟨_, List.mem_cons_self, ?_⟩, h⟩
              rcases hd with rfl | hd
              · exact ⟨mem_parts_self _, rfl⟩
              · refine hd.of_mem_children ?_
                simp [children_eq, fields, Field.contents]
            · exact .inr ⟨part, .inl (.inl (.inr hpart)), h⟩
          · exact .inr ⟨part, .inl (.inr hpart), rfl⟩
          · rcases hrest h with ⟨leaf, hleaf, h⟩ | ⟨part, hpart, h⟩
            · exact .inl ⟨leaf, .inr hleaf, h⟩
            · exact .inr ⟨part, .inr hpart, h⟩
      | _ => simpa only [leavesOfAll, evaluatedOfAll] using
          hrest (by simpa only [elementSteps] using h)

end

mutual

/-- What is evaluated in a pattern is bound. -/
theorem visit_mem_pattern_steps {declaration : Node} : ∀ {name : Node}, part ∈ name.evaluated →
    .visit target part ∈ patternSteps target manner declaration name := by
  intro name h
  cases name with
  | objectBindingPattern i elements | arrayBindingPattern i elements =>
      rw [patternSteps]
      exact visit_mem_element_steps (by simpa only [evaluated] using h)
  | _ => simp [evaluated] at h

/-- What is evaluated in the elements of a pattern is bound. -/
theorem visit_mem_element_steps : ∀ {elements : List Node}, part ∈ evaluatedOfAll elements →
    .visit target part ∈ elementSteps target manner elements
  | [], h => by simp [evaluatedOfAll] at h
  | element :: rest, h => by
      cases element with
      | bindingElement i name key init isRest =>
          simp only [elementSteps, key_steps_eq, List.mem_append]
          simp only [evaluatedOfAll, List.mem_append] at h
          rcases h with ((h | h) | h) | h
          · exact .inl (.inl (.inl (List.mem_map_of_mem h)))
          · exact .inl (.inl (.inr (visit_mem_pattern_steps h)))
          · exact .inl (.inr (List.mem_map_of_mem h))
          · exact .inr (visit_mem_element_steps h)
      | _ => simpa only [elementSteps] using
          visit_mem_element_steps (by simpa only [evaluatedOfAll] using h)

end

mutual

/-- Every leaf of a pattern is declared. -/
theorem leaf_mem_pattern_steps {declaration : Node} : ∀ {name : Node}, leaf ∈ name.leaves →
    ∃ step ∈ patternSteps target manner declaration name, IsLeafStep target manner leaf step := by
  intro name h
  cases name with
  | objectBindingPattern i elements | arrayBindingPattern i elements =>
      rw [patternSteps]
      exact leaf_mem_element_steps (by simpa only [leaves] using h)
  | _ =>
      obtain rfl := List.mem_singleton.mp (by simpa only [leaves] using h)
      exact ⟨_, by simp only [patternSteps, List.mem_singleton], declaration, rfl⟩

/-- Every leaf of the elements of a pattern is declared. -/
theorem leaf_mem_element_steps : ∀ {elements : List Node}, leaf ∈ leavesOfAll elements →
    ∃ step ∈ elementSteps target manner elements, IsLeafStep target manner leaf step
  | [], h => by simp [leavesOfAll] at h
  | element :: rest, h => by
      cases element with
      | bindingElement i name key init isRest =>
          simp only [elementSteps, List.mem_append]
          rcases List.mem_append.mp (by simpa only [leavesOfAll] using h) with h | h
          · obtain ⟨step, hstep, h⟩ := leaf_mem_pattern_steps h
            exact ⟨step, .inl (.inl (.inr hstep)), h⟩
          · obtain ⟨step, hstep, h⟩ := leaf_mem_element_steps h
            exact ⟨step, .inr hstep, h⟩
      | _ => simpa only [elementSteps] using
          leaf_mem_element_steps (by simpa only [leavesOfAll] using h)

end

end StaticLiteral.Binding
