import StaticLiteral.Proofs.Syntax.Forms

/-!
# Names in trees

The positions in which a node is a name of something rather than a use of a name, and what is in a
pattern: the names that it binds, and the keys and defaults that are evaluated for it.
-/

namespace StaticLiteral.Node

/-- The children that are names: of what the node declares or assigns, or of its key. -/
def names : Node → List Node
  | variableDeclaration _ name _ _ | parameter _ name _ _ | typeAliasDeclaration _ name _ _
  | interfaceDeclaration _ name _ _ | enumDeclaration _ name _ _ _ | moduleDeclaration _ name _ _
  | importSpecifier _ name _ _ | propertySignature _ name _ | enumMember _ name _
  | propertyAssignment _ name _ | shorthandPropertyAssignment _ name
  | methodDeclaration _ name _ => [name]
  | bindingElement _ name key _ _ => name :: key.toList
  | functionDeclaration _ name _ _ _ | functionExpression _ name _ _
  | classDeclaration _ name _ => name.toList
  | _ => []

/-- The names that are not the key of an element: what the node declares or assigns is known under
them. -/
def ownNames : Node → List Node
  | bindingElement _ name _ _ _ => [name]
  | n => n.names

/-- The children under which variables are declared: names, patterns, or whatever was not
understood. -/
def declaredNames : Node → List Node
  | variableDeclaration _ name _ _ | parameter _ name _ _ | bindingElement _ name _ _ _ => [name]
  | _ => []

mutual

/-- What a pattern declares variables under; without a pattern the node itself. -/
def leaves : Node → List Node
  | objectBindingPattern _ elements | arrayBindingPattern _ elements => leavesOfAll elements
  | name => [name]

/-- What the elements of a pattern declare variables under. -/
def leavesOfAll : List Node → List Node
  | [] => []
  | bindingElement _ name _ _ _ :: rest => leaves name ++ leavesOfAll rest
  | _ :: rest => leavesOfAll rest

end

mutual

/-- The elements of a pattern and of the patterns in it. -/
def patternElements : Node → List Node
  | objectBindingPattern _ elements | arrayBindingPattern _ elements => elementsOfAll elements
  | _ => []

/-- The elements among some nodes, and those of the patterns that they have as names. -/
def elementsOfAll : List Node → List Node
  | [] => []
  | bindingElement i name key init isRest :: rest =>
    bindingElement i name key init isRest :: patternElements name ++ elementsOfAll rest
  | _ :: rest => elementsOfAll rest

end

/-- The key of an element if it is evaluated: a key that is written as a name is not. -/
def evaluatedKey (key : Option Node) : List Node :=
  key.toList.filter fun key => key.identifier?.isNone

mutual

/-- The keys and defaults that are evaluated in a pattern. -/
def evaluated : Node → List Node
  | objectBindingPattern _ elements | arrayBindingPattern _ elements => evaluatedOfAll elements
  | _ => []

/-- The keys and defaults that are evaluated in the elements of a pattern. -/
def evaluatedOfAll : List Node → List Node
  | [] => []
  | bindingElement _ name key init _ :: rest =>
    evaluatedKey key ++ evaluated name ++ init.toList ++ evaluatedOfAll rest
  | _ :: rest => evaluatedOfAll rest

end

variable {n m q leaf name : Node}

/-- Names are children. -/
theorem names_subset_children (n : Node) : n.names ⊆ n.children := by
  rw [children_eq]
  cases n <;> simp [names, fields, Field.contents]

/-- Names that are no keys are names. -/
theorem own_names_subset_names (n : Node) : n.ownNames ⊆ n.names := by
  cases n with
  | bindingElement _ name key => exact List.cons_subset_cons name (List.nil_subset key.toList)
  | _ => exact List.Subset.refl _

/-- What declares variables is no key. -/
theorem declared_names_subset_own_names (n : Node) : n.declaredNames ⊆ n.ownNames := by
  cases n with
  | variableDeclaration | parameter | bindingElement => exact List.Subset.refl _
  | _ => exact List.nil_subset _

/-- What declares variables is a name. -/
theorem declared_names_subset_names (n : Node) : n.declaredNames ⊆ n.names :=
  List.Subset.trans (declared_names_subset_own_names n) (own_names_subset_names n)

/-- Names are parts. -/
theorem mem_parts_of_mem_names (h : m ∈ n.names) : m ∈ n.parts :=
  parts_subset_of_mem_children (names_subset_children n h) (mem_parts_self m)

mutual

/-- The elements of a pattern are parts of it. -/
theorem pattern_elements_subset_parts : ∀ name : Node, name.patternElements ⊆ name.parts := by
  intro name
  cases name with
  | objectBindingPattern i elements | arrayBindingPattern i elements =>
      refine List.Subset.trans ?_ (below_subset_parts _)
      simpa [patternElements, children_eq, fields, Field.contents] using
        elements_subset_parts elements
  | _ => exact List.nil_subset _

/-- The elements among some nodes are parts of them. -/
theorem elements_subset_parts : ∀ elements : List Node,
    elementsOfAll elements ⊆ elements.flatMap parts
  | [] => List.nil_subset _
  | element :: rest => by
      have hrest : elementsOfAll rest ⊆ (element :: rest).flatMap parts :=
        List.subset_append_of_subset_right _ (elements_subset_parts rest)
      cases element with
      | bindingElement i name key init isRest =>
          have hname := parts_subset_of_mem_children
            (show name ∈ (bindingElement i name key init isRest).children by
              simp [children_eq, fields, Field.contents])
          rw [elementsOfAll, List.cons_append, List.cons_subset, List.append_subset]
          refine ⟨List.mem_append_left _ (mem_parts_self _), ?_, hrest⟩
          exact List.subset_append_of_subset_left _
            (List.Subset.trans (pattern_elements_subset_parts name) hname)
      | _ => exact hrest

end

mutual

/-- A pattern declares variables under names of its own or of its elements. -/
theorem exists_declared_of_leaf : ∀ {name q : Node}, leaf ∈ name.leaves →
    name ∈ q.declaredNames → ∃ r ∈ q.parts, leaf ∈ r.declaredNames := by
  intro name q hleaf hname
  have hparts := parts_subset (mem_parts_of_mem_names (declared_names_subset_names q hname))
  cases name with
  | objectBindingPattern i elements | arrayBindingPattern i elements =>
      obtain ⟨r, hr, hleaf⟩ := exists_declared_of_leaf_of_all (by simpa [leaves] using hleaf)
      refine ⟨r, hparts (below_subset_parts _ ?_), hleaf⟩
      simpa [children_eq, fields, Field.contents] using hr
  | _ =>
      obtain rfl := List.mem_singleton.mp (by simpa only [leaves] using hleaf)
      exact ⟨q, mem_parts_self q, hname⟩

/-- Elements declare variables under names of elements. -/
theorem exists_declared_of_leaf_of_all : ∀ {elements : List Node},
    leaf ∈ leavesOfAll elements → ∃ r ∈ elements.flatMap parts, leaf ∈ r.declaredNames
  | [], h => by simp [leavesOfAll] at h
  | element :: rest, h => by
      have hrest : leaf ∈ leavesOfAll rest →
          ∃ r ∈ (element :: rest).flatMap parts, leaf ∈ r.declaredNames := fun h => by
        obtain ⟨r, hr, hleaf⟩ := exists_declared_of_leaf_of_all h
        exact ⟨r, List.mem_append_right _ hr, hleaf⟩
      cases element with
      | bindingElement i name key init isRest =>
          rcases List.mem_append.mp (by simpa only [leavesOfAll] using h) with h | h
          · have hname : name ∈ (bindingElement i name key init isRest).declaredNames :=
              List.mem_singleton_self name
            obtain ⟨r, hr, hleaf⟩ := exists_declared_of_leaf h hname
            exact ⟨r, List.mem_append_left _ hr, hleaf⟩
          · exact hrest h
      | _ => exact hrest (by simpa only [leavesOfAll] using h)

end

mutual

/-- In a well-formed tree, what declares variables and is no pattern is a name or was not
understood. -/
theorem role_of_leaf : ∀ {name : Node}, name.WellFormed → name.isBindingName →
    leaf ∈ name.leaves → leaf.role = .name ∨ leaf.role = .unknown := by
  intro name hwell hname h
  cases name with
  | objectBindingPattern i elements | arrayBindingPattern i elements =>
      refine role_of_leaf_of_all (fun e he => (well_formed_iff.mp hwell).2 e ?_)
        (by simpa [leaves] using h)
      simpa [children_eq, fields, Field.contents] using he
  | _ =>
      obtain rfl := List.mem_singleton.mp (by simpa only [leaves] using h)
      simp_all [isBindingName, role]

/-- What declares variables in well-formed elements is a name or was not understood. -/
theorem role_of_leaf_of_all : ∀ {elements : List Node}, (∀ e ∈ elements, e.WellFormed) →
    leaf ∈ leavesOfAll elements → leaf.role = .name ∨ leaf.role = .unknown
  | [], _, h => by simp [leavesOfAll] at h
  | element :: rest, hwell, h => by
      obtain ⟨helement, hrest⟩ := List.forall_mem_cons.mp hwell
      cases element with
      | bindingElement i name key init isRest =>
          rcases List.mem_append.mp (by simpa only [leavesOfAll] using h) with h | h
          · obtain ⟨hformed, hchildren⟩ := well_formed_iff.mp helement
            exact role_of_leaf (hchildren name (by simp [children_eq, fields, Field.contents]))
              hformed h
          · exact role_of_leaf_of_all hrest h
      | _ => exact role_of_leaf_of_all hrest (by simpa only [leavesOfAll] using h)

end

/-- An identifier has no other parts. -/
theorem parts_of_name (h : n.role = .name) : n.parts = [n] := by
  cases n <;> simp [role] at h
  simp [parts_eq, children_eq, fields, Field.contents]

/-- A part of an element belongs to its name or to what is evaluated, or it is a key that is written
as a name. -/
theorem mem_parts_element {i : Info} {key init : Option Node} {isRest : Bool}
    (hm : m.role = .name ∨ m.role = .other)
    (hwell : (bindingElement i name key init isRest).WellFormed)
    (h : m ∈ (bindingElement i name key init isRest).parts) :
    (name.WellFormed ∧ m ∈ name.parts) ∨
      (∃ part ∈ evaluatedKey key ++ init.toList, m ∈ part.parts) ∨
      (m.role = .name ∧ m ∈ (bindingElement i name key init isRest).names) := by
  obtain ⟨hformed, hchildren⟩ := well_formed_iff.mp hwell
  rw [parts_eq] at h
  rcases List.mem_cons.mp h with rfl | h
  · simp [role] at hm
  · obtain ⟨c, hc, hpart⟩ := List.mem_flatMap.mp h
    have hwhole := hchildren c hc
    simp only [children_eq, fields, Field.contents, List.flatMap_cons, List.flatMap_nil,
      List.append_nil, List.singleton_append, List.mem_cons, List.mem_append,
      Option.mem_toList] at hc
    rcases hc with rfl | hkey | hinit
    · exact .inl ⟨hwhole, hpart⟩
    · by_cases hrole : c.role = .name
      · obtain rfl := List.mem_singleton.mp (parts_of_name hrole ▸ hpart)
        exact .inr (.inr ⟨hrole, List.mem_cons_of_mem _ (Option.mem_toList.mpr hkey)⟩)
      · refine .inr (.inl ⟨c, List.mem_append_left _ (List.mem_filter.mpr ⟨?_, ?_⟩), hpart⟩)
        · exact Option.mem_toList.mpr hkey
        · cases c <;> first | rfl | exact absurd rfl hrole
    · exact .inr (.inl ⟨c, List.mem_append_right _ (Option.mem_toList.mpr hinit), hpart⟩)

mutual

/-- A part of a pattern belongs to what declares variables or to what is evaluated, or it is a key
that is written as a name; unless it is one of the nodes that the pattern is made of. -/
theorem mem_parts_pattern (hm : m.role = .name ∨ m.role = .other) : ∀ {name : Node},
    name.WellFormed → m ∈ name.parts →
      (∃ leaf ∈ name.leaves, m ∈ leaf.parts) ∨ (∃ part ∈ name.evaluated, m ∈ part.parts) ∨
        ∃ r ∈ name.parts, m.role = .name ∧ m ∈ r.names := by
  intro name hwell h
  cases name with
  | objectBindingPattern i elements | arrayBindingPattern i elements =>
      obtain ⟨hformed, hchildren⟩ := well_formed_iff.mp hwell
      rw [parts_eq] at h
      rcases List.mem_cons.mp h with rfl | h
      · simp [role] at hm
      · have hwell : ∀ e ∈ elements, e.WellFormed := fun e he =>
          hchildren e (by simpa [children_eq, fields, Field.contents] using he)
        have hrole : ∀ e ∈ elements, e.role = .element ∨ e.role = .hole := by
          simpa [isFormed] using hformed
        have hparts : m ∈ elements.flatMap parts := by
          simpa [children_eq, fields, Field.contents] using h
        rcases mem_parts_elements hm hwell hrole hparts with h | h | ⟨r, hr, h⟩
        · exact .inl (by simpa only [leaves] using h)
        · exact .inr (.inl (by simpa only [evaluated] using h))
        · refine .inr (.inr ⟨r, below_subset_parts _ ?_, h⟩)
          simpa [children_eq, fields, Field.contents] using hr
  | _ => exact .inl ⟨_, by simp only [leaves, List.mem_singleton], h⟩

/-- A part of the elements of a pattern belongs to what declares variables or to what is evaluated,
or it is a key that is written as a name. -/
theorem mem_parts_elements (hm : m.role = .name ∨ m.role = .other) : ∀ {elements : List Node},
    (∀ e ∈ elements, e.WellFormed) → (∀ e ∈ elements, e.role = .element ∨ e.role = .hole) →
    m ∈ elements.flatMap parts →
      (∃ leaf ∈ leavesOfAll elements, m ∈ leaf.parts) ∨
        (∃ part ∈ evaluatedOfAll elements, m ∈ part.parts) ∨
        ∃ r ∈ elements.flatMap parts, m.role = .name ∧ m ∈ r.names
  | [], _, _, h => by simp at h
  | element :: rest, hwell, hrole, h => by
      obtain ⟨helement, hwell⟩ := List.forall_mem_cons.mp hwell
      obtain ⟨hkind, hrole⟩ := List.forall_mem_cons.mp hrole
      rcases List.mem_append.mp h with h | h
      · rcases hkind with hkind | hkind
        · obtain ⟨i, name, key, init, isRest, rfl⟩ := exists_element hkind
          rcases mem_parts_element hm helement h with ⟨hname, h⟩ | h | h
          · rcases mem_parts_pattern hm hname h with
              ⟨leaf, hleaf, h⟩ | ⟨part, hpart, h⟩ | ⟨r, hr, h⟩
            · exact .inl ⟨leaf, by simp [leavesOfAll, hleaf], h⟩
            · exact .inr (.inl ⟨part, by simp [evaluatedOfAll, hpart], h⟩)
            · refine .inr (.inr ⟨r, List.mem_append_left _ ?_, h⟩)
              exact parts_subset_of_mem_children (by simp [children_eq, fields, Field.contents]) hr
          · obtain ⟨part, hpart, h⟩ := h
            refine .inr (.inl ⟨part, ?_, h⟩)
            rcases List.mem_append.mp hpart with hpart | hpart <;> simp [evaluatedOfAll, hpart]
          · exact .inr (.inr ⟨_, List.mem_append_left _ (mem_parts_self _), h⟩)
        · cases element <;> simp [role] at hkind
          simp [parts_eq, children_eq, fields] at h
          subst h
          simp [role] at hm
      · rcases mem_parts_elements hm hwell hrole h with
          ⟨leaf, hleaf, h⟩ | ⟨part, hpart, h⟩ | ⟨r, hr, h⟩
        · refine .inl ⟨leaf, ?_, h⟩
          cases element <;> simp [leavesOfAll, hleaf]
        · refine .inr (.inl ⟨part, ?_, h⟩)
          cases element <;> simp [evaluatedOfAll, hpart]
        · exact .inr (.inr ⟨r, List.mem_append_right _ hr, h⟩)

end

end StaticLiteral.Node
