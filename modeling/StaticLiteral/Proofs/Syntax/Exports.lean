import StaticLiteral.Proofs.Syntax.Reach
import StaticLiteral.Semantic.Binding

/-!
# What a tree exports

A statement exports what it declares, the entries of a list, or a default. `Node.Within` says which
namespace or module is the innermost one around a part of a tree; in a tree that is laid out there
is only one answer.
-/

namespace StaticLiteral.Node

/-- What a statement exports: names, entries of a list, or itself as the default. -/
def exported : Node → List Node
  | variableStatement _ _ declarations true _ => variableNames declarations
  | functionDeclaration _ name _ _ true | classDeclaration _ name true => name.toList
  | typeAliasDeclaration _ name _ true | interfaceDeclaration _ name _ true
  | enumDeclaration _ name _ _ true | moduleDeclaration _ name _ true => [name]
  | exportDeclaration _ specifiers _ false => specifiers
  | n@(exportAssignment ..) => [n]
  | _ => []

/-- The name that something is exported under. What was not understood has none, nor has a text that
names a module. -/
def exportKey? : Node → Option Text
  | identifier _ text => some text
  | exportSpecifier _ name _ => some name
  | exportAssignment .. => some defaultName
  | _ => none

/-- The innermost namespace or module around what is below the node, if `outer` is the one around
the node. -/
def moduleBelow (outer : Option Node) : Node → Option Node
  | n@(moduleDeclaration ..) => some n
  | _ => outer

/-- The innermost namespace or module around a part of a tree, if `outer` is the one around the
tree. -/
inductive Within : Option Node → Node → Node → Option Node → Prop where
  | here (outer : Option Node) (n : Node) : Within outer n n outer
  | child {outer inner : Option Node} {n c m : Node} (hc : c ∈ n.children)
      (h : Within (n.moduleBelow outer) c m inner) : Within outer n m inner

/-- No namespace or module stands between the node and the part. -/
def Beside (n m : Node) : Prop := ∀ outer, Within outer n m outer

variable {outer inner last : Option Node} {n c m q : Node}

namespace Within

/-- What is within a part is within the tree. -/
theorem trans (h : Within outer n m inner) (h' : Within inner m q last) :
    Within outer n q last := by
  induction h with
  | here => exact h'
  | child hc _ ih => exact .child hc (ih h')

/-- What stands within a tree is a part of it. -/
theorem mem_parts (h : Within outer n m inner) : m ∈ n.parts := by
  induction h with
  | here => exact mem_parts_self _
  | child hc _ ih => exact parts_subset_of_mem_children hc ih

/-- In a tree that is laid out, one namespace or module is the innermost one around a part. -/
theorem unique (hlaid : Laid n) (h : Within outer n m inner) (h' : Within outer n m last) :
    inner = last := by
  induction h with
  | here outer n =>
      cases h' with
      | here => rfl
      | child hc h' =>
          have hbelow := List.mem_flatMap.mpr ⟨_, hc, h'.mem_parts⟩
          exact absurd (height_lt_of_mem_below hbelow) (Nat.lt_irrefl _)
  | @child outer inner n c m hc h ih =>
      cases h' with
      | here =>
          have hbelow := List.mem_flatMap.mpr ⟨_, hc, h.mem_parts⟩
          exact absurd (height_lt_of_mem_below hbelow) (Nat.lt_irrefl _)
      | @child _ _ _ d _ hd h' =>
          -- Both children have the part in them, so they are the same.
          obtain ⟨below, _, apart⟩ := hlaid
          have hcm := (below c hc).encloses h.mem_parts
          have hdm := (below d hd).encloses h'.mem_parts
          by_cases heq : c = d
          · exact ih (below c hc) (heq ▸ h')
          · obtain ⟨hcd, hdc⟩ := apart.forall hc hd heq
            rcases hcm.total hdm with henc | henc
            · exact absurd henc hcd
            · exact absurd henc hdc

end Within

/-- One step down a tree to a child, with the innermost namespace or module around the place. -/
def descend (place : Option Node × Node) (k : Nat) : Option (Option Node × Node) :=
  place.2.children[k]?.map (place.2.moduleBelow place.1, ·)

/-- Going down a tree leads to what is within it. -/
theorem within_of_descend {place bottom : Option Node × Node} {way : List Nat}
    (h : way.foldlM descend place = some bottom) : Within place.1 place.2 bottom.2 bottom.1 := by
  induction way generalizing place with
  | nil =>
      obtain rfl := Option.some.inj h
      exact .here _ _
  | cons k way ih =>
      obtain ⟨next, hnext, h⟩ := Option.bind_eq_some_iff.mp h
      obtain ⟨c, hc, rfl⟩ := Option.map_eq_some_iff.mp hnext
      exact .child (List.mem_of_getElem? hc) (ih h)

/-- Something with a property is within a tree if a way down leads to it. -/
theorem exists_within_of_any {place : Option Node × Node} {way : List Nat}
    {P : Option Node × Node → Prop} [DecidablePred P]
    (h : (way.foldlM descend place).any fun bottom => P bottom) :
    ∃ bottom, Within place.1 place.2 bottom.2 bottom.1 ∧ P bottom := by
  cases hway : way.foldlM descend place with
  | none => simp [hway] at h
  | some bottom => exact ⟨bottom, within_of_descend hway, by simpa [hway] using h⟩

namespace Beside

/-- Nothing stands between a node and itself. -/
theorem refl (n : Node) : Beside n n := fun outer => .here outer n

/-- A child stands beside its parent, unless that is a namespace or module. -/
theorem child (hn : ∀ outer, n.moduleBelow outer = outer) (hc : c ∈ n.children) : Beside n c :=
  fun outer => .child hc (by rw [hn outer]; exact .here outer c)

/-- What stands beside a part of what is beside a node stands beside the node. -/
theorem trans (h : Beside n m) (h' : Beside m q) : Beside n q := fun outer =>
  (h outer).trans (h' outer)

end Beside

mutual

/-- What is evaluated in a pattern stands beside it. -/
theorem beside_of_evaluated : ∀ {name : Node}, m ∈ name.evaluated → Beside name m := by
  intro name h
  cases name with
  | objectBindingPattern i elements | arrayBindingPattern i elements =>
      obtain ⟨e, he, hm⟩ := beside_of_evaluated_of_all (by simpa only [evaluated] using h)
      refine .trans (.child (fun _ => rfl) ?_) hm
      simpa [children_eq, fields, Field.contents] using he
  | _ => simp [evaluated] at h

/-- What is evaluated in the elements of a pattern stands beside one of them. -/
theorem beside_of_evaluated_of_all : ∀ {elements : List Node}, m ∈ evaluatedOfAll elements →
    ∃ e ∈ elements, Beside e m
  | [], h => by simp [evaluatedOfAll] at h
  | element :: rest, h => by
      have hrest : m ∈ evaluatedOfAll rest → ∃ e ∈ element :: rest, Beside e m := fun h => by
        obtain ⟨e, he, hm⟩ := beside_of_evaluated_of_all h
        exact ⟨e, List.mem_cons_of_mem _ he, hm⟩
      cases element with
      | bindingElement i name key init isRest =>
          have hchild : ∀ {c}, c ∈ name :: (key.toList ++ init.toList) →
              Beside (bindingElement i name key init isRest) c := fun hc =>
            .child (fun _ => rfl) (by simpa [children_eq, fields, Field.contents] using hc)
          simp only [evaluatedOfAll, List.mem_append] at h
          rcases h with ((h | h) | h) | h
          · have hkey := List.mem_of_mem_filter h
            exact ⟨_, List.mem_cons_self, hchild (by simp [Option.mem_toList.mp hkey])⟩
          · refine ⟨_, List.mem_cons_self, .trans (hchild List.mem_cons_self) ?_⟩
            exact beside_of_evaluated h
          · exact ⟨_, List.mem_cons_self, hchild (by simp [Option.mem_toList.mp h])⟩
          · exact hrest h
      | _ => exact hrest (by simpa only [evaluatedOfAll] using h)

end

end StaticLiteral.Node
