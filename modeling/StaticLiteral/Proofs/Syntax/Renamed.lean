import StaticLiteral.Proofs.Syntax.Emptied
import StaticLiteral.Proofs.Syntax.Similar

/-!
# Names spelled differently

`Node.renamed` spells one identifier of a tree differently. Every other node keeps all but its
children (`renamed_eq`), so identities, heights and places stay.
-/

namespace StaticLiteral

namespace Node

/-- The tree with the identifier `target` spelled `fresh`, down to some level. -/
def renamedFrom (target : NodeId) (fresh : Text) : Nat → Node → Node
  | 0, n => n
  | _ + 1, identifier i text => .identifier i (if i.id = target then fresh else text)
  | depth + 1, n => n.mapChildren (renamedFrom target fresh depth)

/-- The tree with the identifier `target` spelled `fresh`. -/
def renamed (target : NodeId) (fresh : Text) (n : Node) : Node :=
  renamedFrom target fresh n.height n

variable {target : NodeId} {fresh : Text} {n : Node}

/-- Changes that agree on the children change a node alike. -/
theorem map_children_congr {f g : Node → Node} (h : ∀ c ∈ n.children, f c = g c) :
    n.mapChildren f = n.mapChildren g := by
  rw [children_eq] at h
  have hall : ∀ ns : List Node, (∀ c ∈ ns, f c = g c) → ns.map f = ns.map g :=
    fun ns h => List.map_congr_left h
  have hoption : ∀ o : Option Node, (∀ c, o = some c → f c = g c) → o.map f = o.map g :=
    fun o h => Option.map_congr fun c hc => h c hc
  cases n <;> simp [fields, Field.contents] at h <;> simp [mapChildren] <;> grind

/-- An identifier is spelled differently if it is the target. -/
@[simp]
theorem renamed_identifier (target : NodeId) (fresh : Text) (i : Info) (text : Text) :
    (identifier i text).renamed target fresh =
      .identifier i (if i.id = target then fresh else text) := rfl

/-- Every level below the tree is renamed. -/
theorem renamed_from_of_height_le {depth : Nat} (h : n.height ≤ depth) :
    renamedFrom target fresh depth n = n.renamed target fresh := by
  induction n using children_induction generalizing depth with
  | step n ih =>
      obtain ⟨below, hbelow⟩ := Nat.exists_eq_add_of_le' n.height_pos
      obtain ⟨depth, rfl⟩ := Nat.exists_eq_add_of_le' (Nat.le_trans n.height_pos h)
      have hchildren : n.mapChildren (renamedFrom target fresh depth) =
          n.mapChildren (renamedFrom target fresh below) := by
        refine map_children_congr fun c hc => ?_
        have hlt := height_lt_of_mem_children hc
        rw [ih c hc (by omega), ih c hc (by omega)]
      rw [renamed, hbelow]
      cases n with
      | identifier i text => rfl
      | _ => exact hchildren

/-- Every node but an identifier keeps all but its children. -/
theorem renamed_eq (h : n.identifier? = none) :
    n.renamed target fresh = n.mapChildren (renamed target fresh) := by
  obtain ⟨below, hbelow⟩ := Nat.exists_eq_add_of_le' n.height_pos
  have hchildren : n.mapChildren (renamedFrom target fresh below) =
      n.mapChildren (renamed target fresh) := by
    refine map_children_congr fun c hc => renamed_from_of_height_le ?_
    have hlt := height_lt_of_mem_children hc
    omega
  rw [renamed, hbelow, ← hchildren]
  cases n with
  | identifier i text => cases h
  | _ => rfl

/-- Changing the children changes no identity. -/
theorem id_map_children (f : Node → Node) (n : Node) : (n.mapChildren f).id = n.id := by
  cases n <;> rfl

/-- A renamed node stays where it is. -/
@[simp]
theorem id_renamed (target : NodeId) (fresh : Text) (n : Node) :
    (n.renamed target fresh).id = n.id := by
  cases n with
  | identifier i text => rfl
  | _ => rw [renamed_eq rfl, id_map_children]

/-- Every node but the target keeps all but its children. -/
theorem renamed_eq_of_ne (h : n.id ≠ target) :
    n.renamed target fresh = n.mapChildren (renamed target fresh) := by
  cases n with
  | identifier i text =>
      have hid : i.id ≠ target := h
      simp [hid, mapChildren]
  | _ => exact renamed_eq rfl

/-- An identifier that is not the target keeps its spelling. -/
theorem identifier_renamed (h : n.id ≠ target) :
    (n.renamed target fresh).identifier? = n.identifier? := by
  rw [renamed_eq_of_ne h]
  cases n <;> rfl

/-- The children of a renamed node are the renamed children. -/
@[simp]
theorem children_renamed (target : NodeId) (fresh : Text) (n : Node) :
    (n.renamed target fresh).children = n.children.map (renamed target fresh) := by
  cases n with
  | identifier i text => simp [children_eq, fields, Field.contents]
  | _ => rw [renamed_eq rfl, children_map_children]

/-- A tree without the target stays as it is. -/
theorem renamed_eq_self (h : ∀ part ∈ n.parts, part.id ≠ target) :
    n.renamed target fresh = n := by
  induction n using children_induction with
  | step n ih =>
      rw [renamed_eq_of_ne (h n (mem_parts_self n))]
      refine (map_children_congr fun c hc => ?_).trans n.map_children_id
      exact ih c hc fun part hpart => h part (parts_subset_of_mem_children hc hpart)

/-- A renamed tree is as high as before. -/
@[simp]
theorem height_renamed (target : NodeId) (fresh : Text) (n : Node) :
    (n.renamed target fresh).height = n.height := by
  induction n using children_induction with
  | step n ih =>
      rw [height_eq, height_eq n, children_renamed]
      generalize n.children = children at ih
      induction children with
      | nil => rfl
      | cons c cs ihcs =>
          have hcs := ihcs fun c hc => ih c (List.mem_cons_of_mem _ hc)
          simp only [List.map_cons, heightOfAll, ih c (by simp)]
          omega

/-- Renamed trees are as high as before. -/
theorem height_of_all_renamed (target : NodeId) (fresh : Text) (ns : List Node) :
    heightOfAll (ns.map (renamed target fresh)) = heightOfAll ns := by
  induction ns with
  | nil => rfl
  | cons n ns ih => simp [heightOfAll, ih]

/-! ## Places -/

mutual

/-- A tree that was placed stands in its place when it is renamed. -/
theorem place_renamed_place (target : NodeId) (fresh file : Text) (way : List Nat) : ∀ n : Node,
    place file way ((place file way n).renamed target fresh) =
      (place file way n).renamed target fresh := by
  intro n
  cases n with
  | identifier i text => rfl
  | _ =>
      rw [place, renamed_eq rfl]
      simp [mapChildren, place, Info.placed, place_renamed_place target fresh,
        place_all_renamed_place target fresh, place_option_renamed_place target fresh]

/-- Trees that were placed stand in their places when they are renamed. -/
theorem place_all_renamed_place (target : NodeId) (fresh file : Text) (way : List Nat) (k : Nat) :
    ∀ ns : List Node, placeAll file way k ((placeAll file way k ns).map (renamed target fresh)) =
      (placeAll file way k ns).map (renamed target fresh)
  | [] => rfl
  | n :: ns => by
      simp only [placeAll, List.map_cons, place_renamed_place target fresh file (k :: way) n,
        place_all_renamed_place target fresh file way (k + 1) ns]

/-- A tree that may be missing and was placed stands in its place when it is renamed. -/
theorem place_option_renamed_place (target : NodeId) (fresh file : Text) (way : List Nat) :
    ∀ n : Option Node,
      placeOption file way ((placeOption file way n).map (renamed target fresh)) =
        (placeOption file way n).map (renamed target fresh)
  | none => rfl
  | some n => by
      simp only [placeOption, Option.map_some, place_renamed_place target fresh file way n]

end

end Node

end StaticLiteral
