import Mathlib.Data.List.Nodup
import Mathlib.Data.List.Pairwise
import StaticLiteral.Proofs.Syntax.Parts
import StaticLiteral.Syntax.Place

/-!
# The layout of trees

In a tree that `Node.place` laid out, identities tell the structure: a part is below another one
exactly if its place continues the place of that one. `Laid.mem_parts_iff` says so, and
`Laid.eq_of_id_eq` that no two parts have the same identity.
-/

namespace StaticLiteral

/-- A node with the first identity would be at or above one with the second. -/
def NodeId.Encloses (x y : NodeId) : Prop := x.file = y.file ∧ x.place <:+ y.place

namespace NodeId.Encloses

variable {x y z : NodeId}

/-- Every identity encloses itself. -/
theorem refl (x : NodeId) : x.Encloses x := ⟨rfl, List.suffix_refl _⟩

/-- What is enclosed by something enclosed is enclosed. -/
theorem trans (h : x.Encloses y) (h' : y.Encloses z) : x.Encloses z :=
  ⟨h.1.trans h'.1, h.2.trans h'.2⟩

/-- Of two identities that enclose a third one encloses the other. -/
theorem total (h : x.Encloses z) (h' : y.Encloses z) : x.Encloses y ∨ y.Encloses x := by
  rcases Nat.le_total x.place.length y.place.length with hle | hle
  · exact .inl ⟨h.1.trans h'.1.symm, List.suffix_of_suffix_length_le h.2 h'.2 hle⟩
  · exact .inr ⟨h'.1.trans h.1.symm, List.suffix_of_suffix_length_le h'.2 h.2 hle⟩

end NodeId.Encloses

/-- The identity of what stands in a field, or in a list that stands in it under no index yet. -/
def NodeId.field (x : NodeId) (k : Nat) : NodeId := ⟨x.file, k :: x.place⟩

namespace NodeId

/-- An identity encloses those in its fields. -/
theorem encloses_field (x : NodeId) (k : Nat) : x.Encloses (x.field k) :=
  ⟨rfl, List.suffix_cons k x.place⟩

/-- A field does not enclose what it is a field of. -/
theorem not_field_encloses (x : NodeId) (k : Nat) : ¬ (x.field k).Encloses x := by
  intro h
  have hle := h.2.length_le
  simp only [field, List.length_cons] at hle
  omega

/-- Only one field of an identity encloses another identity. -/
theorem field_inj {x y : NodeId} {j k : Nat} (hj : (x.field j).Encloses y)
    (hk : (x.field k).Encloses y) : j = k := by
  rcases hj.total hk with h | h <;>
  · have heq := h.2.eq_of_length (by simp [field])
    simp [field] at heq
    omega

end NodeId

namespace Node

/-- Neither of the nodes would be at or above the other. -/
def Apart (n m : Node) : Prop := ¬ n.id.Encloses m.id ∧ ¬ m.id.Encloses n.id

instance : Std.Symm Apart := ⟨fun _ _ h => ⟨h.2, h.1⟩⟩

/-- A tree whose identities follow its structure: every child stands in a field of its parent, and
siblings stand apart. -/
inductive Laid : Node → Prop where
  | mk {n : Node} (below : ∀ c ∈ n.children, Laid c)
      (fields : ∀ c ∈ n.children, ∃ k, (n.id.field k).Encloses c.id)
      (apart : n.children.Pairwise Apart) : Laid n

namespace Laid

variable {n m q : Node}

/-- A node encloses the parts of its tree. -/
theorem encloses (h : Laid n) (hm : m ∈ n.parts) : n.id.Encloses m.id := by
  induction h with
  | @mk n below fields apart ih =>
      rw [parts_eq n] at hm
      rcases List.mem_cons.mp hm with rfl | hm
      · exact .refl _
      · obtain ⟨c, hc, hm⟩ := List.mem_flatMap.mp hm
        obtain ⟨k, hk⟩ := fields c hc
        exact (n.id.encloses_field k).trans (hk.trans (ih c hc hm))

/-- The parts of a tree that is laid out are laid out. -/
theorem of_mem_parts (h : Laid n) (hm : m ∈ n.parts) : Laid m := by
  induction h with
  | @mk n below fields apart ih =>
      rw [parts_eq n] at hm
      rcases List.mem_cons.mp hm with rfl | hm
      · exact .mk below fields apart
      · obtain ⟨c, hc, hm⟩ := List.mem_flatMap.mp hm
        exact ih c hc hm

/-- A part is at or below another exactly if its identity says so. -/
theorem mem_parts_iff (h : Laid n) (hm : m ∈ n.parts) (hq : q ∈ n.parts) :
    m ∈ q.parts ↔ q.id.Encloses m.id := by
  refine ⟨(h.of_mem_parts hq).encloses, fun henc => ?_⟩
  induction h with
  | @mk n below fields apart ih =>
      rw [parts_eq n] at hq hm
      rcases List.mem_cons.mp hq with rfl | hq
      · rwa [parts_eq]
      obtain ⟨d, hd, hq⟩ := List.mem_flatMap.mp hq
      obtain ⟨j, hj⟩ := fields d hd
      have hdq := (below d hd).encloses hq
      rcases List.mem_cons.mp hm with rfl | hm
      · exact absurd (hj.trans (hdq.trans henc)) (NodeId.not_field_encloses _ _)
      obtain ⟨c, hc, hm⟩ := List.mem_flatMap.mp hm
      -- Both children enclose `m`, so they do not stand apart and are the same.
      have hdm := hdq.trans henc
      have hcm := (below c hc).encloses hm
      by_cases heq : c = d
      · exact ih d hd (heq ▸ hm) hq
      · have hapart := apart.forall hc hd heq
        rcases hcm.total hdm with h | h
        · exact absurd h hapart.1
        · exact absurd h hapart.2

/-- No identity occurs twice. -/
theorem nodup (h : Laid n) : (n.parts.map id).Nodup := by
  induction h with
  | @mk n below fields apart ih =>
      rw [parts_eq n, List.map_cons, List.nodup_cons]
      constructor
      · intro hmem
        obtain ⟨m, hm, heq⟩ := List.mem_map.mp hmem
        obtain ⟨c, hc, hm⟩ := List.mem_flatMap.mp hm
        obtain ⟨k, hk⟩ := fields c hc
        have henc := hk.trans ((below c hc).encloses hm)
        exact NodeId.not_field_encloses _ _ (heq ▸ henc)
      · rw [List.map_flatMap, List.nodup_flatMap]
        refine ⟨ih, apart.imp_of_mem fun hc hd hapart x hx hy => ?_⟩
        obtain ⟨m, hm, rfl⟩ := List.mem_map.mp hx
        obtain ⟨q, hq, heq⟩ := List.mem_map.mp hy
        have hcm := (below _ hc).encloses hm
        have hdm := heq ▸ (below _ hd).encloses hq
        rcases hcm.total hdm with h | h
        · exact hapart.1 h
        · exact hapart.2 h

/-- Parts with the same identity are the same. -/
theorem eq_of_id_eq (h : Laid n) (hm : m ∈ n.parts) (hq : q ∈ n.parts) (heq : m.id = q.id) :
    m = q :=
  List.inj_on_of_nodup_map h.nodup hm hq heq

/-- Nothing below a node has its identity. -/
theorem id_ne_of_mem_below (h : Laid n) (hm : m ∈ n.children.flatMap parts) : m.id ≠ n.id := by
  intro heq
  obtain rfl := h.eq_of_id_eq (below_subset_parts n hm) (mem_parts_self n) heq
  exact Nat.lt_irrefl _ (height_lt_of_mem_below hm)

/-- No child of a node is below something that is below the node. -/
theorem not_mem_below (h : Laid n) {c : Node} (hc : c ∈ n.children)
    (hq : q ∈ n.children.flatMap parts) : c ∉ q.children.flatMap parts := by
  intro hcq
  obtain ⟨below, fields, apart⟩ := h
  obtain ⟨d, hd, hq⟩ := List.mem_flatMap.mp hq
  have hdc := (below d hd).encloses (parts_subset hq (below_subset_parts q hcq))
  by_cases heq : d = c
  · subst heq
    obtain ⟨e, he, hde⟩ := List.mem_flatMap.mp hcq
    obtain ⟨lower, hfields, _⟩ := (below d hd).of_mem_parts hq
    obtain ⟨k, hk⟩ := hfields e he
    have hed := (lower e he).encloses hde
    exact NodeId.not_field_encloses _ _ (hk.trans (hed.trans ((below d hd).encloses hq)))
  · exact (apart.forall hd hc heq).1 hdc

/-- A node is the child of one node only. -/
theorem eq_of_mem_children (h : Laid n) {c : Node} (hm : m ∈ n.parts) (hq : q ∈ n.parts)
    (hcm : c ∈ m.children) (hcq : c ∈ q.children) : m = q := by
  have hmc := (h.of_mem_parts hm).encloses (parts_subset_of_mem_children hcm (mem_parts_self c))
  have hqc := (h.of_mem_parts hq).encloses (parts_subset_of_mem_children hcq (mem_parts_self c))
  -- One of the two is below the other, or they are the same.
  have hbelow : ∀ {m q : Node}, m ∈ n.parts → q ∈ n.parts → m.id.Encloses q.id →
      c ∈ m.children → c ∈ q.children → m = q := by
    intro m q hm hq henc hcm hcq
    have hpart := (h.mem_parts_iff hq hm).mpr henc
    rw [parts_eq] at hpart
    rcases List.mem_cons.mp hpart with rfl | hpart
    · rfl
    · refine absurd ?_ ((h.of_mem_parts hm).not_mem_below hcm hpart)
      exact List.mem_flatMap.mpr ⟨c, hcq, mem_parts_self c⟩
  rcases hmc.total hqc with henc | henc
  · exact hbelow hm hq henc hcm hcq
  · exact (hbelow hq hm henc hcq hcm).symm

end Laid

/-! ## Placed trees -/

/-- The nodes stand in the fields from number `k` on of a node at `way`, and were placed there. -/
inductive Fan (file : Text) (way : List Nat) : Nat → List Node → Prop where
  | nil {k : Nat} : Fan file way k []
  | node {k : Nat} (n : Node) {ms : List Node} :
      Fan file way (k + 1) ms → Fan file way k (place file (k :: way) n :: ms)
  | option {k : Nat} (n : Option Node) {ms : List Node} :
      Fan file way (k + 1) ms → Fan file way k ((placeOption file (k :: way) n).toList ++ ms)
  | nodes {k : Nat} (ns : List Node) {ms : List Node} :
      Fan file way (k + 1) ms → Fan file way k (placeAll file (k :: way) 0 ns ++ ms)

/-- The children of a placed node stand in its fields. -/
theorem fan_children_place (file : Text) (way : List Nat) (n : Node) :
    Fan file way 0 (place file way n).children := by
  rw [children_eq]
  cases n <;> simp only [place, fields, Field.contents, List.flatMap_cons, List.flatMap_nil,
    List.nil_append, List.cons_append]
  all_goals first
    | exact .nil
    | exact .node _ .nil
    | exact .option _ .nil
    | exact .nodes _ .nil
    | exact .node _ (.node _ .nil)
    | exact .node _ (.option _ .nil)
    | exact .node _ (.nodes _ .nil)
    | exact .option _ (.option _ .nil)
    | exact .node _ (.option _ (.option _ .nil))
    | exact .node _ (.node _ (.option _ .nil))
    | exact .option _ (.nodes _ (.option _ .nil))

/-- A placed tree has the identity that it was placed at. -/
@[simp]
theorem id_place (file : Text) (way : List Nat) (n : Node) :
    (place file way n).id = ⟨file, way⟩ := by
  cases n <;> rfl

/-- A tree of a list is placed under an index from `k` on. -/
theorem mem_place_all {file : Text} {way : List Nat} {k : Nat} {ns : List Node} {c : Node}
    (h : c ∈ placeAll file way k ns) : ∃ j ≥ k, ∃ n ∈ ns, c = place file (j :: way) n := by
  induction ns generalizing k with
  | nil => simp [placeAll] at h
  | cons n ns ih =>
      rcases List.mem_cons.mp h with rfl | h
      · exact ⟨k, Nat.le_refl k, n, by simp, rfl⟩
      · obtain ⟨j, hj, m, hm, rfl⟩ := ih h
        exact ⟨j, by omega, m, by simp [hm], rfl⟩

/-- What stands in different fields of a node stands apart. -/
theorem apart_of_fields {x : NodeId} {j k : Nat} (hne : j ≠ k) {n m : Node}
    (hn : (x.field j).Encloses n.id) (hm : (x.field k).Encloses m.id) : Apart n m :=
  ⟨fun h => hne (NodeId.field_inj (hn.trans h) hm), fun h => hne (NodeId.field_inj hn (hm.trans h))⟩

/-- Every tree of a list is placed under some index. -/
theorem exists_mem_place_all (file : Text) (way : List Nat) (k : Nat) {ns : List Node} {n : Node}
    (h : n ∈ ns) : ∃ j, place file (j :: way) n ∈ placeAll file way k ns := by
  induction ns generalizing k with
  | nil => cases h
  | cons m ns ih =>
      rcases List.mem_cons.mp h with rfl | h
      · exact ⟨k, List.mem_cons_self⟩
      · obtain ⟨j, hj⟩ := ih (k + 1) h
        exact ⟨j, List.mem_cons_of_mem _ hj⟩

/-- The trees of a list are placed apart. -/
theorem pairwise_apart_place_all (file : Text) (way : List Nat) (k : Nat) (ns : List Node) :
    (placeAll file way k ns).Pairwise Apart := by
  induction ns generalizing k with
  | nil => exact .nil
  | cons n ns ih =>
      refine .cons (fun c hc => ?_) (ih (k + 1))
      obtain ⟨j, hj, m, hm, rfl⟩ := mem_place_all hc
      have hne : k ≠ j := by omega
      refine apart_of_fields (x := ⟨file, way⟩) hne ?_ ?_
      · simpa using .refl _
      · simpa using .refl _

namespace Fan

variable {file : Text} {way : List Nat} {k : Nat} {ms : List Node}

/-- Nodes that stand in fields were placed below the node whose fields they are. -/
theorem exists_place (h : Fan file way k ms) {c : Node} (hc : c ∈ ms) :
    ∃ j ≥ k, ∃ further n, c = place file further n ∧ (j :: way) <:+ further := by
  induction h with
  | nil => simp at hc
  | @node k n _ _ ih =>
      rcases List.mem_cons.mp hc with rfl | hc
      · exact ⟨k, Nat.le_refl k, _, n, rfl, List.suffix_refl _⟩
      · obtain ⟨j, hj, hplace⟩ := ih hc
        exact ⟨j, by omega, hplace⟩
  | @option k n _ _ ih =>
      rcases List.mem_append.mp hc with hc | hc
      · cases n with
        | none => simp [placeOption] at hc
        | some n =>
            obtain rfl : c = place file (k :: way) n := by simpa [placeOption] using hc
            exact ⟨k, Nat.le_refl k, _, n, rfl, List.suffix_refl _⟩
      · obtain ⟨j, hj, hplace⟩ := ih hc
        exact ⟨j, by omega, hplace⟩
  | @nodes k ns _ _ ih =>
      rcases List.mem_append.mp hc with hc | hc
      · obtain ⟨i, _, n, _, rfl⟩ := mem_place_all hc
        exact ⟨k, Nat.le_refl k, _, n, rfl, List.suffix_cons i _⟩
      · obtain ⟨j, hj, hplace⟩ := ih hc
        exact ⟨j, by omega, hplace⟩

/-- Nodes that stand in fields have identities in these fields. -/
theorem encloses (h : Fan file way k ms) {c : Node} (hc : c ∈ ms) :
    ∃ j ≥ k, (NodeId.field ⟨file, way⟩ j).Encloses c.id := by
  obtain ⟨j, hj, further, n, rfl, hsuffix⟩ := h.exists_place hc
  exact ⟨j, hj, by simpa [NodeId.Encloses, NodeId.field] using hsuffix⟩

/-- What stands in one field stands apart from what stands in later ones. -/
theorem apart (h : Fan file way (k + 1) ms) {n : Node}
    (hn : (NodeId.field ⟨file, way⟩ k).Encloses n.id) : ∀ m ∈ ms, Apart n m := by
  intro m hm
  obtain ⟨j, hj, henc⟩ := h.encloses hm
  exact apart_of_fields (by omega) hn henc

/-- Nodes that stand in fields stand apart. -/
theorem pairwise_apart (h : Fan file way k ms) : ms.Pairwise Apart := by
  induction h with
  | nil => exact .nil
  | node n h ih => exact .cons (h.apart (by simpa [NodeId.field] using .refl _)) ih
  | option n h ih =>
      cases n with
      | none => simpa [placeOption] using ih
      | some n =>
          refine .cons (h.apart ?_) ih
          simpa [NodeId.field] using .refl _
  | nodes ns h ih =>
      refine List.pairwise_append.mpr ⟨pairwise_apart_place_all .., ih, fun n hn => h.apart ?_⟩
      obtain ⟨i, _, m, _, rfl⟩ := mem_place_all hn
      rw [id_place]
      exact ⟨rfl, List.suffix_cons i _⟩

end Fan

/-- A tree is laid out if its children were placed in fields of its own identity. -/
theorem laid_of_fan {n : Node} (h : Fan n.id.file n.id.place 0 n.children) : Laid n := by
  have hplaced : ∀ (m : Node), (∃ file way t, m = place file way t) → Laid m := by
    intro m
    induction m using children_induction with
    | step m ih =>
        rintro ⟨file, way, t, rfl⟩
        have hfan := fan_children_place file way t
        refine .mk (fun c hc => ?_) (fun c hc => ?_) hfan.pairwise_apart
        · obtain ⟨_, _, further, n, rfl, _⟩ := hfan.exists_place hc
          exact ih _ hc ⟨file, further, n, rfl⟩
        · obtain ⟨j, _, henc⟩ := hfan.encloses hc
          exact ⟨j, by simpa using henc⟩
  refine .mk (fun c hc => ?_) (fun c hc => ?_) h.pairwise_apart
  · obtain ⟨_, _, further, m, rfl, _⟩ := h.exists_place hc
    exact hplaced _ ⟨_, further, m, rfl⟩
  · obtain ⟨j, _, henc⟩ := h.encloses hc
    exact ⟨j, henc⟩

end Node

end StaticLiteral
