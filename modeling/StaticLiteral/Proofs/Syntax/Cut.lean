import Mathlib.Data.List.Forall2
import StaticLiteral.Proofs.Syntax.Forms

/-!
# Trees that are cut off

`Node.CutFrom a b` says that `a` is `b` with some subtrees cut off: each of them is a stub in `a`,
an unknown node without children. Where there may be any number of nodes, one stub may stand for any
number of them.

`Node.StaysWithin bound n` says how far down a tree reaches: no way down has more levels than the
bound and those that do not count, which are two for a pattern right inside an element of a pattern,
and one for what is left of an export or an ambient declaration that leaves no statement.
-/

namespace StaticLiteral.Node

/-! ## Cutting off -/

/-- The node is not understood and has no children. -/
def IsStub : Node → Prop
  | unknown _ _ [] | unknownType _ _ => True
  | _ => False

variable {R S : Node → Node → Prop} {a b : Node} {as bs cs ds : List Node}

/-- The nodes are related one by one, but a stub stands for any number of nodes. -/
inductive Thinned (R : Node → Node → Prop) : List Node → List Node → Prop where
  | nil : Thinned R [] []
  | cons {a b : Node} {as bs : List Node} (h : R a b) (rest : Thinned R as bs) :
      Thinned R (a :: as) (b :: bs)
  | stub {a : Node} {as bs : List Node} (h : a.IsStub) (before : List Node)
      (rest : Thinned R as bs) : Thinned R (a :: as) (before ++ bs)

/-- The fields have the same names, their nodes are related, and the rest of them is the same. -/
inductive FieldsCut (R : Node → Node → Prop) :
    List (String × Field) → List (String × Field) → Prop where
  | nil : FieldsCut R [] []
  | same {row : String × Field} {fs gs : List (String × Field)} (h : row.2.contents = [])
      (rest : FieldsCut R fs gs) : FieldsCut R (row :: fs) (row :: gs)
  | node {name : String} {a b : Node} {fs gs : List (String × Field)} (h : R a b)
      (rest : FieldsCut R fs gs) :
      FieldsCut R ((name, .node a) :: fs) ((name, .node b) :: gs)
  | optional {name : String} {a b : Option Node} {fs gs : List (String × Field)}
      (h : Thinned R a.toList b.toList) (rest : FieldsCut R fs gs) :
      FieldsCut R ((name, .optionalNode a) :: fs) ((name, .optionalNode b) :: gs)
  | nodes {name : String} {as bs : List Node} {fs gs : List (String × Field)}
      (h : Thinned R as bs) (rest : FieldsCut R fs gs) :
      FieldsCut R ((name, .nodes as) :: fs) ((name, .nodes bs) :: gs)

/-- The first tree is the second with some subtrees cut off. -/
inductive CutFrom : Node → Node → Prop where
  | stub {a : Node} (h : a.IsStub) (b : Node) : CutFrom a b
  | node {a b : Node} (hkind : a.kindName = b.kindName) (hinfo : a.info = b.info)
      (hfields : FieldsCut CutFrom a.fields b.fields) : CutFrom a b

/-- A stub has no children. -/
theorem IsStub.children_eq (h : a.IsStub) : a.children = [] := by
  rw [Node.children_eq]
  unfold IsStub at h
  split at h
  · rfl
  · rfl
  · cases h

namespace Thinned

/-- What is weaker holds too. -/
theorem mono (himp : ∀ a b, R a b → S a b) (h : Thinned R as bs) : Thinned S as bs := by
  induction h with
  | nil => exact .nil
  | cons h _ ih => exact .cons (himp _ _ h) ih
  | stub h before _ ih => exact .stub h before ih

/-- Nodes that are related one by one. -/
theorem of_forall (h : List.Forall₂ R as bs) : Thinned R as bs := by
  induction h with
  | nil => exact .nil
  | cons h _ ih => exact .cons h ih

/-- A single node is related, or it is a stub. -/
theorem single_iff : Thinned R [a] bs ↔ (∃ b, bs = [b] ∧ R a b) ∨ a.IsStub := by
  constructor
  · intro h
    cases h with
    | cons h rest =>
        cases rest
        exact .inl ⟨_, rfl, h⟩
    | stub h => exact .inr h
  · rintro (⟨b, rfl, h⟩ | h)
    · exact .cons h .nil
    · exact bs.append_nil ▸ .stub h bs .nil

/-- Lists in a row. -/
theorem append (h : Thinned R as bs) (h' : Thinned R cs ds) : Thinned R (as ++ cs) (bs ++ ds) := by
  induction h with
  | nil => exact h'
  | cons h _ ih => exact .cons h ih
  | stub h before _ ih => exact List.append_assoc before _ ds ▸ .stub h before ih

/-- Statements that may be missing, without those that are. -/
theorem filter_map {ss ts : List (Option Node)}
    (h : List.Forall₂ (fun s t => Thinned R s.toList t.toList) ss ts) :
    Thinned R (ss.filterMap fun s => s) (ts.filterMap fun t => t) := by
  induction h with
  | nil => exact .nil
  | @cons s t ss ts h _ ih => cases s <;> cases t <;> exact h.append ih

/-- Lists of lists. -/
theorem flatten {ass bss : List (List Node)} (h : List.Forall₂ (Thinned R) ass bss) :
    Thinned R ass.flatten bss.flatten := by
  induction h with
  | nil => exact .nil
  | cons h _ ih => exact h.append ih

/-- Several nodes in the place of each. -/
theorem flat_map {f : Node → List Node} (h : Thinned R as bs)
    (hstub : ∀ a, a.IsStub → f a = [a]) (hf : ∀ a b, R a b → Thinned S (f a) (f b)) :
    Thinned S (as.flatMap f) (bs.flatMap f) := by
  induction h with
  | nil => exact .nil
  | cons h _ ih => exact (hf _ _ h).append ih
  | stub h before _ ih =>
      rw [List.flatMap_cons, hstub _ h, List.flatMap_append]
      exact .stub h _ ih

/-- Another node in the place of each. -/
theorem map {f : Node → Node} (h : Thinned R as bs) (hstub : ∀ a, a.IsStub → f a = a)
    (hf : ∀ a b, R a b → S (f a) (f b)) : Thinned S (as.map f) (bs.map f) := by
  rw [List.map_eq_flatMap, List.map_eq_flatMap]
  exact h.flat_map (fun a ha => by rw [hstub a ha]) fun a b hab => .cons (hf a b hab) .nil

/-- A tree that may be missing, or another in its place. -/
theorem get_or {o p : Option Node} (h : Thinned R o.toList p.toList)
    (hstub : ∀ a b, a.IsStub → R a b) {d : Node} (hd : R d d) : R (o.getD d) (p.getD d) := by
  cases o with
  | none =>
      cases p with
      | none => exact hd
      | some b => cases h
  | some a =>
      rcases single_iff.mp h with ⟨b, hb, hab⟩ | ha
      · cases p with
        | none => cases hb
        | some c =>
            obtain rfl : c = b := by simpa using hb
            exact hab
      · exact hstub a _ ha

/-- Properties of the nodes of the first list, which the stubs have, too. -/
theorem and_forall {P : Node → Prop} (h : Thinned R as bs) (hP : ∀ a ∈ as, P a) :
    Thinned (fun a b => R a b ∧ P a) as bs := by
  induction h with
  | nil => exact .nil
  | cons h _ ih =>
      exact .cons ⟨h, hP _ List.mem_cons_self⟩ (ih fun a ha => hP a (List.mem_cons_of_mem _ ha))
  | stub h before _ ih => exact .stub h before (ih fun a ha => hP a (List.mem_cons_of_mem _ ha))

/-- Every node is related to something, or it is a stub. -/
theorem exists_of_mem (h : Thinned R as bs) (ha : a ∈ as) : (∃ b, R a b) ∨ a.IsStub := by
  induction h with
  | nil => cases ha
  | cons h _ ih =>
      rcases List.mem_cons.mp ha with rfl | ha
      · exact .inl ⟨_, h⟩
      · exact ih ha
  | stub h _ _ ih =>
      rcases List.mem_cons.mp ha with rfl | ha
      · exact .inr h
      · exact ih ha

end Thinned

namespace FieldsCut

variable {fs gs : List (String × Field)}

/-- What is weaker holds too. -/
theorem mono (himp : ∀ a b, R a b → S a b) (h : FieldsCut R fs gs) : FieldsCut S fs gs := by
  induction h with
  | nil => exact .nil
  | same h _ ih => exact .same h ih
  | node h _ ih => exact .node (himp _ _ h) ih
  | optional h _ ih => exact .optional (h.mono himp) ih
  | nodes h _ ih => exact .nodes (h.mono himp) ih

/-- Fields without nodes in front of others. -/
theorem append_plain {rows : List (String × Field)} (h : ∀ row ∈ rows, row.2.contents = [])
    (rest : FieldsCut R fs gs) : FieldsCut R (rows ++ fs) (rows ++ gs) := by
  induction rows with
  | nil => exact rest
  | cons row rows ih =>
      exact .same (h row (by simp)) (ih fun row hrow => h row (List.mem_cons_of_mem _ hrow))

/-- Every node in the fields is related to something, or it is a stub. -/
theorem exists_of_mem (h : FieldsCut R fs gs) (ha : a ∈ fs.flatMap (·.2.contents)) :
    (∃ b, R a b) ∨ a.IsStub := by
  induction h with
  | nil => cases ha
  | same hplain _ ih =>
      rw [List.flatMap_cons, hplain] at ha
      exact ih ha
  | node h _ ih =>
      rcases List.mem_append.mp ha with ha | ha
      · obtain rfl := List.mem_singleton.mp ha
        exact .inl ⟨_, h⟩
      · exact ih ha
  | optional h _ ih | nodes h _ ih =>
      rcases List.mem_append.mp ha with ha | ha
      · exact h.exists_of_mem ha
      · exact ih ha

/-- A change of the fields that leaves their nodes. -/
theorem map_fields {f : String → Field → Field} (h : FieldsCut R fs gs)
    (hnode : ∀ name a, f name (.node a) = .node a)
    (hoptional : ∀ name a, f name (.optionalNode a) = .optionalNode a)
    (hnodes : ∀ name as, f name (.nodes as) = .nodes as)
    (hplain : ∀ name field, field.contents = [] → (f name field).contents = []) :
    FieldsCut R (fs.map fun row => (row.1, f row.1 row.2))
      (gs.map fun row => (row.1, f row.1 row.2)) := by
  induction h with
  | nil => exact .nil
  | same h _ ih => exact .same (hplain _ _ h) ih
  | node h _ ih => simpa only [List.map_cons, hnode] using .node h ih
  | optional h _ ih => simpa only [List.map_cons, hoptional] using .optional h ih
  | nodes h _ ih => simpa only [List.map_cons, hnodes] using .nodes h ih

end FieldsCut

/-- A node without children is cut from itself. -/
theorem CutFrom.leaf (h : a.children = []) : CutFrom a a := by
  rw [Node.children_eq, List.flatMap_eq_nil_iff] at h
  exact .node rfl rfl (List.append_nil a.fields ▸ .append_plain h .nil)

/-! ## Ways down -/

/-- Whether the node is what is left of an export or an ambient declaration. -/
def isLeftover : Node → Bool
  | unknown _ sourceType _ =>
    sourceType = Text.ofString "export_statement" ||
      sourceType = Text.ofString "ambient_declaration"
  | _ => false

/-- The levels that do not count on the way to a child. -/
def uncounted (n c : Node) : Nat :=
  if n.isLeftover then 1 else if n.role = .element ∧ c.role = .pattern then 2 else 0

/-- One level does not count for what is left of an export or an ambient declaration. -/
theorem uncounted_of_leftover {n : Node} (hn : n.isLeftover) (c : Node) : n.uncounted c = 1 :=
  if_pos hn

/-- Two levels do not count for a pattern right inside an element. -/
theorem uncounted_of_pattern {n c : Node} (hn : n.role = .element) (hc : c.role = .pattern) :
    n.uncounted c = 2 := by
  have hleftover : n.isLeftover = false := by cases n <;> first | rfl | cases hn
  rw [uncounted, hleftover, if_neg Bool.false_ne_true, if_pos ⟨hn, hc⟩]

/-- The levels that do not count on a way down. -/
def uncountedAlong : List Node → Nat
  | n :: c :: rest => n.uncounted c + uncountedAlong (c :: rest)
  | _ => 0

/-- A step down adds what does not count of it. -/
theorem uncounted_along_cons (n c : Node) (rest : List Node) :
    uncountedAlong (n :: c :: rest) = n.uncounted c + uncountedAlong (c :: rest) := rfl

/-- The nodes are a way down a tree. -/
def IsWay (way : List Node) : Prop := way.IsChain fun n c => c ∈ n.children

/-- No way down has more levels than the bound and those that do not count. -/
def StaysWithin (bound : Nat) (n : Node) : Prop :=
  ∀ way, IsWay (n :: way) → (n :: way).length ≤ bound + uncountedAlong (n :: way)

namespace StaysWithin

variable {bound larger : Nat} {n : Node}

/-- A greater bound holds too. -/
theorem mono (h : n.StaysWithin bound) (hle : bound ≤ larger) : n.StaysWithin larger :=
  fun way hway => Nat.le_trans (h way hway) (Nat.add_le_add_right hle _)

/-- The ways down go through the children. -/
theorem of_children (hpos : 1 ≤ bound)
    (h : ∀ c ∈ n.children, ∃ b, c.StaysWithin b ∧ b + 1 ≤ bound + n.uncounted c) :
    n.StaysWithin bound := by
  intro way hway
  cases way with
  | nil => exact hpos
  | cons c rest =>
      obtain ⟨hc, hrest⟩ := List.isChain_cons_cons.mp hway
      obtain ⟨b, hwithin, hb⟩ := h c hc
      have hle := hwithin rest hrest
      simp only [uncounted_along_cons, List.length_cons] at hle ⊢
      omega

/-- A node is one level above its children. -/
theorem of_lower (h : ∀ c ∈ n.children, c.StaysWithin bound) : n.StaysWithin (bound + 1) :=
  of_children (Nat.le_add_left 1 bound) fun c hc => ⟨bound, h c hc, by omega⟩

/-- A node without children is a level of its own. -/
theorem leaf (h : n.children = []) (hpos : 1 ≤ bound) : n.StaysWithin bound :=
  of_children hpos (by simp [h])

/-- A child stays within the bound if all of its level counts. -/
theorem child {c : Node} (h : n.StaysWithin bound) (hc : c ∈ n.children)
    (hcounted : n.uncounted c = 0) : c.StaysWithin bound := by
  intro way hway
  have hle := h (c :: way) (List.isChain_cons_cons.mpr ⟨hc, hway⟩)
  simp only [uncounted_along_cons, hcounted, List.length_cons] at hle ⊢
  omega

/-- A node with the same children of which the same levels count. -/
theorem of_same {n' : Node} (hchildren : n'.children = n.children)
    (huncounted : ∀ c, n'.uncounted c = n.uncounted c) (h : n.StaysWithin bound) :
    n'.StaysWithin bound := by
  intro way hway
  cases way with
  | nil => exact h [] (.singleton n)
  | cons c rest =>
      obtain ⟨hc, hrest⟩ := List.isChain_cons_cons.mp hway
      have hle := h (c :: rest) (List.isChain_cons_cons.mpr ⟨hchildren ▸ hc, hrest⟩)
      simpa only [uncounted_along_cons, List.length_cons, huncounted] using hle

end StaysWithin

/-! ## Both -/

/-- The first tree is cut from the second, and its ways down stay within a bound. -/
structure Capped (bound : Nat) (a b : Node) : Prop where
  cut : a.CutFrom b
  within : a.StaysWithin bound

namespace Capped

variable {bound larger : Nat}

/-- A greater bound holds too. -/
theorem mono (h : Capped bound a b) (hle : bound ≤ larger) : Capped larger a b :=
  ⟨h.cut, h.within.mono hle⟩

/-- A stub stands for everything. -/
theorem stub (h : a.IsStub) (b : Node) (hpos : 1 ≤ bound) : Capped bound a b :=
  ⟨.stub h b, .leaf h.children_eq hpos⟩

/-- A node without children. -/
theorem leaf (h : a.children = []) (hpos : 1 ≤ bound) : Capped bound a a :=
  ⟨.leaf h, .leaf h hpos⟩

/-- Nodes that differ in their children at most. -/
theorem node (hkind : a.kindName = b.kindName) (hinfo : a.info = b.info) (hpos : 1 ≤ bound)
    (hfields : FieldsCut (Capped bound) a.fields b.fields) : Capped (bound + 1) a b where
  cut := .node hkind hinfo (hfields.mono fun _ _ h => h.cut)
  within := .of_lower fun c hc => by
    rcases hfields.exists_of_mem (Node.children_eq a ▸ hc) with ⟨_, h⟩ | h
    · exact h.within
    · exact .leaf h.children_eq hpos

end Capped

end StaticLiteral.Node
