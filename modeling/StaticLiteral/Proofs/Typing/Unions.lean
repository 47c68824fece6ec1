import StaticLiteral.Proofs.Typing.Extent

/-!
# Unions in normal form

In a type that is told every union has at least two members, none of them a union itself and no two
of them the same. So the union of one type that is told is that type again, and the type of the
entries of an array that is not constant tells nothing unless the array has one entry:
`view_union_of_widened`.
-/

namespace StaticLiteral

/-- No two elements that are kept are the same, and none is the same as one seen before. -/
theorem Union.pairwise_distinct_from {α : Type} (same : α → α → Bool) (seen xs : List α) :
    (distinctFrom same seen xs).Pairwise (fun x y => same x y = false) ∧
      ∀ x ∈ seen, ∀ y ∈ distinctFrom same seen xs, same x y = false := by
  induction xs generalizing seen with
  | nil => simp [distinctFrom]
  | cons y ys ih =>
      rw [distinctFrom]
      split
      case isTrue => exact ih seen
      case isFalse hnew =>
        obtain ⟨hpairwise, hseen⟩ := ih (y :: seen)
        refine ⟨List.pairwise_cons.mpr ⟨hseen y List.mem_cons_self, hpairwise⟩, ?_⟩
        intro x hx z hz
        rcases List.mem_cons.mp hz with rfl | hz
        · simp only [List.any_eq_true, not_exists, not_and, Bool.not_eq_true] at hnew
          exact hnew x hx
        · exact hseen x (List.mem_cons_of_mem _ hx) z hz

/-- Elements of which no two are the same are all kept. -/
theorem Union.distinct_from_eq_self {α : Type} {same : α → α → Bool} {seen xs : List α}
    (hxs : xs.Pairwise fun x y => same x y = false)
    (hseen : ∀ x ∈ seen, ∀ y ∈ xs, same x y = false) : distinctFrom same seen xs = xs := by
  induction xs generalizing seen with
  | nil => rfl
  | cons y ys ih =>
      obtain ⟨hy, hys⟩ := List.pairwise_cons.mp hxs
      have hnew : ¬ seen.any (same · y) := by
        simpa using fun x hx => hseen x hx y List.mem_cons_self
      rw [distinctFrom, if_neg hnew, ih hys]
      intro x hx z hz
      rcases List.mem_cons.mp hx with rfl | hx
      · exact hy z hz
      · exact hseen x hx z (List.mem_cons_of_mem _ hz)

namespace Ty

variable {ι : Type} {t : Ty ι} {ts : List (Ty ι)}

/-- Whether the type is a union. -/
def isUnion : Ty ι → Bool
  | union _ => true
  | _ => false

/-- Every union in the type has at least two members, none of them a union and no two the same. -/
inductive Normal : Ty ι → Prop where
  | plain {t : Ty ι} : t.isPlain → Normal t
  | object (shape : ObjectShape) (symbol : Option (Symbol ι)) : Normal (.object shape symbol)
  | reference {target : ReferenceTarget} {arguments : List (Ty ι)} {readonly : Bool} :
      (∀ t ∈ arguments, Normal t) → Normal (.reference target arguments readonly)
  | union {first second : Ty ι} {rest : List (Ty ι)} :
      (∀ t ∈ first :: second :: rest, Normal t) →
      (∀ t ∈ first :: second :: rest, t.isUnion = false) →
      (first :: second :: rest).Pairwise (fun t u => t.coincides u = false) →
      Normal (.union (first :: second :: rest))

/-- A type that is no union is its only constituent. -/
theorem constituents_of_not_union (h : t.isUnion = false) : t.constituents = [t] := by
  cases t <;> first | rfl | simp [isUnion] at h

namespace Normal

/-- The constituents of a type in normal form are in normal form and no unions. -/
theorem constituents (h : Normal t) : ∀ m ∈ t.constituents, Normal m ∧ m.isUnion = false := by
  cases h with
  | union hnormal hunion _ => exact fun m hm => ⟨hnormal m hm, hunion m hm⟩
  | plain h =>
      have hunion : t.isUnion = false := by cases t <;> simp_all [isPlain, isUnion]
      rw [constituents_of_not_union hunion]
      simpa using ⟨.plain h, hunion⟩
  | object shape symbol => simpa [Ty.constituents, isUnion] using .object shape symbol
  | reference h => simpa [Ty.constituents, isUnion] using .reference h

/-- Of the constituents of a type in normal form no two are the same. -/
theorem pairwise_constituents (h : Normal t) :
    t.constituents.Pairwise fun t u => t.coincides u = false := by
  cases h with
  | union _ _ hpairwise => exact hpairwise
  | plain h => cases t <;> simp_all [isPlain, Ty.constituents]
  | object | reference => simp [Ty.constituents]

/-- The constituents of a type in normal form make it up. -/
theorem of_constituents (h : Normal t) : ofConstituents t.constituents = t := by
  cases h with
  | union => rfl
  | plain h => cases t <;> simp_all [isPlain, Ty.constituents, ofConstituents]
  | object | reference => rfl

/-- The union of types in normal form is in normal form. -/
theorem union_of (h : ∀ t ∈ ts, Normal t) : Normal (unionOf ts) := by
  have hdistinct := (Union.pairwise_distinct_from coincides []
    (ts.map Ty.constituents).flatten).1
  have hmem : ∀ m ∈ Union.distinct coincides (ts.map Ty.constituents).flatten,
      Normal m ∧ m.isUnion = false := by
    intro m hm
    obtain ⟨parts, hparts, hm⟩ := List.mem_flatten.mp (mem_of_mem_distinct_from hm)
    obtain ⟨t, ht, rfl⟩ := List.mem_map.mp hparts
    exact (h t ht).constituents m hm
  rw [unionOf, Union.join, Union.distinct] at *
  revert hdistinct hmem
  cases Union.distinctFrom coincides [] (ts.map Ty.constituents).flatten with
  | nil => exact fun _ _ => .plain rfl
  | cons first rest =>
      cases rest with
      | nil => exact fun _ hmem => (hmem first List.mem_cons_self).1
      | cons second rest =>
          intro hdistinct hmem
          exact .union (fun t ht => (hmem t ht).1) (fun t ht => (hmem t ht).2) hdistinct

/-- A type in normal form has a constituent. -/
theorem constituents_ne_nil (h : Normal t) : t.constituents ≠ [] := by
  cases h with
  | plain h => cases t <;> simp_all [isPlain, Ty.constituents]
  | object | reference | union => simp [Ty.constituents]

/-- The union of one type in normal form is that type. -/
theorem union_of_singleton (h : Normal t) : unionOf [t] = t := by
  have hdistinct : Union.distinct coincides t.constituents = t.constituents :=
    Union.distinct_from_eq_self h.pairwise_constituents (by simp)
  have hof := h.of_constituents
  rw [unionOf, Union.join, List.map_singleton, List.flatten_singleton, hdistinct]
  cases hconstituents : t.constituents with
  | nil => exact absurd hconstituents h.constituents_ne_nil
  | cons first rest => rwa [hconstituents] at hof

/-- Widening keeps the normal form. -/
theorem widened (h : Normal t) : Normal t.widened := by
  unfold Ty.widened
  split
  any_goals exact .plain rfl
  exact h

end Normal

end Ty

namespace Typing

/-- The normal form is preserved by the ways of building types. -/
theorem preserved_normal (p : Program) : Preserved p fun _ t => t.Normal where
  higher h := h
  plain := .plain
  object _ := .object _ _
  reference := .reference
  arguments h := by
    cases h with
    | plain h => simp [Ty.isPlain] at h
    | reference h => exact h
  unionOf := .union_of

/-- The type of an expression is in normal form. -/
theorem normal_of_expression {p : Program} {guarded isConst : Bool} {depth : Nat}
    {busy : List SymbolId} {n : Node} {t : BoundTy}
    (h : ofExpression p guarded depth busy isConst n = .ok t) : t.Normal := by
  have hsame := ((preserved_normal p).of_answer guarded depth busy).expression
    (e := n) trivial isConst
  simp only [answers, h] at hsame
  exact hsame.2

/-! ## The entries of arrays -/

/-- Widening leaves no literal type. -/
theorem view_widened (t : BoundTy) : view t.widened = .other ∨ t.widened = t := by
  cases t with
  | literal value => cases value <;> exact .inl rfl
  | _ => exact .inr rfl

/-- Of types that are the same none is made of others. -/
theorem is_plain_of_coincides {t u : BoundTy} (h : t.coincides u) : t.isPlain := by
  cases t <;> cases u <;> simp_all [Ty.coincides, Ty.isPlain]

/-- A union whose constituents start with two that are not the same tells nothing. -/
theorem view_of_two {members : List BoundTy} {first second : BoundTy} {rest : List BoundTy}
    (hmembers : (members.map Ty.constituents).flatten = first :: second :: rest)
    (h : first.coincides second = false) : view (.unionOf members) = .other := by
  simp [Ty.unionOf, Union.join, Union.distinct, Union.distinctFrom, hmembers, h,
    Ty.ofConstituents, view]

/-- A union whose constituents start with one that tells nothing tells nothing. -/
theorem view_of_first {members : List BoundTy} {first : BoundTy} {rest : List BoundTy}
    (hmembers : (members.map Ty.constituents).flatten = first :: rest)
    (h : view first = .other) : view (.unionOf members) = .other := by
  simp only [Ty.unionOf, Union.join, Union.distinct, Union.distinctFrom, hmembers, List.any_nil,
    Bool.false_eq_true, if_false]
  cases Union.distinctFrom Ty.coincides [first] rest with
  | nil => exact h
  | cons => rfl

/-- A widened type without parts tells nothing. -/
theorem view_widened_of_plain {t : BoundTy} (h : t.widened.isPlain) : view t.widened = .other := by
  cases t with
  | literal value => cases value <;> rfl
  | object | reference | union => simp [Ty.widened, Ty.isPlain] at h
  | _ => rfl

/-- A union of two types or more, the first one widened, tells nothing. -/
theorem view_union_of_two {t u : BoundTy} {ts : List BoundTy} (ht : t.Normal) (hu : u.Normal) :
    view (.unionOf (t.widened :: u :: ts)) = .other := by
  have hof := ht.widened.of_constituents
  have hpairwise := ht.widened.pairwise_constituents
  cases hfirst : t.widened.constituents with
  | nil => exact absurd hfirst ht.widened.constituents_ne_nil
  | cons first rest =>
      rw [hfirst] at hof hpairwise
      cases rest with
      | cons second rest =>
          have hmembers : ((t.widened :: u :: ts).map Ty.constituents).flatten = first :: second ::
              (rest ++ (u.constituents ++ (ts.map Ty.constituents).flatten)) := by simp [hfirst]
          exact view_of_two hmembers ((List.pairwise_cons.mp hpairwise).1 second List.mem_cons_self)
      | nil =>
          obtain rfl : first = t.widened := hof
          cases hsecond : u.constituents with
          | nil => exact absurd hsecond hu.constituents_ne_nil
          | cons second more =>
              have hmembers : ((t.widened :: u :: ts).map Ty.constituents).flatten = t.widened ::
                  second :: (more ++ (ts.map Ty.constituents).flatten) := by simp [hfirst, hsecond]
              -- If the first two are the same, they are primitive and tell nothing.
              cases hsame : t.widened.coincides second with
              | false => exact view_of_two hmembers hsame
              | true =>
                  exact view_of_first hmembers
                    (view_widened_of_plain (is_plain_of_coincides hsame))

/-- The entries of an array that is not constant are told only if there is exactly one. -/
theorem view_union_of_widened {ts : List BoundTy} (hts : ∀ t ∈ ts, t.Normal)
    (hlength : ts.length ≠ 1) : view (.unionOf (ts.map Ty.widened)) = .other := by
  match ts, hts, hlength with
  | [], _, _ => rfl
  | t :: u :: ts, hts, _ =>
      exact view_union_of_two (hts t (by simp)) (hts u (by simp)).widened

end Typing

end StaticLiteral
