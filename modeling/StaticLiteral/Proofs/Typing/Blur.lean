import StaticLiteral.Proofs.Typing.Extent

/-!
# Types that say nothing

The types `any` and `unknown`, and unions with a member that is one of them, say nothing about a
value. `blurred` makes one type of all these, also inside other types. Whatever typing makes of
types it makes of their blurred forms up to blurring, and a blurred type tells the resolver the
same as the type.
-/

namespace StaticLiteral

namespace Ty

variable {ι : Type}

mutual

/-- The type says nothing. -/
def isHazy : Ty ι → Bool
  | any | unknown => true
  | union members => anyHazy members
  | _ => false

/-- One of the types says nothing. -/
def anyHazy : List (Ty ι) → Bool
  | [] => false
  | t :: ts => isHazy t || anyHazy ts

end

mutual

/-- The type with every type in it that says nothing made the same. -/
def blurred : Ty ι → Ty ι
  | any => unknown
  | reference target arguments readonly => .reference target (blurredAll arguments) readonly
  | union members => if anyHazy members then unknown else .union (blurredAll members)
  | t => t

/-- The blurred forms of types. -/
def blurredAll : List (Ty ι) → List (Ty ι)
  | [] => []
  | t :: ts => blurred t :: blurredAll ts

end

/-- Some type is hazy if one of the list is. -/
@[simp]
theorem any_hazy_eq (ts : List (Ty ι)) : anyHazy ts = ts.any isHazy := by
  induction ts with
  | nil => rfl
  | cons t ts ih => simp [anyHazy, ih]

/-- Types are blurred one by one. -/
@[simp]
theorem blurred_all_eq (ts : List (Ty ι)) : blurredAll ts = ts.map blurred := by
  induction ts with
  | nil => rfl
  | cons t ts ih => simp [blurredAll, ih]

/-- A type that says nothing is blurred to `unknown`. -/
theorem blurred_of_hazy {t : Ty ι} (h : t.isHazy) : t.blurred = .unknown := by
  cases t <;> simp_all [isHazy, blurred]

mutual

/-- Blurring keeps whether a type says nothing. -/
@[simp]
theorem is_hazy_blurred : ∀ t : Ty ι, t.blurred.isHazy = t.isHazy
  | union members => by
      have ih := any_is_hazy_blurred members
      by_cases h : members.any isHazy
      · simp [blurred, isHazy, h]
      · simp [blurred, isHazy, h, ih]
  | any | unknown | never | string | number | bigint | boolean | null | undefined | literal _
  | object .. | reference .. => by simp [blurred, isHazy]

/-- Blurring keeps whether one of some types says nothing. -/
theorem any_is_hazy_blurred : ∀ ts : List (Ty ι), (ts.map blurred).any isHazy = ts.any isHazy
  | [] => rfl
  | t :: ts => by
      rw [List.map_cons, List.any_cons, List.any_cons, is_hazy_blurred t, any_is_hazy_blurred ts]

end

mutual

/-- Blurring twice is blurring once. -/
@[simp]
theorem blurred_blurred : ∀ t : Ty ι, t.blurred.blurred = t.blurred
  | union members => by
      by_cases h : members.any isHazy
      · simp [blurred, h]
      · have hblurred : ¬ (members.map blurred).any isHazy := by rwa [any_is_hazy_blurred]
        simp only [blurred, any_hazy_eq, h, Bool.false_eq_true, if_false, blurred_all_eq, hblurred]
        rw [map_blurred_blurred members]
  | reference _ arguments _ => by
      simp only [blurred, blurred_all_eq]
      rw [map_blurred_blurred arguments]
  | any | unknown | never | string | number | bigint | boolean | null | undefined | literal _
  | object .. => by simp [blurred]

/-- Blurring types twice is blurring them once. -/
theorem map_blurred_blurred : ∀ ts : List (Ty ι), (ts.map blurred).map blurred = ts.map blurred
  | [] => rfl
  | t :: ts => by
      rw [List.map_cons, List.map_cons, blurred_blurred t, map_blurred_blurred ts]

end

/-- Widening and blurring may be exchanged. -/
theorem blurred_widened (t : Ty ι) : t.widened.blurred = t.blurred.widened := by
  cases t with
  | literal value => cases value <;> rfl
  | union members =>
      simp only [widened, blurred]
      split <;> rfl
  | _ => rfl

/-- Making readonly and blurring may be exchanged. -/
theorem blurred_as_readonly (t : Ty ι) : t.asReadonly.blurred = t.blurred.asReadonly := by
  cases t with
  | reference target arguments readonly => cases target <;> rfl
  | union members =>
      simp only [asReadonly, blurred]
      split <;> rfl
  | _ => rfl

/-- A type says nothing exactly if one of its constituents does not. -/
theorem any_is_hazy_constituents (t : Ty ι) : t.constituents.any isHazy = t.isHazy := by
  cases t <;> simp [constituents, isHazy]

/-- A union that says something is blurred member by member. -/
theorem blurred_union {members : List (Ty ι)} (h : ¬ (union members).isHazy) :
    (union members).blurred = .union (members.map blurred) := by
  simp only [isHazy, any_hazy_eq] at h
  simp [blurred, h]

/-- Blurring reaches the constituents of a type that says something. -/
theorem constituents_blurred {t : Ty ι} (h : ¬ t.isHazy) :
    t.blurred.constituents = t.constituents.map blurred := by
  cases t with
  | union members =>
      rw [blurred_union h]
      rfl
  | any | unknown => simp [isHazy] at h
  | _ => rfl

/-- Types that say something are one constituent exactly if their blurred forms are. -/
theorem coincides_blurred {t u : Ty ι} (ht : ¬ t.isHazy) (hu : ¬ u.isHazy) :
    t.blurred.coincides u.blurred = t.coincides u := by
  cases t with
  | any | unknown => simp [isHazy] at ht
  | union members =>
      rw [blurred_union ht]
      cases u with
      | union others =>
          rw [blurred_union hu]
          rfl
      | _ => rfl
  | _ =>
      cases u with
      | any | unknown => simp [isHazy] at hu
      | union others =>
          rw [blurred_union hu]
          rfl
      | _ => rfl

/-- Only a type that says nothing coincides with `any` or `unknown`. -/
theorem is_hazy_of_coincides {t u : Ty ι} (h : t.coincides u) (hu : u.isHazy) : t.isHazy := by
  cases t <;> cases u <;> simp_all [isHazy, coincides]

/-- Of types that say something the same are kept after blurring. -/
theorem distinct_from_map_blurred (seen ts : List (Ty ι)) (hseen : ∀ t ∈ seen, ¬ t.isHazy)
    (hts : ∀ t ∈ ts, ¬ t.isHazy) :
    Union.distinctFrom coincides (seen.map blurred) (ts.map blurred) =
      (Union.distinctFrom coincides seen ts).map blurred := by
  induction ts generalizing seen with
  | nil => rfl
  | cons t ts ih =>
      rw [List.forall_mem_cons] at hts
      have hany : (seen.map blurred).any (coincides · t.blurred) = seen.any (coincides · t) := by
        rw [List.any_map, Bool.eq_iff_iff, List.any_eq_true, List.any_eq_true]
        refine exists_congr fun s => and_congr_right fun hs => ?_
        rw [Function.comp_apply, coincides_blurred (hseen s hs) hts.1]
      simp only [List.map_cons, Union.distinctFrom, hany]
      split
      · exact ih seen hseen hts.2
      · rw [List.map_cons, ← ih (t :: seen) (List.forall_mem_cons.mpr ⟨hts.1, hseen⟩) hts.2,
          List.map_cons]

/-- Among types one of which says nothing such a type is kept, or was seen before. -/
theorem exists_hazy_distinct_from {seen ts : List (Ty ι)} (h : ∃ t ∈ ts, t.isHazy) :
    (∃ t ∈ Union.distinctFrom coincides seen ts, t.isHazy) ∨ ∃ t ∈ seen, t.isHazy := by
  obtain ⟨u, hu, hhazy⟩ := h
  induction ts generalizing seen with
  | nil => simp at hu
  | cons t ts ih =>
      simp only [Union.distinctFrom]
      rcases List.mem_cons.mp hu with rfl | hu
      · split
        case isTrue hany =>
          obtain ⟨s, hs, hsame⟩ := List.any_eq_true.mp hany
          exact .inr ⟨s, hs, is_hazy_of_coincides hsame hhazy⟩
        case isFalse => exact .inl ⟨u, List.mem_cons_self, hhazy⟩
      · split
        · exact ih hu
        · rcases @ih (t :: seen) hu with ⟨s, hs, hsame⟩ | ⟨s, hs, hsame⟩
          · exact .inl ⟨s, List.mem_cons_of_mem t hs, hsame⟩
          · rcases List.mem_cons.mp hs with rfl | hs
            · exact .inl ⟨s, List.mem_cons_self, hsame⟩
            · exact .inr ⟨s, hs, hsame⟩

/-- A union says nothing if one of its members does not. -/
theorem is_hazy_union_of {ts : List (Ty ι)} (h : ∃ t ∈ ts, t.isHazy) : (unionOf ts).isHazy := by
  obtain ⟨t, ht, hhazy⟩ := h
  rw [← any_is_hazy_constituents] at hhazy
  obtain ⟨c, hc, hhazy⟩ := List.any_eq_true.mp hhazy
  have hmem : c ∈ (ts.map constituents).flatten :=
    List.mem_flatten.mpr ⟨t.constituents, List.mem_map_of_mem ht, hc⟩
  -- A member that says nothing is dropped only for another one that says nothing.
  obtain ⟨d, hd, hhazy⟩ : ∃ d ∈ Union.join coincides never (ts.map constituents), d.isHazy := by
    rcases exists_hazy_distinct_from ⟨c, hmem, hhazy⟩ with ⟨d, hd, hhazy⟩ | ⟨_, hd, _⟩
    · refine ⟨d, ?_, hhazy⟩
      unfold Union.join Union.distinct
      split
      case h_1 hnil =>
        rw [hnil] at hd
        simp at hd
      case h_2 => exact hd
    · simp at hd
  unfold unionOf ofConstituents
  split
  case h_1 heq =>
    rw [heq, List.mem_singleton] at hd
    exact hd ▸ hhazy
  case h_2 =>
    rw [isHazy, any_hazy_eq]
    exact List.any_eq_true.mpr ⟨d, hd, hhazy⟩

/-- Blurring reaches the members of a union all of which say something. -/
theorem union_of_map_blurred {ts : List (Ty ι)} (h : ∀ t ∈ ts, ¬ t.isHazy) :
    unionOf (ts.map blurred) = (unionOf ts).blurred := by
  have hparts : ((ts.map blurred).map constituents).flatten =
      (ts.map constituents).flatten.map blurred := by
    rw [List.map_flatten, List.map_map, List.map_map]
    congr 1
    exact List.map_congr_left fun t ht => constituents_blurred (h t ht)
  have hsay : ∀ c ∈ (ts.map constituents).flatten, ¬ c.isHazy := by
    intro c hc hhazy
    obtain ⟨cs, hcs, hc⟩ := List.mem_flatten.mp hc
    obtain ⟨t, ht, rfl⟩ := List.mem_map.mp hcs
    refine h t ht ?_
    rw [← any_is_hazy_constituents]
    exact List.any_eq_true.mpr ⟨c, hc, hhazy⟩
  have hdistinct := distinct_from_map_blurred [] (ts.map constituents).flatten (by simp) hsay
  have hkept : ∀ c ∈ Union.distinctFrom coincides [] (ts.map constituents).flatten, ¬ c.isHazy :=
    fun c hc => hsay c (mem_of_mem_distinct_from hc)
  unfold unionOf Union.join Union.distinct
  rw [hparts, ← List.map_nil (f := blurred), hdistinct, List.map_nil]
  cases hcases : Union.distinctFrom coincides [] (ts.map constituents).flatten with
  | nil => rfl
  | cons c cs =>
      rw [hcases] at hkept
      cases cs with
      | nil => rfl
      | cons d ds =>
          show union ((c :: d :: ds).map blurred) = (union (c :: d :: ds)).blurred
          refine (blurred_union ?_).symm
          rw [isHazy, any_hazy_eq, List.any_eq_true]
          rintro ⟨e, he, hhazy⟩
          exact hkept e he hhazy

/-- Members of unions matter up to blurring. -/
theorem blurred_union_of (ts : List (Ty ι)) :
    (unionOf (ts.map blurred)).blurred = (unionOf ts).blurred := by
  by_cases h : ∃ t ∈ ts, t.isHazy
  · obtain ⟨t, ht, hhazy⟩ := h
    rw [blurred_of_hazy (is_hazy_union_of ⟨t, ht, hhazy⟩), blurred_of_hazy (is_hazy_union_of ?_)]
    exact ⟨t.blurred, List.mem_map_of_mem ht, by rwa [is_hazy_blurred]⟩
  · rw [union_of_map_blurred fun t ht hhazy => h ⟨t, ht, hhazy⟩, blurred_blurred]

/-- Unions of types with the same blurred forms have the same blurred form. -/
theorem blurred_union_of_congr {ts us : List (Ty ι)} (h : ts.map blurred = us.map blurred) :
    (unionOf ts).blurred = (unionOf us).blurred := by
  rw [← blurred_union_of ts, h, blurred_union_of us]

end Ty

namespace Typing

open Ty

variable {t u : BoundTy} {ts us : List BoundTy}

/-- A type tells the resolver the same as its blurred form. -/
theorem view_blurred (t : BoundTy) : view t.blurred = view t := by
  cases t with
  | union members =>
      simp only [blurred]
      split <;> rfl
  | literal value => cases value <;> rfl
  | object shape symbol => cases symbol <;> rfl
  | _ => rfl

/-- The arguments of a blurred type are the blurred arguments. -/
theorem arguments_blurred (t : BoundTy) : arguments t.blurred = (arguments t).map blurred := by
  cases t with
  | reference target ts readonly => exact blurred_all_eq ts
  | union members =>
      simp only [blurred]
      split <;> rfl
  | _ => rfl

/-- What a sign makes of a type depends on its blurred form. -/
theorem of_signed_blurred (operator : Text) (operand : Node) (t : BoundTy) :
    ofSigned operator operand t.blurred = ofSigned operator operand t := by
  cases t with
  | union members =>
      simp only [blurred]
      split <;> rfl
  | _ => rfl

/-- What a spread adds depends on blurred forms, up to blurring. -/
theorem map_blurred_spread (h : t.blurred = u.blurred) :
    (spread t).map blurred = (spread u).map blurred := by
  have hspread : ∀ t : BoundTy, (spread t.blurred).map blurred = (spread t).map blurred := by
    intro t
    cases t with
    | reference target ts readonly =>
        cases target with
        | tuple =>
            simp only [blurred, blurred_all_eq, spread]
            exact map_blurred_blurred ts
        | _ => simp [blurred, spread, blurred_union_of]
    | union members =>
        simp only [blurred]
        split <;> rfl
    | _ => rfl
  rw [← hspread t, h, hspread u]

/-- The type of an array depends on the blurred forms of its elements, up to blurring. -/
theorem blurred_of_array (isConst : Bool) (h : ts.map blurred = us.map blurred) :
    (ofArray isConst ts).blurred = (ofArray isConst us).blurred := by
  have hwidened : (ts.map widened).map blurred = (us.map widened).map blurred := by
    simp only [List.map_map]
    have hswap : (blurred ∘ widened : BoundTy → BoundTy) = widened ∘ blurred :=
      funext blurred_widened
    rw [hswap, ← List.map_map, h, List.map_map]
  cases isConst with
  | true => simp [ofArray, blurred, h]
  | false => simp [ofArray, blurred, blurred_union_of_congr hwidened]

/-- A generic type without a declaration depends on the blurred forms of its arguments, up to
blurring. -/
theorem blurred_of_builtin (name : Text) (h : ts.map blurred = us.map blurred) :
    (ofBuiltin name ts).blurred = (ofBuiltin name us).blurred := by
  have hhead : (ts.head?.getD .unknown).blurred = (us.head?.getD .unknown).blurred := by
    cases ts <;> cases us <;> simp_all
  unfold ofBuiltin
  split
  · simp [blurred, hhead]
  · split
    · simp [blurred, hhead]
    · split
      · cases ts <;> cases us <;> simp_all [blurred_as_readonly]
      · rfl

end Typing

end StaticLiteral
