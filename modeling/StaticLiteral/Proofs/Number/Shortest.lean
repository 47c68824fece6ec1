import Mathlib
import StaticLiteral.Proofs.Number.Decimals

/-!
# Shortest decimals

The decimal that is found for a magnitude reads back as it, no decimal with fewer digits does, and
no other one with as many digits is nearer (`is_shortest`). The search meets it because seventeen
digits always read back, and because a decimal that reads back has one of the two neighbours of the
magnitude between it and the magnitude, on the grid of all decimals with as many digits.
-/

namespace StaticLiteral

open Rounding

/-- The decimal reads back as the magnitude, has the fewest digits of those that do, and is the
nearest one of those with as many digits. -/
structure Magnitude.IsShortest (m : Magnitude) (d : Decimal) : Prop where
  reads_back : IsNearest d.value m
  fewest {d' : Decimal} (h : IsNearest d'.value m) : digitCount d.digits ≤ digitCount d'.digits
  closest {d' : Decimal} (h : IsNearest d'.value m)
    (hcount : digitCount d'.digits = digitCount d.digits) :
    |d.value - m.value| ≤ |d'.value - m.value|

/-! ## Removing zeros -/

namespace Decimal

variable {d : Decimal} {fuel n : Nat}

/-- A decimal stays the same number without its last zeros. -/
theorem value_normalize (fuel : Nat) (d : Decimal) : (d.normalize fuel).value = d.value := by
  induction fuel generalizing d with
  | zero => rfl
  | succ fuel ih =>
      rw [normalize]
      split
      · next h =>
          have hdigits : (d.digits / 10 : Nat) * 10 = d.digits := by
            simp only [Bool.and_eq_true, decide_eq_true_eq] at h
            omega
          rw [ih, value, value, zpow_add_one₀ (by norm_num), mul_comm (10 ^ d.exponent),
            ← mul_assoc]
          exact_mod_cast congrArg (fun n : Nat => (n : ℚ) * 10 ^ d.exponent) hdigits
      · rfl

/-- Taking zeros off the end makes the digits no greater. -/
theorem digits_normalize_le (fuel : Nat) (d : Decimal) : (d.normalize fuel).digits ≤ d.digits := by
  induction fuel generalizing d with
  | zero => exact le_rfl
  | succ fuel ih =>
      rw [normalize]
      split
      · exact (ih _).trans (Nat.div_le_self _ _)
      · exact le_rfl

/-- No zero is left if as many may be removed as there are digits. -/
theorem digits_normalize_mod (hne : d.digits ≠ 0) (hlt : d.digits < 10 ^ fuel) :
    (d.normalize fuel).digits % 10 ≠ 0 := by
  induction fuel generalizing d with
  | zero => omega
  | succ fuel ih =>
      rw [normalize]
      split
      · next h =>
          simp only [Bool.and_eq_true, decide_eq_true_eq] at h
          exact ih (by dsimp only; omega) (by dsimp only; omega)
      · next h =>
          simp only [Bool.and_eq_true, decide_eq_true_eq, bne_iff_ne, not_and, not_not] at h
          exact fun hmod => hne (h hmod)

end Decimal

namespace Magnitude

variable {m : Magnitude} {q : ℚ} {d : Decimal} {count b k : Nat}

/-- Only zero has no units. -/
theorem units_ne_zero (h : m ≠ .zero) : m.units ≠ 0 := fun hunits =>
  h (units_injective (by rw [hunits]; rfl))

/-! ## What is close to a magnitude -/

/-- Another magnitude is at least the 2^53rd part of a magnitude away from it. -/
theorem units_le_mul_gap {n : Magnitude} (h : n ≠ m) :
    (m.units : ℤ) ≤ 2 ^ 53 * |(m.units - n.units : ℤ)| := by
  rcases Nat.lt_or_gt_of_ne fun heq => h (units_injective heq) with hlt | hgt
  · -- A smaller one has smaller steps, but at most 2^53 - 1 of them.
    have hgap := units_add_le hlt
    have hsteps : n.units + 2 ^ n.scale ≤ 2 ^ 53 * 2 ^ n.scale := by
      rw [units_eq, ← Nat.succ_mul]
      exact Nat.mul_le_mul_right _ n.mantissa_lt
    rw [abs_of_nonneg (by omega)]
    zify at *
    linarith
  · have hgap := units_add_le hgt
    have hsteps := m.units_lt
    rw [abs_of_nonpos (by omega)]
    zify at *
    linarith

/-- A number closer to a magnitude than its 2^54th part is rounded to it. -/
theorem is_nearest_of_close (h : |q - m.value| < m.value / 2 ^ 54) : IsNearest q m := by
  have hother : ∀ n : Magnitude, n ≠ m → |q - m.value| < |q - n.value| := by
    intro n hne
    have hgap : m.value / 2 ^ 53 ≤ |m.value - n.value| := by
      have hunits : (m.units : ℚ) ≤ 2 ^ 53 * |(m.units - n.units : ℚ)| := by
        exact_mod_cast units_le_mul_gap hne
      rw [value, value, ← sub_div, abs_div, abs_of_pos (by positivity : (0 : ℚ) < 2 ^ 1074),
        div_right_comm, div_le_div_iff_of_pos_right (by positivity), div_le_iff₀' (by positivity)]
      exact hunits
    have htriangle := abs_sub_le m.value q n.value
    rw [abs_sub_comm m.value q] at htriangle
    linarith
  refine ⟨?_, fun n => ?_, fun {n} hne htie => absurd htie (hother n hne).ne'⟩
  · have hupper := (abs_lt.mp h).2
    have hlargest := value_le m
    have hpos : (0 : ℚ) < 2 ^ 970 := by positivity
    unfold limit
    generalize (2 : ℚ) ^ 970 = p at *
    linarith
  · by_cases hne : n = m
    · rw [hne]
    · exact (hother n hne).le

/-! ## The grid of decimals -/

/-- The point is in front of the first digit that is not zero. -/
theorem decimal_point_spec (h : m ≠ .zero) :
    (10 : ℚ) ^ (m.decimalPoint - 1) ≤ m.value ∧ m.value < 10 ^ m.decimalPoint := by
  have hunits := Nat.pos_of_ne_zero (units_ne_zero h)
  have hunit := units_of_one_pos
  have hcast : (0 : ℚ) < unitsOfOne := by exact_mod_cast hunit
  have hvalue : m.value = m.units / unitsOfOne := by rw [cast_units_of_one, value]
  rw [hvalue, decimalPoint]
  split
  · next hle =>
      have hquotient : m.units / unitsOfOne ≠ 0 := (Nat.div_pos hle hunit).ne'
      have hpos := digit_count_pos (m.units / unitsOfOne)
      have hlow := pow_digit_count_le hquotient
      have hhigh := lt_pow_digit_count (m.units / unitsOfOne)
      generalize digitCount (m.units / unitsOfOne) = count at *
      rw [Nat.le_div_iff_mul_le hunit] at hlow
      rw [Nat.div_lt_iff_lt_mul hunit] at hhigh
      have hsub : (count - 1 : ℤ) = (count - 1 : Nat) := by omega
      rw [hsub, zpow_natCast, zpow_natCast, le_div_iff₀ hcast, div_lt_iff₀ hcast]
      exact ⟨by exact_mod_cast hlow, by exact_mod_cast hhigh⟩
  · next hlt =>
      have hquotient : (unitsOfOne - 1) / m.units ≠ 0 := (Nat.div_pos (by omega) hunits).ne'
      have hpos := digit_count_pos ((unitsOfOne - 1) / m.units)
      have hlow := pow_digit_count_le hquotient
      have hhigh := lt_pow_digit_count ((unitsOfOne - 1) / m.units)
      generalize digitCount ((unitsOfOne - 1) / m.units) = count at *
      rw [Nat.le_div_iff_mul_le hunits, mul_comm] at hlow
      rw [Nat.div_lt_iff_lt_mul hunits, mul_comm] at hhigh
      have hsub : (1 - count : ℤ) = -(count - 1 : Nat) := by omega
      rw [show (1 - count - 1 : ℤ) = -(count : ℤ) by ring, hsub, zpow_neg, zpow_neg, zpow_natCast,
        zpow_natCast, ← one_div, ← one_div, div_le_div_iff₀ (by positivity) hcast,
        div_lt_div_iff₀ hcast (by positivity)]
      exact ⟨by exact_mod_cast (by omega : 1 * unitsOfOne ≤ m.units * 10 ^ count),
        by exact_mod_cast (by omega : m.units * 10 ^ (count - 1) < 1 * unitsOfOne)⟩

/-- A magnitude divided by a power of ten. -/
theorem scaled_down_spec (m : Magnitude) (e : Int) :
    0 < (m.scaledDown e).2 ∧
      ((m.scaledDown e).1 / (m.scaledDown e).2 : ℚ) = m.value / 10 ^ e := by
  have hunit := units_of_one_pos
  have hvalue : m.value = m.units / unitsOfOne := by rw [cast_units_of_one, value]
  rw [hvalue]
  unfold scaledDown
  generalize unitsOfOne = unit at *
  cases e with
  | ofNat e =>
      refine ⟨Nat.mul_pos hunit (Nat.pow_pos (by norm_num)), ?_⟩
      simp [div_div]
  | negSucc e =>
      refine ⟨hunit, ?_⟩
      simp [zpow_negSucc, div_mul_eq_mul_div]

/-- The neighbours of a magnitude on the grid of decimals with so many digits: it is between `b` and
`b + 1`, and `k` is the nearer one of them. -/
structure Neighbours (m : Magnitude) (count b k : Nat) : Prop where
  below : (b : ℚ) ≤ m.value / 10 ^ (m.decimalPoint - count)
  above : m.value / 10 ^ (m.decimalPoint - count) < b + 1
  nearer : IsNearestNat (m.value / 10 ^ (m.decimalPoint - count)) k
  eq_or_eq : k = b ∨ k = b + 1
  of_count : m.ofCount? count =
    match Decimal.readsBack ⟨b, m.decimalPoint - count⟩ m,
      Decimal.readsBack ⟨b + 1, m.decimalPoint - count⟩ m with
    | true, true => some ⟨k, m.decimalPoint - count⟩
    | true, false => some ⟨b, m.decimalPoint - count⟩
    | false, true => some ⟨b + 1, m.decimalPoint - count⟩
    | false, false => none

/-- With any number of digits there are decimals below and above a magnitude. -/
theorem exists_neighbours (m : Magnitude) (count : Nat) : ∃ b k, m.Neighbours count b k := by
  obtain ⟨hden, hratio⟩ := m.scaled_down_spec (m.decimalPoint - count)
  generalize hdown : m.scaledDown (m.decimalPoint - count) = ratio at hden hratio
  obtain ⟨num, den⟩ := ratio
  dsimp only at hden hratio
  have hpos : (0 : ℚ) < den := by exact_mod_cast hden
  have hnearer := is_nearest_nat_of_mod num den hden
  rw [hratio] at hnearer
  refine ⟨num / den, _, ?_, ?_, hnearer, ?_, ?_⟩
  · rw [← hratio]
    exact Nat.cast_div_le
  · rw [← hratio, div_lt_iff₀ hpos]
    exact_mod_cast Nat.lt_mul_of_div_lt (Nat.lt_succ_self _) hden
  · split
    · exact .inr rfl
    · exact .inl rfl
  · unfold ofCount?
    extract_lets exponent
    rw [show m.scaledDown exponent = (num, den) from hdown]
    dsimp only
    generalize Decimal.readsBack ⟨num / den, _⟩ m = below
    generalize Decimal.readsBack ⟨num / den + 1, _⟩ m = above
    cases below with
    | false => cases above <;> rfl
    | true =>
        cases above with
        | false => rfl
        | true => exact congrArg some (apply_ite (Decimal.mk · exponent) _ _ _).symm

/-- The first digit of the lower neighbour is not zero, and it has no more digits than asked for. -/
theorem Neighbours.bounds (h : m.Neighbours count b k) (hne : m ≠ .zero) (hcount : 0 < count) :
    10 ^ (count - 1) ≤ b ∧ b < 10 ^ count := by
  obtain ⟨hlow, hhigh⟩ := decimal_point_spec hne
  have hpos : (0 : ℚ) < 10 ^ (m.decimalPoint - count) := by positivity
  constructor
  · have hle : (10 : ℚ) ^ (count - 1) ≤ m.value / 10 ^ (m.decimalPoint - count) := by
      rw [le_div_iff₀ hpos, ← zpow_natCast, ← zpow_add₀ (by norm_num), Nat.cast_sub hcount]
      exact (congrArg _ (by push_cast; ring)).trans_le hlow
    have hlt : ((10 ^ (count - 1) : Nat) : ℚ) < (b + 1 : Nat) := by
      push_cast
      exact hle.trans_lt h.above
    exact Nat.lt_succ_iff.mp (by exact_mod_cast hlt)
  · have hlt : m.value / 10 ^ (m.decimalPoint - count) < (10 ^ count : Nat) := by
      rw [div_lt_iff₀ hpos, Nat.cast_pow, Nat.cast_ofNat, ← zpow_natCast, ← zpow_add₀ (by norm_num)]
      exact hhigh.trans_eq (congrArg _ (by ring))
    exact_mod_cast h.below.trans_lt hlt

/-- A decimal with that many digits is on one side of both neighbours. -/
theorem Neighbours.le_or_le (h : m.Neighbours count b k) (hne : m ≠ .zero) (hcount : 0 < count)
    (hd : d.digits < 10 ^ count) :
    d.value ≤ Decimal.value ⟨b, m.decimalPoint - count⟩ ∨
      Decimal.value ⟨b + 1, m.decimalPoint - count⟩ ≤ d.value := by
  rcases lt_or_ge d.exponent (m.decimalPoint - count) with hlt | hge
  · -- With a smaller exponent it does not reach the first digit of the magnitude.
    refine .inl ((Decimal.value_lt hd).le.trans ?_)
    refine le_trans ?_ (Decimal.le_value (h.bounds hne hcount).1)
    exact zpow_le_zpow_right₀ (by norm_num) (by dsimp only; omega)
  · -- With a larger one it is a point of the grid.
    obtain ⟨e, he⟩ := Int.eq_ofNat_of_zero_le (sub_nonneg.mpr hge)
    have hpos : (0 : ℚ) < 10 ^ (m.decimalPoint - count) := by positivity
    have hvalue : d.value = (d.digits * 10 ^ e : Nat) * 10 ^ (m.decimalPoint - count) := by
      rw [Decimal.value, show d.exponent = e + (m.decimalPoint - count) by omega,
        zpow_add₀ (by norm_num), zpow_natCast, ← mul_assoc]
      push_cast
      rfl
    rw [hvalue]
    refine (Nat.lt_or_ge b (d.digits * 10 ^ e)).symm.imp (fun hle => ?_) (fun hlt => ?_)
    · exact mul_le_mul_of_nonneg_right (by exact_mod_cast hle) hpos.le
    · exact mul_le_mul_of_nonneg_right (by exact_mod_cast hlt) hpos.le

/-- The magnitude is between its neighbours. -/
theorem Neighbours.value_mem (h : m.Neighbours count b k) :
    Decimal.value ⟨b, m.decimalPoint - count⟩ ≤ m.value ∧
      m.value ≤ Decimal.value ⟨b + 1, m.decimalPoint - count⟩ := by
  have hpos : (0 : ℚ) < 10 ^ (m.decimalPoint - count) := by positivity
  refine ⟨(le_div_iff₀ hpos).mp h.below, ?_⟩
  rw [Decimal.value, Nat.cast_succ]
  exact ((div_lt_iff₀ hpos).mp h.above).le

/-- The distance of a point of the grid. -/
theorem abs_value_sub (m : Magnitude) (count j : Nat) :
    |Decimal.value ⟨j, m.decimalPoint - count⟩ - m.value| =
      |m.value / 10 ^ (m.decimalPoint - count) - j| * 10 ^ (m.decimalPoint - count) := by
  have hpos : (0 : ℚ) < 10 ^ (m.decimalPoint - count) := by positivity
  rw [Decimal.value, abs_sub_comm]
  conv_rhs =>
    rw [← abs_of_pos hpos, ← abs_mul, abs_of_pos hpos, sub_mul, div_mul_cancel₀ _ hpos.ne']

/-- No point of the grid is nearer than the nearer neighbour. -/
theorem Neighbours.abs_le (h : m.Neighbours count b k) (j : Nat) :
    |Decimal.value ⟨k, m.decimalPoint - count⟩ - m.value| ≤
      |Decimal.value ⟨j, m.decimalPoint - count⟩ - m.value| := by
  rw [abs_value_sub, abs_value_sub]
  refine mul_le_mul_of_nonneg_right ?_ (by positivity)
  by_cases hj : j = k
  · rw [hj]
  · exact h.nearer.near.trans (h.nearer.half_le hj)

/-- A decimal that reads back is beyond a neighbour that reads back, too. -/
theorem Neighbours.reads_back (h : m.Neighbours count b k) (hne : m ≠ .zero) (hcount : 0 < count)
    (hd : d.digits < 10 ^ count) (hback : IsNearest d.value m) :
    (Decimal.readsBack ⟨b, m.decimalPoint - count⟩ m ∧
      |Decimal.value ⟨b, m.decimalPoint - count⟩ - m.value| ≤ |d.value - m.value|) ∨
    (Decimal.readsBack ⟨b + 1, m.decimalPoint - count⟩ m ∧
      |Decimal.value ⟨b + 1, m.decimalPoint - count⟩ - m.value| ≤ |d.value - m.value|) := by
  obtain ⟨hbelow, habove⟩ := h.value_mem
  refine (h.le_or_le hne hcount hd).imp (fun hle => ?_) (fun hle => ?_)
  · refine ⟨reads_back_iff.mpr (hback.between (is_nearest_value m) hle hbelow), ?_⟩
    rw [abs_of_nonpos (by linarith), abs_of_nonpos (by linarith)]
    linarith
  · refine ⟨reads_back_iff.mpr ((is_nearest_value m).between hback habove hle), ?_⟩
    rw [abs_of_nonneg (by linarith), abs_of_nonneg (by linarith)]
    linarith

/-! ## The search -/

/-- What is found with so many digits reads back, and no decimal with as many digits is nearer. -/
theorem of_count_spec (hne : m ≠ .zero) (hcount : 0 < count) (h : m.ofCount? count = some d) :
    IsNearest d.value m ∧ d.digits ≤ 10 ^ count ∧
      ∀ d' : Decimal, IsNearest d'.value m → d'.digits < 10 ^ count →
        |d.value - m.value| ≤ |d'.value - m.value| := by
  obtain ⟨b, k, hneighbours⟩ := m.exists_neighbours count
  have hb := (hneighbours.bounds hne hcount).2
  have hnear := hneighbours.abs_le
  have hother := fun d' hback hd' => hneighbours.reads_back (d := d') hne hcount hd' hback
  rw [hneighbours.of_count] at h
  split at h
  · next hbelow habove =>
      obtain rfl := Option.some.inj h
      refine ⟨?_, by rcases hneighbours.eq_or_eq with rfl | rfl <;> dsimp only <;> omega, ?_⟩
      · rcases hneighbours.eq_or_eq with rfl | rfl
        · exact reads_back_iff.mp hbelow
        · exact reads_back_iff.mp habove
      · intro d' hback hd'
        rcases hother d' hback hd' with ⟨-, hle⟩ | ⟨-, hle⟩
        · exact (hnear b).trans hle
        · exact (hnear (b + 1)).trans hle
  · next hbelow habove =>
      obtain rfl := Option.some.inj h
      refine ⟨reads_back_iff.mp hbelow, hb.le, fun d' hback hd' => ?_⟩
      rcases hother d' hback hd' with ⟨-, hle⟩ | ⟨hreads, -⟩
      · exact hle
      · exact absurd hreads (by rw [habove]; exact Bool.false_ne_true)
  · next hbelow habove =>
      obtain rfl := Option.some.inj h
      refine ⟨reads_back_iff.mp habove, hb, fun d' hback hd' => ?_⟩
      rcases hother d' hback hd' with ⟨hreads, -⟩ | ⟨-, hle⟩
      · exact absurd hreads (by rw [hbelow]; exact Bool.false_ne_true)
      · exact hle
  · cases h

/-- Something is found if a neighbour reads back. -/
theorem Neighbours.is_some (h : m.Neighbours count b k)
    (hreads : Decimal.readsBack ⟨b, m.decimalPoint - count⟩ m ∨
      Decimal.readsBack ⟨b + 1, m.decimalPoint - count⟩ m) : (m.ofCount? count).isSome := by
  rw [h.of_count]
  rcases hreads with hreads | hreads <;> rw [hreads]
  · cases Decimal.readsBack ⟨b + 1, m.decimalPoint - count⟩ m <;> rfl
  · cases Decimal.readsBack ⟨b, m.decimalPoint - count⟩ m <;> rfl

/-- If any decimal with so many digits reads back, one is found. -/
theorem is_some_of_count (hne : m ≠ .zero) (hcount : 0 < count) (hd : d.digits < 10 ^ count)
    (hback : IsNearest d.value m) : (m.ofCount? count).isSome := by
  obtain ⟨b, k, h⟩ := m.exists_neighbours count
  exact h.is_some ((h.reads_back hne hcount hd hback).imp And.left And.left)

/-- Seventeen digits always read back. -/
theorem is_some_of_seventeen_le (hne : m ≠ .zero) (hcount : 17 ≤ count) :
    (m.ofCount? count).isSome := by
  obtain ⟨b, k, h⟩ := m.exists_neighbours count
  have hpos : (0 : ℚ) < 10 ^ (m.decimalPoint - count) := by positivity
  have hclose : |Decimal.value ⟨k, m.decimalPoint - count⟩ - m.value| < m.value / 2 ^ 54 := by
    have hlow := (decimal_point_spec hne).1
    have hnear := mul_le_mul_of_nonneg_right h.nearer.near hpos.le
    have hpow : (10 : ℚ) ^ (16 : ℤ) ≤ 10 ^ (count - 1 : ℤ) :=
      zpow_le_zpow_right₀ (by norm_num) (by omega)
    rw [show m.decimalPoint - 1 = (count - 1) + (m.decimalPoint - count) by ring,
      zpow_add₀ (by norm_num)] at hlow
    rw [abs_value_sub]
    refine hnear.trans_lt ((lt_div_iff₀ (by positivity)).mpr (lt_of_lt_of_le ?_ hlow))
    rw [mul_right_comm]
    exact mul_lt_mul_of_pos_right (lt_of_lt_of_le (by norm_num) hpow) hpos
  have hreads := reads_back_iff.mpr (is_nearest_of_close hclose)
  rcases h.eq_or_eq with rfl | rfl
  · exact h.is_some (.inl hreads)
  · exact h.is_some (.inr hreads)

/-- The search ends at the least number of digits with which anything is found. -/
theorem exists_search (hne : m ≠ .zero) :
    ∃ count d, 0 < count ∧ count ≤ 17 ∧ m.ofCount? count = some d ∧ m.shortest = d.normalize 20 ∧
      ∀ n, 0 < n → n < count → m.ofCount? n = none := by
  unfold shortest
  cases hsearch : (List.range 17).findSome? fun n => m.ofCount? (n + 1) with
  | none =>
      have hnone : ∀ n < 17, m.ofCount? (n + 1) = none := fun n hn =>
        List.findSome?_eq_none_iff.mp hsearch n (List.mem_range.mpr hn)
      have hsome := is_some_of_seventeen_le hne (by norm_num : 17 ≤ 16 + 1)
      rw [hnone 16 (by norm_num)] at hsome
      cases hsome
  | some d =>
      obtain ⟨before, n, after, hrange, hfound, hbefore⟩ := List.findSome?_eq_some_iff.mp hsearch
      rw [List.range_eq_range', List.range'_eq_append_iff] at hrange
      obtain ⟨k, hk, rfl, hafter⟩ := hrange
      obtain ⟨rfl, hlt, -⟩ := List.range'_eq_cons_iff.mp hafter.symm
      refine ⟨_, d, Nat.succ_pos _, by omega, hfound, rfl, fun i hi hin => ?_⟩
      have hnone := hbefore (i - 1) (List.mem_range'_1.mpr (by omega))
      rwa [Nat.sub_add_cancel hi] at hnone

/-- Removing zeros leaves no more digits than asked for, also of a power of ten. -/
theorem digits_normalize_lt (hcount : 0 < count) (hd : d.digits ≤ 10 ^ count) (fuel : Nat) :
    (d.normalize (fuel + 1)).digits < 10 ^ count := by
  rw [Decimal.normalize]
  split
  · have hpow : 10 ^ count = 10 ^ (count - 1) * 10 := by rw [← pow_succ, Nat.sub_add_cancel hcount]
    have hpos : 0 < 10 ^ (count - 1) := Nat.pow_pos (by norm_num)
    refine (Decimal.digits_normalize_le _ _).trans_lt ?_
    dsimp only
    omega
  · next h =>
      refine lt_of_le_of_ne hd fun heq => h ?_
      rw [heq, Bool.and_eq_true, decide_eq_true_eq, bne_iff_ne]
      exact ⟨Nat.mod_eq_zero_of_dvd (dvd_pow_self 10 hcount.ne'), (Nat.pow_pos (by norm_num)).ne'⟩

/-- The shortest decimal of a magnitude is what it is called. -/
theorem is_shortest (hne : m ≠ .zero) : m.IsShortest m.shortest := by
  obtain ⟨count, d, hcount, -, hfound, hshortest, hbefore⟩ := exists_search hne
  obtain ⟨hback, hle, hclosest⟩ := of_count_spec hne hcount hfound
  have hdigits : m.shortest.digits < 10 ^ count := by
    rw [hshortest]
    exact digits_normalize_lt hcount hle 19
  have hvalue : m.shortest.value = d.value := by rw [hshortest, Decimal.value_normalize]
  have hshort : IsNearest m.shortest.value m := by
    rw [hvalue]
    exact hback
  have hfewest : ∀ d' : Decimal, IsNearest d'.value m → count ≤ digitCount d'.digits := by
    intro d' hback'
    by_contra hlt
    have hsome := is_some_of_count hne (digit_count_pos d'.digits) (lt_pow_digit_count _) hback'
    rw [hbefore _ (digit_count_pos _) (by omega)] at hsome
    cases hsome
  have hcounted : digitCount m.shortest.digits = count :=
    ((digit_count_le_iff hcount).mpr hdigits).antisymm (hfewest _ hshort)
  refine ⟨hshort, fun hback' => hcounted.trans_le (hfewest _ hback'), fun {d'} hback' heq => ?_⟩
  rw [hvalue]
  exact hclosest d' hback' ((digit_count_le_iff hcount).mp (by omega))

/-- The shortest decimal has no zeros at the end. -/
theorem digits_shortest_mod (hne : m ≠ .zero) : m.shortest.digits % 10 ≠ 0 := by
  obtain ⟨count, d, hcount, hlast, hfound, hshortest, -⟩ := exists_search hne
  obtain ⟨hback, hle, -⟩ := of_count_spec hne hcount hfound
  rw [hshortest]
  refine Decimal.digits_normalize_mod (fun hzero => hne ?_) (hle.trans_lt ?_)
  · have hvalue : d.value = Magnitude.zero.value := by
      rw [value_zero, Decimal.value, hzero, Nat.cast_zero, zero_mul]
    exact hback.unique (hvalue ▸ is_nearest_value .zero)
  · exact Nat.pow_lt_pow_right (by norm_num) (by omega)

/-- Zero is its own shortest decimal. -/
theorem is_shortest_zero : Magnitude.zero.IsShortest ⟨0, 0⟩ := by
  have hvalue : Decimal.value ⟨0, 0⟩ = Magnitude.zero.value := by simp [value_zero, Decimal.value]
  refine ⟨hvalue ▸ is_nearest_value .zero, fun {d'} _ => digit_count_pos _, fun {d'} _ _ => ?_⟩
  rw [hvalue, sub_self, abs_zero]
  exact abs_nonneg _

end Magnitude

end StaticLiteral
