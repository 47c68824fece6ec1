import Mathlib
import StaticLiteral.Number.Shortest
import StaticLiteral.Proofs.Number.Digits
import StaticLiteral.Proofs.Number.Nearest

/-!
# Rounding decimals

Natural numbers and decimals are rounded correctly, whatever the number of their digits and their
exponent (`rounds_natural`, `rounds_decimal`). So whether a decimal reads back as a magnitude is a
matter of its value only (`reads_back_iff`).
-/

namespace StaticLiteral

namespace Decimal

/-- The number that a decimal is. -/
def value (d : Decimal) : ℚ := d.digits * 10 ^ d.exponent

/-- A decimal with digits below a power of ten is below that power with its exponent. -/
theorem value_lt {d : Decimal} {n : Nat} (h : d.digits < 10 ^ n) :
    d.value < 10 ^ (n + d.exponent) := by
  rw [zpow_add₀ (by norm_num), zpow_natCast]
  exact mul_lt_mul_of_pos_right (by exact_mod_cast h) (by positivity)

/-- A decimal with digits from a power of ten on is at least that power with its exponent. -/
theorem le_value {d : Decimal} {n : Nat} (h : 10 ^ n ≤ d.digits) :
    10 ^ (n + d.exponent) ≤ d.value := by
  rw [zpow_add₀ (by norm_num), zpow_natCast]
  exact mul_le_mul_of_nonneg_right (by exact_mod_cast h) (by positivity)

end Decimal

namespace Rounding

variable {q : ℚ} {m : Magnitude} {d : Decimal}

/-! ## What is exact, too small or too large -/

/-- The largest magnitude is half a step below the limit. -/
theorem value_le (m : Magnitude) : m.value ≤ (2 ^ 54 - 2) * 2 ^ 970 := by
  have hmantissa : (m.mantissa : ℚ) ≤ 2 ^ 53 - 1 := by
    have := m.mantissa_lt
    exact_mod_cast (by omega : (m.mantissa : ℤ) ≤ 2 ^ 53 - 1)
  have hscale : (2 : ℚ) ^ m.scale ≤ 2 ^ 2044 * 2 := by
    rw [← pow_succ]
    exact pow_le_pow_right₀ one_le_two m.scale_le
  rw [Magnitude.value, div_le_iff₀ (by positivity), mul_assoc, ← pow_add, Magnitude.units_eq,
    Nat.cast_mul, Nat.cast_pow, Nat.cast_ofNat]
  calc (m.mantissa * 2 ^ m.scale : ℚ) ≤ (2 ^ 53 - 1) * (2 ^ 2044 * 2) :=
        mul_le_mul hmantissa hscale (by positivity) (by norm_num)
    _ = (2 ^ 54 - 2) * 2 ^ 2044 := by
      generalize (2 : ℚ) ^ 2044 = p
      ring

/-- A magnitude is rounded to itself. -/
theorem is_nearest_value (m : Magnitude) : IsNearest m.value m := by
  refine ⟨(value_le m).trans_lt ?_, fun n => by simp, fun {n} hne htie => ?_⟩
  · unfold limit
    gcongr
    norm_num
  · rw [sub_self, abs_zero, abs_eq_zero, sub_eq_zero] at htie
    exact absurd (Magnitude.value_injective htie.symm) hne

/-- The magnitude zero is the number zero. -/
theorem value_zero : Magnitude.zero.value = 0 := by
  simp [Magnitude.value, Magnitude.units, Magnitude.zero]

/-- What is at most half of the smallest magnitude is rounded to zero. -/
theorem is_nearest_zero (h : q ≤ 1 / 2 ^ 1075) : IsNearest q .zero := by
  have hle : 2 * q ≤ 1 / 2 ^ 1074 := by
    rw [pow_succ] at h
    generalize (2 : ℚ) ^ 1074 = p at *
    calc 2 * q ≤ 2 * (1 / (p * 2)) := mul_le_mul_of_nonneg_left h zero_le_two
      _ = 1 / p := by field_simp
  refine ⟨?_, fun n => ?_, fun _ _ => rfl⟩
  · have hone : 1 / 2 ^ 1074 ≤ (1 : ℚ) := by
      rw [div_le_one (by positivity)]
      exact one_le_pow₀ one_le_two
    have hlarge : (1 : ℚ) ≤ 2 ^ 970 := one_le_pow₀ one_le_two
    have hsmall := hle.trans hone
    clear h hle hone
    unfold limit
    generalize (2 : ℚ) ^ 970 = p at *
    linarith
  · rw [value_zero]
    by_cases hn : n = .zero
    · rw [hn, value_zero]
    · have hunits : n.units ≠ 0 := fun h => hn (Magnitude.units_injective (by rw [h]; rfl))
      have hunit : 1 / 2 ^ 1074 ≤ n.value := by
        rw [Magnitude.value, div_le_div_iff_of_pos_right (by positivity)]
        exact_mod_cast Nat.one_le_iff_ne_zero.mpr hunits
      have hpos : (0 : ℚ) < 1 / 2 ^ 1074 := by positivity
      rw [abs_sub_le_iff_of_lt (hpos.trans_le hunit), zero_add]
      exact hle.trans hunit

/-- The limit has 309 digits. -/
theorem limit_le : limit ≤ 10 ^ (400 : ℤ) := by
  calc limit ≤ 2 ^ 54 * 2 ^ 970 := by
        unfold limit
        gcongr
        exact sub_le_self _ zero_le_one
    _ = (2 ^ 64) ^ 16 := by rw [← pow_add, ← pow_mul]
    _ ≤ (10 ^ 25) ^ 16 := by
        gcongr
        norm_num
    _ = 10 ^ (400 : ℤ) := by
        rw [← pow_mul]
        exact (zpow_natCast 10 400).symm

/-- The smallest magnitude has its first digit in the 324th place after the point. -/
theorem pow_le_half : (10 : ℚ) ^ (-401 : ℤ) ≤ 1 / 2 ^ 1075 := by
  calc (10 : ℚ) ^ (-401 : ℤ) = 1 / 10 ^ 401 := by
        rw [zpow_neg, one_div]
        exact congrArg (·⁻¹) (zpow_natCast 10 401)
    _ ≤ 1 / (2 ^ 3) ^ 401 := by
        gcongr
        norm_num
    _ ≤ 1 / 2 ^ 1075 := by
        rw [← pow_mul]
        exact one_div_le_one_div_of_le (by positivity) (pow_le_pow_right₀ one_le_two (by norm_num))

/-! ## Numbers that are read -/

/-- One has as many units as there are smallest magnitudes in it. -/
theorem cast_units_of_one : (Magnitude.unitsOfOne : ℚ) = 2 ^ 1074 := by
  unfold Magnitude.unitsOfOne
  generalize 1074 = e
  rw [Nat.pow_eq, Nat.cast_pow, Nat.cast_ofNat]

/-- One has units. -/
theorem units_of_one_pos : 0 < Magnitude.unitsOfOne := by
  unfold Magnitude.unitsOfOne
  generalize 1074 = e
  exact Nat.pow_pos two_pos

/-- A ratio of natural numbers is rounded correctly. -/
theorem rounds_ratio (num den : Nat) (hden : 0 < den) :
    Rounds (num / den) (nearest? (num * Magnitude.unitsOfOne) den) := by
  have h := rounds_nearest (num * Magnitude.unitsOfOne) den hden
  rw [Nat.cast_mul, cast_units_of_one, mul_div_right_comm,
    mul_div_cancel_right₀ _ (by positivity)] at h
  exact h

/-- A natural number is rounded correctly. -/
theorem rounds_natural (n : Nat) : Rounds n (natural? n) := by
  simpa [natural?] using rounds_ratio n 1 one_pos

/-- A decimal is rounded correctly. -/
theorem rounds_decimal (d : Decimal) : Rounds d.value (decimal? d.digits d.exponent) := by
  unfold decimal?
  split
  · next hzero =>
      rw [Decimal.value, hzero, Nat.cast_zero, zero_mul]
      exact .finite (is_nearest_zero (by positivity))
  next hzero =>
  have hlt := Decimal.value_lt (lt_pow_digit_count d.digits)
  have hle := Decimal.le_value (pow_digit_count_le hzero)
  have hcount := digit_count_pos d.digits
  generalize digitCount d.digits = count at *
  dsimp only
  split
  · next hlarge =>
      refine .beyond (limit_le.trans (le_trans ?_ hle))
      exact zpow_le_zpow_right₀ (by norm_num) (by omega)
  split
  · next hsmall =>
      refine .finite (is_nearest_zero (hlt.le.trans (le_trans ?_ pow_le_half)))
      exact zpow_le_zpow_right₀ (by norm_num) (by omega)
  split
  · next e heq =>
      have h := rounds_ratio (d.digits * 10 ^ e) 1 one_pos
      have hvalue : d.value = (d.digits * 10 ^ e : Nat) / (1 : Nat) := by
        rw [Decimal.value, heq]
        simp
      rw [hvalue]
      exact h
  · next e heq =>
      have h := rounds_ratio d.digits (10 ^ (e + 1)) (Nat.pow_pos (by norm_num))
      have hvalue : d.value = d.digits / (10 ^ (e + 1) : Nat) := by
        rw [Decimal.value, heq, zpow_negSucc, Nat.cast_pow, Nat.cast_ofNat, div_eq_mul_inv]
      rw [hvalue]
      exact h

/-- A decimal reads back as the magnitude that its value is rounded to. -/
theorem reads_back_iff : d.readsBack m ↔ IsNearest d.value m := by
  have h := rounds_decimal d
  rw [Decimal.readsBack, beq_iff_eq]
  constructor
  · intro heq
    rw [heq] at h
    cases h with
    | finite h => exact h
  · exact fun hnearest => h.unique (.finite hnearest)

end Rounding

end StaticLiteral
