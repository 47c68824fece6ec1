import Mathlib
import StaticLiteral.Number.Rounding

/-!
# The nearest double

Doubles are compared with exact numbers. `Rounds q` says which magnitude a number `q` is rounded to:
the nearest one, of two equally near ones the one with the even mantissa, and none from the number
on that is half a step beyond the largest. There is exactly one answer (`Rounds.unique`), it is the
one that is computed (`rounds_nearest`), and the numbers that are rounded to one magnitude have no
gaps (`IsNearest.between`).
-/

namespace StaticLiteral

namespace Magnitude

/-- The number that a magnitude is. -/
def value (m : Magnitude) : ℚ := m.units / 2 ^ 1074

end Magnitude

namespace Rounding

/-- Half a step beyond the largest magnitude. From here on rounding leads beyond all of them. -/
def limit : ℚ := (2 ^ 54 - 1) * 2 ^ 970

/-- The magnitude is the one that a number is rounded to. -/
structure IsNearest (q : ℚ) (m : Magnitude) : Prop where
  below : q < limit
  nearest (n : Magnitude) : |q - m.value| ≤ |q - n.value|
  even {n : Magnitude} (hne : n ≠ m) (htie : |q - n.value| = |q - m.value|) : m.mantissa % 2 = 0

/-- What a number is rounded to, `none` standing for what is beyond all magnitudes. -/
inductive Rounds (q : ℚ) : Option Magnitude → Prop where
  | finite {m : Magnitude} (h : IsNearest q m) : Rounds q (some m)
  | beyond (h : limit ≤ q) : Rounds q none

end Rounding

/-! ## Magnitudes -/

namespace Magnitude

variable {m n : Magnitude}

/-- A mantissa has at most 53 bits. -/
theorem mantissa_lt (m : Magnitude) : m.mantissa < 2 ^ 53 := m.canonical.1

/-- The scale is at most that of the greatest finite magnitude. -/
theorem scale_le (m : Magnitude) : m.scale ≤ 2045 := m.canonical.2.1

/-- A mantissa has exactly 53 bits, unless the scale is the lowest. -/
theorem le_mantissa (m : Magnitude) (h : m.scale ≠ 0) : 2 ^ 52 ≤ m.mantissa :=
  m.canonical.2.2.resolve_right h

/-- Mantissa and scale make up the units. -/
theorem units_eq (m : Magnitude) : m.units = m.mantissa * 2 ^ m.scale := rfl

/-- The units have at most 53 bits and the scale. -/
theorem units_lt (m : Magnitude) : m.units < 2 ^ 53 * 2 ^ m.scale :=
  Nat.mul_lt_mul_of_pos_right m.mantissa_lt (Nat.two_pow_pos _)

/-- The units have exactly 53 bits and the scale, unless this is the lowest. -/
theorem le_units (m : Magnitude) (h : m.scale ≠ 0) : 2 ^ 52 * 2 ^ m.scale ≤ m.units :=
  Nat.mul_le_mul_right _ (m.le_mantissa h)

/-- On a coarser grid a magnitude is a grid point, or it is below all points with full mantissas. -/
theorem units_cases (m : Magnitude) (scale : Nat) :
    (∃ j, m.units = j * 2 ^ scale) ∨ scale ≠ 0 ∧ m.units < 2 ^ 52 * 2 ^ scale := by
  rcases Nat.lt_or_ge m.scale scale with h | h
  · refine .inr ⟨by omega, m.units_lt.trans_le ?_⟩
    calc 2 ^ 53 * 2 ^ m.scale = 2 ^ 52 * 2 ^ (m.scale + 1) := by ring
      _ ≤ 2 ^ 52 * 2 ^ scale := Nat.mul_le_mul_left _ (Nat.pow_le_pow_right (by norm_num) h)
  · refine .inl ⟨m.mantissa * 2 ^ (m.scale - scale), ?_⟩
    rw [units_eq, mul_assoc, ← pow_add, Nat.sub_add_cancel h]

/-- A number of units is that of one magnitude. -/
theorem units_injective (h : m.units = n.units) : m = n := by
  -- The scale is told by the number of units, and then the mantissa.
  have hscale : ∀ m n : Magnitude, m.units = n.units → m.scale ≤ n.scale := by
    intro m n h
    by_contra hlt
    have hmantissa := m.le_units (by omega)
    have hpow : 2 ^ 53 * 2 ^ n.scale ≤ 2 ^ 52 * 2 ^ m.scale := by
      calc 2 ^ 53 * 2 ^ n.scale = 2 ^ 52 * 2 ^ (n.scale + 1) := by ring
        _ ≤ 2 ^ 52 * 2 ^ m.scale :=
          Nat.mul_le_mul_left _ (Nat.pow_le_pow_right (by norm_num) (by omega))
    exact absurd (n.units_lt.trans_le (hpow.trans hmantissa)) (by omega)
  have heq : m.scale = n.scale := (hscale m n h).antisymm (hscale n m h.symm)
  rw [units_eq, units_eq, heq] at h
  have hmantissa := Nat.eq_of_mul_eq_mul_right (Nat.two_pow_pos _) h
  cases m
  cases n
  simp_all

/-- Values are compared by units. -/
theorem value_le_iff : m.value ≤ n.value ↔ m.units ≤ n.units := by
  rw [value, value, div_le_div_iff_of_pos_right (by positivity), Nat.cast_le]

/-- Values are strictly compared by units. -/
theorem value_lt_iff : m.value < n.value ↔ m.units < n.units := by
  rw [value, value, div_lt_div_iff_of_pos_right (by positivity), Nat.cast_lt]

/-- No two magnitudes have one value. -/
theorem value_injective (h : m.value = n.value) : m = n :=
  units_injective ((value_le_iff.mp h.le).antisymm (value_le_iff.mp h.ge))

/-- Two magnitudes are at least a step of the smaller one apart. -/
theorem units_add_le (h : m.units < n.units) : m.units + 2 ^ m.scale ≤ n.units := by
  rcases n.units_cases m.scale with ⟨j, hj⟩ | ⟨hscale, hsmall⟩
  · rw [hj, units_eq] at h ⊢
    calc m.mantissa * 2 ^ m.scale + 2 ^ m.scale = (m.mantissa + 1) * 2 ^ m.scale := by ring
      _ ≤ j * 2 ^ m.scale := Nat.mul_le_mul_right _ (Nat.lt_of_mul_lt_mul_right h)
  · exact absurd ((m.le_units hscale).trans_lt h) (by omega)

/-- Above a magnitude with an even mantissa there is a next one, and its mantissa is odd. -/
theorem exists_next (h : m.mantissa % 2 = 0) :
    ∃ n : Magnitude, n.mantissa % 2 = 1 ∧ m.value < n.value ∧
      ∀ k : Magnitude, m.value < k.value → n.value ≤ k.value := by
  have hlt := m.mantissa_lt
  have hcanonical := m.canonical
  let n : Magnitude := ⟨m.mantissa + 1, m.scale, by omega⟩
  have hunits : n.units = m.units + 2 ^ m.scale := Nat.succ_mul _ _
  refine ⟨n, by simp only [n]; omega, value_lt_iff.mpr ?_, fun k hk => value_le_iff.mpr ?_⟩
  · rw [hunits]
    exact Nat.lt_add_of_pos_right (Nat.two_pow_pos _)
  · rw [hunits]
    exact units_add_le (value_lt_iff.mp hk)

end Magnitude

/-! ## What is nearest -/

namespace Rounding

variable {q q' r a b : ℚ} {m n : Magnitude}

/-- A number is not nearer to the larger of two numbers exactly up to their middle. -/
theorem abs_sub_le_iff_of_lt (h : a < b) : |q - a| ≤ |q - b| ↔ 2 * q ≤ a + b := by
  rw [← sq_le_sq]
  constructor <;> intro hle <;> nlinarith

/-- A number is not nearer to the smaller of two numbers exactly from their middle on. -/
theorem abs_sub_le_iff_of_gt (h : b < a) : |q - a| ≤ |q - b| ↔ a + b ≤ 2 * q := by
  rw [← sq_le_sq]
  constructor <;> intro hle <;> nlinarith

/-- A number is as near to one number as to another in the middle of them only. -/
theorem two_mul_eq_of_tie (hne : a ≠ b) (h : |q - a| = |q - b|) : 2 * q = a + b := by
  rcases abs_eq_abs.mp h with h | h
  · exact absurd (by linarith) hne
  · linarith

/-- A magnitude that two numbers are rounded to is also that of the numbers between them. -/
theorem IsNearest.between (h : IsNearest q m) (h' : IsNearest q' m) (hle : q ≤ r) (hle' : r ≤ q') :
    IsNearest r m := by
  refine ⟨hle'.trans_lt h'.below, fun n => ?_, fun {n} hne htie => ?_⟩
  · rcases lt_trichotomy m.value n.value with hlt | heq | hgt
    · have hn := (abs_sub_le_iff_of_lt hlt).mp (h'.nearest n)
      exact (abs_sub_le_iff_of_lt hlt).mpr (by linarith)
    · rw [heq]
    · have hn := (abs_sub_le_iff_of_gt hgt).mp (h.nearest n)
      exact (abs_sub_le_iff_of_gt hgt).mpr (by linarith)
  · -- A tie in between is a tie at one of the ends.
    have hvalue : n.value ≠ m.value := fun heq => hne (Magnitude.value_injective heq)
    have hmiddle := two_mul_eq_of_tie hvalue htie
    rcases hvalue.lt_or_gt with hlt | hgt
    · have hend := (abs_sub_le_iff_of_gt hlt).mp (h.nearest n)
      obtain rfl : q = r := by linarith
      exact h.even hne htie
    · have hend := (abs_sub_le_iff_of_lt hgt).mp (h'.nearest n)
      obtain rfl : q' = r := by linarith
      exact h'.even hne htie

/-- A number is rounded to one magnitude only. -/
theorem IsNearest.unique (h : IsNearest q m) (h' : IsNearest q n) : m = n := by
  by_contra hne
  wlog hlt : m.value < n.value generalizing m n
  · have hvalue : m.value ≠ n.value := fun heq => hne (Magnitude.value_injective heq)
    exact this h' h (Ne.symm hne) (hvalue.lt_or_gt.resolve_left hlt)
  -- Both have even mantissas, so there is a magnitude between them that is nearer.
  have htie : |q - m.value| = |q - n.value| := (h.nearest n).antisymm (h'.nearest m)
  obtain ⟨k, hodd, hmk, hnext⟩ := Magnitude.exists_next (h.even (Ne.symm hne) htie.symm)
  have hkn : k.value < n.value := by
    refine lt_of_le_of_ne (hnext n hlt) fun heq => ?_
    rw [Magnitude.value_injective heq, h'.even hne htie] at hodd
    cases hodd
  have hmiddle := two_mul_eq_of_tie hlt.ne htie
  have hk := (abs_sub_le_iff_of_lt hmk).mp (h.nearest k)
  linarith

/-- A number is rounded in one way only. -/
theorem Rounds.unique {x y : Option Magnitude} (h : Rounds q x) (h' : Rounds q y) : x = y := by
  cases h with
  | beyond h =>
      cases h' with
      | beyond _ => rfl
      | finite h' => exact absurd h (not_le.mpr h'.below)
  | finite h =>
      cases h' with
      | beyond h' => exact absurd h' (not_le.mpr h.below)
      | finite h' => rw [h.unique h']

/-! ## How the nearest magnitude is found -/

/-- The natural number is the nearest one, or of two equally near ones the even one. -/
structure IsNearestNat (y : ℚ) (k : Nat) : Prop where
  near : |y - k| ≤ 1 / 2
  even (htie : |y - k| = 1 / 2) : k % 2 = 0

/-- Of the two neighbours of a ratio, the one that the remainder tells is the nearest. -/
theorem is_nearest_nat_of_mod (num step : Nat) (h : 0 < step) :
    IsNearestNat (num / step : ℚ)
      (if step < 2 * (num % step) || 2 * (num % step) == step && num / step % 2 == 1 then
        num / step + 1 else num / step) := by
  have hstep : (0 : ℚ) < step := by exact_mod_cast h
  have hrest : num % step < step := Nat.mod_lt _ h
  have hnum : (num / step : ℚ) = (num / step : Nat) + (num % step : Nat) / step := by
    rw [div_eq_iff hstep.ne', add_mul, div_mul_cancel₀ _ hstep.ne']
    exact_mod_cast (Nat.div_add_mod' num step).symm
  rw [hnum]
  generalize num / step = below
  generalize num % step = rest at *
  have hhalf : (rest / step : ℚ) ≤ 1 / 2 ↔ 2 * rest ≤ step := by
    rw [div_le_iff₀ hstep]
    constructor <;> intro hle
    · exact_mod_cast (by linarith : (2 * rest : ℚ) ≤ step)
    · have : (2 * rest : ℚ) ≤ step := by exact_mod_cast hle
      linarith
  have htie : (rest / step : ℚ) = 1 / 2 ↔ 2 * rest = step := by
    rw [div_eq_iff hstep.ne']
    constructor <;> intro heq
    · exact_mod_cast (by linarith : (2 * rest : ℚ) = step)
    · have : (2 * rest : ℚ) = step := by exact_mod_cast heq
      linarith
  have hone : (rest / step : ℚ) < 1 := (div_lt_one hstep).mpr (by exact_mod_cast hrest)
  have hnonneg : (0 : ℚ) ≤ rest / step := by positivity
  split
  · next hup =>
      simp only [Bool.or_eq_true, Bool.and_eq_true, decide_eq_true_eq, beq_iff_eq] at hup
      have hdistance : |(below + rest / step : ℚ) - (below + 1 : Nat)| = 1 - rest / step := by
        push_cast
        rw [abs_of_nonpos (by linarith)]
        ring
      have hge : (1 / 2 : ℚ) ≤ rest / step := by
        rcases hup with hup | ⟨hup, -⟩
        · exact (lt_of_not_ge fun hle => absurd (hhalf.mp hle) (by omega)).le
        · exact (htie.mpr hup).ge
      refine ⟨by linarith, fun heq => ?_⟩
      have := htie.mp (by linarith)
      omega
  · next hdown =>
      simp only [Bool.or_eq_true, Bool.and_eq_true, decide_eq_true_eq, beq_iff_eq, not_or,
        not_and, not_lt] at hdown
      have hdistance : |(below + rest / step : ℚ) - below| = rest / step := by
        rw [add_sub_cancel_left, abs_of_nonneg hnonneg]
      refine ⟨by rw [hdistance]; exact hhalf.mpr hdown.1, fun heq => ?_⟩
      have := hdown.2 (htie.mp (by rw [← hdistance, heq]))
      omega

/-- Every other natural number is at least half a step away. -/
theorem IsNearestNat.half_le {y : ℚ} {j k : Nat} (h : IsNearestNat y k) (hne : j ≠ k) :
    1 / 2 ≤ |y - j| := by
  have hdistance : (1 : ℚ) ≤ |(j : ℚ) - k| := by
    have : (1 : ℤ) ≤ |(j : ℤ) - k| := Int.one_le_abs (sub_ne_zero.mpr (by exact_mod_cast hne))
    exact_mod_cast this
  have htriangle : |(j : ℚ) - k| ≤ |y - k| + |y - j| := by
    rw [abs_sub_comm y j, add_comm]
    exact abs_sub_le _ _ _
  linarith [h.near]

/-- A distance in units of `2 ^ scale`. -/
theorem abs_sub_mul_pow (x : ℚ) (j scale : Nat) :
    |x - (j * 2 ^ scale : Nat)| = |x / 2 ^ scale - j| * 2 ^ scale := by
  have hpos : (0 : ℚ) < 2 ^ scale := by positivity
  rw [← abs_of_pos hpos, ← abs_mul, abs_of_pos hpos, sub_mul, div_mul_cancel₀ _ hpos.ne']
  push_cast
  rfl

/-- A distance from a magnitude in its units. -/
theorem abs_sub_value (x : ℚ) (m : Magnitude) :
    |x / 2 ^ 1074 - m.value| = |x - m.units| / 2 ^ 1074 := by
  rw [Magnitude.value, ← sub_div, abs_div, abs_of_pos (by positivity : (0 : ℚ) < 2 ^ 1074)]

/-- The nearest point of a grid is the nearest magnitude, if it is one and the number is above all
magnitudes that are no points of the grid. -/
theorem is_nearest_of_grid {x : ℚ} {scale k : Nat} {m : Magnitude}
    (hk : IsNearestNat (x / 2 ^ scale) k) (hfull : scale = 0 ∨ 2 ^ 52 * 2 ^ scale ≤ x)
    (hunits : m.units = k * 2 ^ scale) (heven : k % 2 = 0 → m.mantissa % 2 = 0)
    (hlimit : x / 2 ^ 1074 < limit) : IsNearest (x / 2 ^ 1074) m := by
  have hpos : (0 : ℚ) < 2 ^ scale := by positivity
  have hnear : |x - m.units| ≤ 1 / 2 * 2 ^ scale := by
    rw [hunits, abs_sub_mul_pow]
    exact mul_le_mul_of_nonneg_right hk.near hpos.le
  have hpoint : ∀ j : Nat, |x - m.units| ≤ |x - (j * 2 ^ scale : Nat)| := by
    intro j
    by_cases hjk : j = k
    · rw [hjk, hunits]
    · rw [abs_sub_mul_pow]
      exact hnear.trans (mul_le_mul_of_nonneg_right (hk.half_le hjk) hpos.le)
  have hbelow : ∀ n : Magnitude, scale ≠ 0 → n.units < 2 ^ 52 * 2 ^ scale →
      |x - m.units| < |x - n.units| := by
    intro n hscale hsmall
    have hle := hfull.resolve_left hscale
    have hlt : (n.units : ℚ) < 2 ^ 52 * 2 ^ scale := by exact_mod_cast hsmall
    calc |x - m.units| ≤ |x - (2 ^ 52 * 2 ^ scale : Nat)| := hpoint _
      _ = x - 2 ^ 52 * 2 ^ scale := by
        push_cast
        exact abs_of_nonneg (sub_nonneg.mpr hle)
      _ < x - n.units := by linarith
      _ ≤ |x - n.units| := le_abs_self _
  refine ⟨hlimit, fun n => ?_, fun {n} hne htie => ?_⟩
  · rw [abs_sub_value, abs_sub_value, div_le_div_iff_of_pos_right (by positivity)]
    rcases n.units_cases scale with ⟨j, hj⟩ | ⟨hscale, hsmall⟩
    · rw [hj]
      exact hpoint j
    · exact (hbelow n hscale hsmall).le
  · rw [abs_sub_value, abs_sub_value, div_left_inj' (by positivity)] at htie
    rcases n.units_cases scale with ⟨j, hj⟩ | ⟨hscale, hsmall⟩
    · have hjk : j ≠ k := fun heq => hne (Magnitude.units_injective (by rw [hj, hunits, heq]))
      refine heven (hk.even (hk.near.antisymm ?_))
      rw [hj, hunits, abs_sub_mul_pow, abs_sub_mul_pow, mul_left_inj' hpos.ne'] at htie
      exact htie ▸ hk.half_le hjk
    · exact absurd htie (hbelow n hscale hsmall).ne'

/-- The limit in units of 2^-1074. -/
theorem lt_limit_iff (x : ℚ) : x / 2 ^ 1074 < limit ↔ x < (2 ^ 54 - 1) * 2 ^ 2044 := by
  rw [div_lt_iff₀ (by positivity), limit, mul_assoc, ← pow_add]

/-- A grid point with a full mantissa is rounded to unless its scale is too large. -/
theorem rounds_make {x : ℚ} {scale k mantissa scale' : Nat} (hk : IsNearestNat (x / 2 ^ scale) k)
    (hfull : scale = 0 ∨ 2 ^ 52 * 2 ^ scale ≤ x) (hlt : mantissa < 2 ^ 53)
    (hle : 2 ^ 52 ≤ mantissa ∨ scale' = 0) (hunits : mantissa * 2 ^ scale' = k * 2 ^ scale)
    (heven : k % 2 = 0 → mantissa % 2 = 0) (hlimit : scale' ≤ 2045 ↔ x / 2 ^ 1074 < limit) :
    Rounds (x / 2 ^ 1074) (Magnitude.make? mantissa scale') := by
  unfold Magnitude.make?
  split
  · next hcanonical =>
      exact .finite (is_nearest_of_grid hk hfull hunits heven (hlimit.mp hcanonical.2.1))
  · next hcanonical =>
      exact .beyond (not_lt.mp fun h => hcanonical ⟨hlt, hlimit.mpr h, hle⟩)

variable {x : ℚ} {scale k : Nat}

/-- A nearest point below the full range is not beyond the limit unless its scale is too large. -/
theorem lt_limit_iff_of_lt (hk : IsNearestNat (x / 2 ^ scale) k)
    (hfull : scale = 0 ∨ 2 ^ 52 * 2 ^ scale ≤ x) (hlt : k < 2 ^ 53) :
    scale ≤ 2045 ↔ x / 2 ^ 1074 < limit := by
  rw [lt_limit_iff]
  have hpos : (0 : ℚ) < 2 ^ scale := by positivity
  have hroom : x < (2 ^ 53 - 1 / 2) * 2 ^ scale := by
    rw [← div_lt_iff₀ hpos]
    have hnear := (abs_le.mp hk.near).2
    have hle : (k : ℚ) ≤ 2 ^ 53 - 1 := by exact_mod_cast (by omega : (k : ℤ) ≤ 2 ^ 53 - 1)
    refine lt_of_le_of_ne (by linarith) fun heq => ?_
    -- The last mantissa is odd, so a number just in the middle is not rounded to it.
    have hlast : (k : ℚ) = 2 ^ 53 - 1 := by linarith
    have hodd := hk.even (by rw [heq, hlast]; norm_num)
    have : k = 2 ^ 53 - 1 := by
      have : (k : ℤ) = 2 ^ 53 - 1 := by exact_mod_cast hlast
      omega
    omega
  have hpositive : (0 : ℚ) < 2 ^ 2044 := by positivity
  constructor
  · intro h
    have hpow : (2 : ℚ) ^ scale ≤ 2 ^ 2045 := pow_le_pow_right₀ one_le_two h
    rw [pow_succ] at hpow
    generalize (2 : ℚ) ^ 2044 = p at *
    linarith
  · intro h
    by_contra hgt
    have hpow : (2 : ℚ) ^ 2046 ≤ 2 ^ scale := pow_le_pow_right₀ one_le_two (by omega)
    rw [pow_succ, pow_succ] at hpow
    have hle := hfull.resolve_left (by omega)
    generalize (2 : ℚ) ^ 2044 = p at *
    linarith

/-- A nearest point at the end of the full range is not beyond the limit unless the next scale is
too large. -/
theorem lt_limit_iff_of_full (hk : IsNearestNat (x / 2 ^ scale) (2 ^ 53))
    (hlt : x < 2 ^ 53 * 2 ^ scale) : scale + 1 ≤ 2045 ↔ x / 2 ^ 1074 < limit := by
  rw [lt_limit_iff]
  have hpositive : (0 : ℚ) < 2 ^ 2044 := by positivity
  constructor
  · intro h
    have hpow : (2 : ℚ) ^ scale ≤ 2 ^ 2044 := pow_le_pow_right₀ one_le_two (by omega)
    generalize (2 : ℚ) ^ 2044 = p at *
    linarith
  · intro h
    by_contra hgt
    have hpow : (2 : ℚ) ^ 2045 ≤ 2 ^ scale := pow_le_pow_right₀ one_le_two (by omega)
    rw [pow_succ] at hpow
    have hroom : (2 ^ 53 - 1 / 2) * 2 ^ scale ≤ x := by
      rw [← le_div_iff₀ (by positivity)]
      have hnear := (abs_le.mp hk.near).1
      push_cast at hnear
      linarith
    generalize (2 : ℚ) ^ 2044 = p at *
    linarith

/-- The nearest point of the grid that leaves 53 bits before the point is what a number is rounded
to; at the end of the grid it is a point of the next one. -/
theorem rounds_of_point (hk : IsNearestNat (x / 2 ^ scale) k) (hlt : x < 2 ^ 53 * 2 ^ scale)
    (hfull : scale = 0 ∨ 2 ^ 52 * 2 ^ scale ≤ x) :
    Rounds (x / 2 ^ 1074)
      (if k = 2 ^ 53 then Magnitude.make? (2 ^ 52) (scale + 1) else Magnitude.make? k scale) := by
  have hpos : (0 : ℚ) < 2 ^ scale := by positivity
  have hle : k ≤ 2 ^ 53 := by
    have hquotient : x / 2 ^ scale < 2 ^ 53 := (div_lt_iff₀ hpos).mpr hlt
    have hnear := (abs_le.mp hk.near).1
    have : (k : ℚ) < (2 ^ 53 + 1 : Nat) := by push_cast; linarith
    exact Nat.lt_succ_iff.mp (by exact_mod_cast this)
  have hge : 2 ^ 52 ≤ k ∨ scale = 0 := by
    refine (hfull.imp_right fun hfull => ?_).symm
    have hquotient : 2 ^ 52 ≤ x / 2 ^ scale := (le_div_iff₀ hpos).mpr hfull
    have hnear := (abs_le.mp hk.near).2
    have : ((2 ^ 52 : Nat) : ℚ) < (k + 1 : Nat) := by push_cast; linarith
    exact Nat.lt_succ_iff.mp (by exact_mod_cast this)
  split
  · next hlast =>
      subst hlast
      exact rounds_make hk hfull (by norm_num) (.inl le_rfl) (by ring) (fun _ => rfl)
        (lt_limit_iff_of_full hk hlt)
  · next hne =>
      have hsmall : k < 2 ^ 53 := lt_of_le_of_ne hle hne
      exact rounds_make hk hfull hsmall hge rfl id (lt_limit_iff_of_lt hk hfull hsmall)

/-- The ratio of two natural numbers in units of 2^-1074 is rounded to the magnitude that is found
for it. -/
theorem rounds_nearest (num den : Nat) (hden : 0 < den) :
    Rounds (num / den / 2 ^ 1074 : ℚ) (nearest? num den) := by
  have hpos : (0 : ℚ) < den := by exact_mod_cast hden
  generalize hscale : Nat.log2 (num / den) + 1 - 53 = scale
  have hlt : (num / den : ℚ) < 2 ^ 53 * 2 ^ scale := by
    have hbits : num / den < 2 ^ (53 + scale) :=
      Nat.lt_log2_self.trans_le (Nat.pow_le_pow_right (by norm_num) (by omega))
    rw [div_lt_iff₀ hpos, ← pow_add]
    exact_mod_cast (Nat.div_lt_iff_lt_mul hden).mp hbits
  have hfull : scale = 0 ∨ (2 ^ 52 * 2 ^ scale : ℚ) ≤ num / den := by
    refine or_iff_not_imp_left.mpr fun hne => ?_
    have hbits : 2 ^ (52 + scale) ≤ num / den := by
      rw [show 52 + scale = Nat.log2 (num / den) by omega]
      exact Nat.log2_self_le fun hzero => hne (by rw [← hscale, hzero]; rfl)
    rw [le_div_iff₀ hpos, ← pow_add]
    exact_mod_cast (Nat.le_div_iff_mul_le hden).mp hbits
  have hk := is_nearest_nat_of_mod num (den * 2 ^ scale) (Nat.mul_pos hden (Nat.two_pow_pos _))
  rw [Nat.cast_mul, Nat.cast_pow, Nat.cast_ofNat, ← div_div] at hk
  simp only [nearest?, hscale]
  exact rounds_of_point hk hlt hfull

end Rounding

end StaticLiteral
