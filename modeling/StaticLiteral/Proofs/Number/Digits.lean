import Mathlib
import StaticLiteral.Number.Numeral

/-!
# Digits and the numbers that they are

What lists of digits are worth, which digits natural numbers are written with, and how many.
-/

namespace StaticLiteral.Numeral

/-- The number that some digits are, the first one the most significant. -/
def number (radix : Nat) (digits : List Nat) : Nat := Nat.ofDigits radix digits.reverse

variable {radix : Nat} {digits more : List Nat} {d n : Nat}

/-- No digits are zero. -/
@[simp]
theorem number_nil : number radix [] = 0 := rfl

/-- Digits in front count as often as the radix to the number of those behind them. -/
theorem number_append :
    number radix (digits ++ more) =
      number radix digits * radix ^ more.length + number radix more := by
  rw [number, List.reverse_append, Nat.ofDigits_append, List.length_reverse, mul_comm, add_comm]
  rfl

/-- One digit is its own value. -/
@[simp]
theorem number_singleton : number radix [d] = d := Nat.ofDigits_singleton

/-- The first digit counts most. -/
theorem number_cons :
    number radix (d :: digits) = d * radix ^ digits.length + number radix digits := by
  rw [← List.singleton_append, number_append, number_singleton]

/-- Zeros alone are zero. -/
@[simp]
theorem number_replicate_zero : number radix (List.replicate n 0) = 0 := by
  simp [number, Nat.ofDigits_replicate_zero]

/-- Digits are less than the radix to their number. -/
theorem number_lt (hradix : 1 < radix) (h : ∀ d ∈ digits, d < radix) :
    number radix digits < radix ^ digits.length := by
  rw [number, ← List.length_reverse]
  exact Nat.ofDigits_lt_base_pow_length hradix (by simpa using h)

/-- Without a zero in front, digits are worth at least as much as their number tells. -/
theorem pow_le_number (h : d ≠ 0) : radix ^ digits.length ≤ number radix (d :: digits) := by
  rw [number_cons]
  exact Nat.le_add_right_of_le (Nat.le_mul_of_pos_left _ (Nat.pos_of_ne_zero h))

/-- Digits are read as the number that they are. -/
theorem value_eq_number (radix : Nat) (digits : List Nat) :
    value radix digits = number radix digits := by
  induction digits using List.reverseRecOn with
  | nil => rfl
  | append_singleton digits d ih =>
      rw [number_append, value, List.foldl_append, List.foldl_cons, List.foldl_nil, ← value, ih]
      simp

/-! ## Writing numbers -/

/-- A digit as it is written, in lower case. -/
def spelling (d : Nat) : CodePoint := (Nat.digitChar d).toNat

/-- Digits that are a number, without superfluous zeros in front. -/
structure IsWriting (digits : List Nat) (n : Nat) : Prop where
  ne_nil : digits ≠ []
  lt : ∀ d ∈ digits, d < 10
  number_eq : number 10 digits = n
  head_ne : n ≠ 0 → digits.head? ≠ some 0

/-- A natural number is written with the digits that it has. -/
theorem exists_writing (n : Nat) :
    ∃ digits, Text.ofNat n = digits.map spelling ∧ IsWriting digits n := by
  induction n using Nat.strong_induction_on with
  | h n ih =>
      by_cases hn : n < 10
      · refine ⟨[n], ?_, ⟨by simp, by simpa using hn, number_singleton, by simp⟩⟩
        rw [Text.ofNat, Nat.toDigits_of_lt_base hn]
        rfl
      · have hlt : n % 10 < 10 := Nat.mod_lt _ (by norm_num)
        obtain ⟨digits, htext, hdigits⟩ := ih (n / 10) (by omega)
        refine ⟨digits ++ [n % 10], ?_, ⟨by simp, ?_, ?_, fun _ => ?_⟩⟩
        · rw [Text.ofNat, Nat.toDigits_of_base_le (by norm_num) (by omega), List.map_append,
            List.map_append, ← htext]
          rfl
        · simpa [or_imp, forall_and] using ⟨hdigits.lt, hlt⟩
        · rw [number_append, hdigits.number_eq]
          simp
          omega
        · rw [List.head?_append_of_ne_nil _ hdigits.ne_nil]
          exact hdigits.head_ne (by omega)

end StaticLiteral.Numeral

namespace StaticLiteral.Rounding

open Numeral

/-- A number has at most so many digits if it is below that power of ten. -/
theorem digit_count_le_iff {n k : Nat} (hk : 0 < k) : digitCount n ≤ k ↔ n < 10 ^ k :=
  Nat.length_toDigits_le_iff (by norm_num) hk

/-- There is at least one digit. -/
theorem digit_count_pos (n : Nat) : 0 < digitCount n := Nat.length_toDigits_pos

/-- A number is less than ten to the number of its digits. -/
theorem lt_pow_digit_count (n : Nat) : n < 10 ^ digitCount n :=
  (digit_count_le_iff (digit_count_pos n)).mp le_rfl

/-- A number is no less than ten to the number of its digits but one. -/
theorem pow_digit_count_le {n : Nat} (h : n ≠ 0) : 10 ^ (digitCount n - 1) ≤ n := by
  by_contra hlt
  rcases Nat.eq_zero_or_pos (digitCount n - 1) with hzero | hpos
  · rw [hzero] at hlt
    omega
  · have := (digit_count_le_iff hpos).mpr (Nat.lt_of_not_le hlt)
    omega

end StaticLiteral.Rounding
