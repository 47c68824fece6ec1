import Mathlib
import StaticLiteral.Number.Literal
import StaticLiteral.Proofs.Number.Digits

/-!
# The grammar of numeric literals

The texts that are numeric literals, each with the exact number that it denotes. A literal is a
decimal one, one in another radix that a letter marks, or an octal one in the old form; single
separators may stand between digits, but not in the old form and not behind a leading zero.
-/

namespace StaticLiteral.NumericLiteral

open Numeral

/-- A digit of a radix, and its value. Digits beyond nine are letters in either case. -/
inductive IsDigit (radix : Nat) : CodePoint → Nat → Prop where
  | figure {d : Nat} (hlt : d < radix) (hten : d < 10) : IsDigit radix ('0'.toNat + d) d
  | lower {d : Nat} (hlt : 10 + d < radix) : IsDigit radix ('a'.toNat + d) (10 + d)
  | upper {d : Nat} (hlt : 10 + d < radix) : IsDigit radix ('A'.toNat + d) (10 + d)

/-- One or more digits. One separator may stand between two of them. -/
inductive Digits (radix : Nat) : Text → List Nat → Prop where
  | single {c : CodePoint} {d : Nat} (h : IsDigit radix c d) : Digits radix [c] [d]
  | next {c : CodePoint} {d : Nat} {t : Text} {digits : List Nat} (h : IsDigit radix c d)
      (rest : Digits radix t digits) : Digits radix (c :: t) (d :: digits)
  | separated {c : CodePoint} {d : Nat} {t : Text} {digits : List Nat} (h : IsDigit radix c d)
      (rest : Digits radix t digits) : Digits radix (c :: '_'.toNat :: t) (d :: digits)

/-- The whole part of a decimal literal. A zero is in front only of digits that are not all octal,
and these are not separated. -/
inductive Whole : Text → List Nat → Prop where
  | zero : Whole ['0'.toNat] [0]
  | digits {t : Text} {digits : List Nat} (h : Digits 10 t digits) (hhead : digits.head? ≠ some 0) :
      Whole t digits
  | leadingZero {t : Text} {digits : List Nat} (h : List.Forall₂ (IsDigit 10) t digits)
      (hdecimal : ∃ d ∈ digits, 8 ≤ d) : Whole ('0'.toNat :: t) (0 :: digits)

/-- The digits behind the point, if there are any. -/
inductive Fraction : Text → List Nat → Prop where
  | none : Fraction [] []
  | digits {t : Text} {digits : List Nat} (h : Digits 10 t digits) : Fraction t digits

/-- A sign, and whether it is negative; it may be missing. -/
inductive Sign : Text → Bool → Prop where
  | none : Sign [] false
  | plus : Sign ['+'.toNat] false
  | minus : Sign ['-'.toNat] true

/-- The exponent part of a decimal literal, which may be missing. -/
inductive Exponent : Text → Int → Prop where
  | none : Exponent [] 0
  | power {mark : CodePoint} {s t : Text} {negative : Bool} {digits : List Nat}
      (hmark : mark = 'e'.toNat ∨ mark = 'E'.toNat) (sign : Sign s negative)
      (h : Digits 10 t digits) :
      Exponent (mark :: (s ++ t)) (if negative then -number 10 digits else number 10 digits)

/-- A decimal literal, and the number that it denotes. -/
inductive DecimalLiteral : Text → ℚ → Prop where
  | integer {t x : Text} {digits : List Nat} {e : Int} (whole : Whole t digits)
      (exponent : Exponent x e) : DecimalLiteral (t ++ x) (number 10 digits * 10 ^ e)
  | pointed {t u x : Text} {digits fraction : List Nat} {e : Int} (whole : Whole t digits)
      (part : Fraction u fraction) (exponent : Exponent x e) :
      DecimalLiteral (t ++ '.'.toNat :: (u ++ x))
        ((number 10 digits + number 10 fraction / 10 ^ fraction.length) * 10 ^ e)
  | fraction {u x : Text} {fraction : List Nat} {e : Int} (part : Digits 10 u fraction)
      (exponent : Exponent x e) :
      DecimalLiteral ('.'.toNat :: (u ++ x)) (number 10 fraction / 10 ^ fraction.length * 10 ^ e)

/-- The letters behind a leading zero that mark a radix. -/
def radixMarks : List (CodePoint × Nat) :=
  [('x'.toNat, 16), ('X'.toNat, 16), ('o'.toNat, 8), ('O'.toNat, 8), ('b'.toNat, 2), ('B'.toNat, 2)]

/-- A numeric literal, and the number that it denotes. -/
inductive Denotes : Text → ℚ → Prop where
  | decimal {t : Text} {q : ℚ} (h : DecimalLiteral t q) : Denotes t q
  | marked {c : CodePoint} {t : Text} {radix : Nat} {digits : List Nat}
      (hmark : (c, radix) ∈ radixMarks) (h : Digits radix t digits) :
      Denotes ('0'.toNat :: c :: t) (number radix digits)
  | octal {t : Text} {digits : List Nat} (hne : t ≠ []) (h : List.Forall₂ (IsDigit 8) t digits) :
      Denotes ('0'.toNat :: t) (number 8 digits)

/-- The characters of numeric literals. -/
def alphabet : Text := Text.ofString "0123456789abcdefABCDEFoOxX._+-"

variable {radix : Nat} {c : CodePoint} {d : Nat} {t u x : Text} {digits : List Nat} {e : Int}
  {q : ℚ}

/-! ## Folded texts -/

/-- What is left of a text that is read: no separators, and small letters only. -/
def folded (t : Text) : Text := t.withoutSeparators.lowerAscii

/-- Nothing is folded to nothing. -/
@[simp]
theorem folded_nil : folded [] = [] := rfl

/-- Texts are folded one after the other. -/
theorem folded_append : folded (t ++ u) = folded t ++ folded u := by
  simp [folded, Text.withoutSeparators, Text.lowerAscii]

/-- Characters are folded one after the other. -/
theorem folded_cons : folded (c :: t) = folded [c] ++ folded t := folded_append (t := [c])

/-- A separator in front is folded away. -/
@[simp]
theorem folded_separator : folded ('_'.toNat :: t) = folded t := folded_cons

/-! ## Digits -/

/-- A digit is a character of literals, and is folded to its spelling. -/
theorem IsDigit.folded (h : IsDigit radix c d) (hradix : radix ≤ 16) :
    c ∈ alphabet ∧ folded [c] = [spelling d] := by
  have hfigure : ∀ d : Nat, d < 10 → '0'.toNat + d ∈ alphabet ∧
      NumericLiteral.folded ['0'.toNat + d] = [spelling d] := by decide
  have hlower : ∀ d : Nat, d < 6 → 'a'.toNat + d ∈ alphabet ∧
      NumericLiteral.folded ['a'.toNat + d] = [spelling (10 + d)] := by decide
  have hupper : ∀ d : Nat, d < 6 → 'A'.toNat + d ∈ alphabet ∧
      NumericLiteral.folded ['A'.toNat + d] = [spelling (10 + d)] := by decide
  cases h with
  | figure hlt hten => exact hfigure _ hten
  | @lower d hlt => exact hlower d (by omega)
  | @upper d hlt => exact hupper d (by omega)

/-- A digit is less than its radix. -/
theorem IsDigit.lt (h : IsDigit radix c d) : d < radix := by
  cases h <;> assumption

/-- Digits are characters of literals. Their separators are dropped, and letters become small. -/
theorem Digits.folded (h : Digits radix t digits) (hradix : radix ≤ 16) :
    (∀ c ∈ t, c ∈ alphabet) ∧ folded t = digits.map spelling := by
  have hseparator : '_'.toNat ∈ alphabet := by decide
  induction h with
  | single h => simpa using h.folded hradix
  | next h _ ih =>
      obtain ⟨hmem, hfolded⟩ := h.folded hradix
      rw [folded_cons, hfolded, ih.2]
      exact ⟨by simpa using ⟨hmem, ih.1⟩, rfl⟩
  | separated h _ ih =>
      obtain ⟨hmem, hfolded⟩ := h.folded hradix
      rw [folded_cons, folded_separator, hfolded, ih.2]
      exact ⟨by simpa using ⟨hmem, hseparator, ih.1⟩, rfl⟩

/-- There is at least one digit. -/
theorem Digits.ne_nil (h : Digits radix t digits) : digits ≠ [] := by
  cases h <;> exact List.cons_ne_nil _ _

/-- Digits are less than their radix. -/
theorem Digits.lt (h : Digits radix t digits) : ∀ d ∈ digits, d < radix := by
  induction h with
  | single h => simpa using h.lt
  | next h _ ih => simpa using ⟨h.lt, ih⟩
  | separated h _ ih => simpa using ⟨h.lt, ih⟩

/-- Digits need no separators. -/
theorem digits_of_forall₂ (hne : t ≠ []) (h : List.Forall₂ (IsDigit radix) t digits) :
    Digits radix t digits := by
  induction h with
  | nil => exact absurd rfl hne
  | @cons c d t digits hc hrest ih =>
      cases t with
      | nil => rw [List.forall₂_nil_left_iff.mp hrest]; exact .single hc
      | cons c' t => exact .next hc (ih (List.cons_ne_nil _ _))

/-- A digit below ten is its own small letter. -/
theorem is_digit_spelling (h : d < 10) : IsDigit 10 (spelling d) d := by
  have hspelling : ∀ d < 10, spelling d = '0'.toNat + d := by decide
  rw [hspelling d h]
  exact .figure h h

/-- The spellings of decimal digits are digits. -/
theorem digits_map_spelling (hne : digits ≠ []) (h : ∀ d ∈ digits, d < 10) :
    Digits 10 (digits.map spelling) digits := by
  refine digits_of_forall₂ (by simpa using hne) ?_
  rw [List.forall₂_map_left_iff, List.forall₂_same]
  exact fun d hd => is_digit_spelling (h d hd)

/-- A whole part is digits, whatever its form. -/
theorem Whole.is_digits (h : Whole t digits) : Digits 10 t digits := by
  have hzero : IsDigit 10 '0'.toNat 0 := is_digit_spelling (by norm_num : 0 < 10)
  cases h with
  | zero => exact .single hzero
  | digits h _ => exact h
  | leadingZero h hdecimal =>
      refine .next hzero (digits_of_forall₂ ?_ h)
      rintro rfl
      rw [List.forall₂_nil_left_iff.mp h] at hdecimal
      simp at hdecimal

/-- A fraction is written in the alphabet of literals, and folds to the figures of its digits. -/
theorem Fraction.folded (h : Fraction t digits) :
    (∀ c ∈ t, c ∈ alphabet) ∧ folded t = digits.map spelling := by
  cases h with
  | none => simp
  | digits h => exact h.folded (by norm_num)

/-- The digits of a fraction are figures. -/
theorem Fraction.lt (h : Fraction t digits) : ∀ d ∈ digits, d < 10 := by
  cases h with
  | none => simp
  | digits h => exact h.lt

/-! ## Characters -/

/-- A sign is in the alphabet of literals, and is folded to itself. -/
theorem Sign.folded {negative : Bool} (h : Sign t negative) :
    (∀ c ∈ t, c ∈ alphabet) ∧ folded t = t := by
  cases h <;> decide

/-- An exponent is written in the alphabet of literals. -/
theorem Exponent.mem_alphabet (h : Exponent x e) : ∀ c ∈ x, c ∈ alphabet := by
  cases h with
  | none => simp
  | power hmark sign h =>
      have hmem : ∀ c, c = 'e'.toNat ∨ c = 'E'.toNat → c ∈ alphabet := by
        rintro c (rfl | rfl) <;> decide
      simpa [or_imp, forall_and] using ⟨hmem _ hmark, sign.folded.1, (h.folded (by norm_num)).1⟩

/-- A decimal literal is written in the alphabet of literals. -/
theorem DecimalLiteral.mem_alphabet (h : DecimalLiteral t q) : ∀ c ∈ t, c ∈ alphabet := by
  have hpoint : '.'.toNat ∈ alphabet := by decide
  cases h with
  | integer whole exponent =>
      simpa [or_imp, forall_and] using
        ⟨(whole.is_digits.folded (by norm_num)).1, exponent.mem_alphabet⟩
  | pointed whole part exponent =>
      simpa [or_imp, forall_and] using
        ⟨(whole.is_digits.folded (by norm_num)).1, hpoint, part.folded.1, exponent.mem_alphabet⟩
  | fraction part exponent =>
      simpa [or_imp, forall_and] using
        ⟨hpoint, (part.folded (by norm_num)).1, exponent.mem_alphabet⟩

/-- No mark is of a radix above sixteen. -/
theorem radix_le_of_mem (h : (c, radix) ∈ radixMarks) : radix ≤ 16 := by
  have : ∀ mark ∈ radixMarks, mark.2 ≤ 16 := by decide
  exact this _ h

/-- Literals have characters of the alphabet only. -/
theorem Denotes.mem_alphabet (h : Denotes t q) : ∀ c ∈ t, c ∈ alphabet := by
  have hzero : '0'.toNat ∈ alphabet := by decide
  have hmarks : ∀ mark ∈ radixMarks, mark.1 ∈ alphabet := by decide
  cases h with
  | decimal h => exact h.mem_alphabet
  | marked hmark h =>
      simpa [or_imp, forall_and] using
        ⟨hzero, hmarks _ hmark, (h.folded (radix_le_of_mem hmark)).1⟩
  | octal hne h =>
      simpa [or_imp, forall_and] using
        ⟨hzero, ((digits_of_forall₂ hne h).folded (by norm_num)).1⟩

/-- The characters of folded literals. -/
def smallAlphabet : Text := Text.ofString "0123456789abcdefox.+-"

/-- Folding leads from the one alphabet to the other. -/
theorem folded_mem (h : ∀ c ∈ t, c ∈ alphabet) : ∀ c ∈ folded t, c ∈ smallAlphabet := by
  have hfolded : ∀ c ∈ alphabet, ∀ c' ∈ folded [c], c' ∈ smallAlphabet := by decide
  induction t with
  | nil => simp
  | cons c t ih =>
      rw [folded_cons]
      rw [List.forall_mem_cons] at h
      simpa [or_imp, forall_and] using ⟨hfolded c h.1, ih h.2⟩

end StaticLiteral.NumericLiteral
