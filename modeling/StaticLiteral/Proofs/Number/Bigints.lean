import Mathlib
import StaticLiteral.Proofs.Number.Reading
import StaticLiteral.Value

/-!
# Bigint literals

Bigint literals are read as the integers that they are, in each radix and however long they are, but
for decimal ones with more than 4300 digits, which are refused (`value_of_written`). The same limit
holds for writing, so that whatever natural number is written is also read back
(`exact_and_read_back`).
-/

namespace StaticLiteral

open Numeral NumericLiteral

namespace NumericLiteral

variable {radix : Nat} {c : CodePoint} {d : Nat} {t : Text} {digits : List Nat}

/-- A digit is read as its value in either case. It is no separator, no sign and no white space. -/
theorem IsDigit.reads (h : IsDigit radix c d) (hradix : radix ≤ 16) :
    digit? c = some d ∧ Text.isWhiteSpace c = false ∧ c ≠ '_'.toNat ∧ c ≠ '-'.toNat ∧
      c ≠ '+'.toNat := by
  have hfigure : ∀ d : Nat, d < 10 → digit? ('0'.toNat + d) = some d ∧
      Text.isWhiteSpace ('0'.toNat + d) = false ∧ '0'.toNat + d ≠ '_'.toNat ∧
      '0'.toNat + d ≠ '-'.toNat ∧ '0'.toNat + d ≠ '+'.toNat := by decide
  have hlower : ∀ d : Nat, d < 6 → digit? ('a'.toNat + d) = some (10 + d) ∧
      Text.isWhiteSpace ('a'.toNat + d) = false ∧ 'a'.toNat + d ≠ '_'.toNat ∧
      'a'.toNat + d ≠ '-'.toNat ∧ 'a'.toNat + d ≠ '+'.toNat := by decide
  have hupper : ∀ d : Nat, d < 6 → digit? ('A'.toNat + d) = some (10 + d) ∧
      Text.isWhiteSpace ('A'.toNat + d) = false ∧ 'A'.toNat + d ≠ '_'.toNat ∧
      'A'.toNat + d ≠ '-'.toNat ∧ 'A'.toNat + d ≠ '+'.toNat := by decide
  cases h with
  | figure hlt hten => exact hfigure d hten
  | @lower d hlt => exact hlower d (by omega)
  | @upper d hlt => exact hupper d (by omega)

/-- A digit stays when separators are deleted. -/
theorem IsDigit.without_separators (h : IsDigit radix c d) (hradix : radix ≤ 16) :
    Text.withoutSeparators (c :: t) = c :: Text.withoutSeparators t := by
  rw [Text.withoutSeparators, List.filter_cons, if_pos (bne_iff_ne.mpr (h.reads hradix).2.2.1)]
  rfl

/-- Without its separators, a text of digits has one character for each digit. -/
theorem Digits.without_separators (h : Digits radix t digits) (hradix : radix ≤ 16) :
    List.Forall₂ (IsDigit radix) t.withoutSeparators digits := by
  induction h with
  | single h =>
      rw [h.without_separators hradix]
      exact .cons h .nil
  | next h _ ih =>
      rw [h.without_separators hradix]
      exact .cons h ih
  | separated h _ ih =>
      rw [h.without_separators hradix]
      exact .cons h ih

end NumericLiteral

namespace Numeral

variable {radix : Nat} {t : Text} {digits : List Nat}

/-- Digits in either case are read as their values. -/
theorem group_of_digits (hne : digits ≠ []) (h : List.Forall₂ (IsDigit radix) t digits)
    (hradix : radix ≤ 16) : group? radix t = some digits := by
  have hread : t.mapM (fun c => (digit? c).filter (· < radix)) = some digits := by
    clear hne
    induction h with
    | nil => rfl
    | cons hc _ ih =>
        rw [List.mapM_cons, (hc.reads hradix).1, ih, Option.filter_some,
          if_pos (decide_eq_true hc.lt)]
        rfl
  have hlength := h.length_eq
  rw [group?, hread, if_neg]
  intro hempty
  rw [List.isEmpty_iff.mp hempty] at hlength
  exact hne (List.eq_nil_of_length_eq_zero hlength.symm)

/-- A text of digits is the number that they are; only decimal ones may be too many. -/
theorem natural_of_digits (hne : digits ≠ []) (h : List.Forall₂ (IsDigit radix) t digits)
    (hradix : radix ≤ 16) :
    natural? radix t =
      if radix = 10 ∧ digitLimit < digits.length then none else some (number radix digits) := by
  have hseparator : '_'.toNat ∉ t := by
    clear hne
    induction h with
    | nil => exact List.not_mem_nil
    | cons hc _ ih => exact List.not_mem_cons_of_ne_of_not_mem (hc.reads hradix).2.2.1.symm ih
  rw [natural?, digits?, Text.split_eq_singleton hseparator]
  simp [group_of_digits hne h hradix, value_eq_number]

/-- Digits have no white space and no sign. -/
theorem signed_of_digits (h : List.Forall₂ (IsDigit radix) t digits) (hradix : radix ≤ 16) :
    (∀ c ∈ t, Text.isWhiteSpace c = false) ∧ ∀ c ∈ t.head?, c ≠ '-'.toNat ∧ c ≠ '+'.toNat := by
  have hreads : ∀ c ∈ t, Text.isWhiteSpace c = false ∧ c ≠ '-'.toNat ∧ c ≠ '+'.toNat := by
    intro c hc
    obtain ⟨i, hi, rfl⟩ := List.getElem_of_mem hc
    obtain ⟨-, hspace, -, hminus, hplus⟩ := (h.get hi (h.length_eq ▸ hi)).reads hradix
    exact ⟨hspace, hminus, hplus⟩
  exact ⟨fun c hc => (hreads c hc).1, fun c hc => (hreads c (List.mem_of_mem_head? hc)).2⟩

/-- A mark and digits of its radix are read in that radix. -/
theorem marked_integer_of_mark {c : CodePoint} (hmark : (c, radix) ∈ radixMarks)
    (hne : digits ≠ []) (h : List.Forall₂ (IsDigit radix) t digits) :
    markedInteger? ('0'.toNat :: c :: t) = some (number radix digits : Int) := by
  have hmarks : ∀ mark ∈ radixMarks, radixLetter? mark.1 = some mark.2 ∧
      Text.isWhiteSpace mark.1 = false ∧ mark.2 ≠ 10 := by decide
  obtain ⟨hletter, hspace, hten⟩ := hmarks _ hmark
  have hradix := radix_le_of_mem hmark
  have hread := natural_of_digits hne h hradix
  rw [if_neg fun hlong => hten hlong.1] at hread
  have hsigned : signed ('0'.toNat :: c :: t) = (false, '0'.toNat :: c :: t) := by
    refine signed_eq ?_ fun c hc => Option.some.inj hc ▸ by decide
    exact List.forall_mem_cons.mpr
      ⟨by decide, List.forall_mem_cons.mpr ⟨hspace, (signed_of_digits h hradix).1⟩⟩
  have hbody : radixMark? ('0'.toNat :: c :: t) = some (radix, t) := by
    have hhead : t.head? ≠ some '_'.toNat := by
      cases h with
      | nil => exact absurd rfl hne
      | cons hc _ => exact fun heq => (hc.reads hradix).2.2.1 (Option.some.inj heq)
    rw [radixMark?, if_pos (by decide), hletter, if_neg hhead]
    rfl
  rw [markedInteger?, hsigned]
  simp only [hbody, hread]
  rfl

/-- A digit is no mark of a radix that decimal digits could have behind a zero. -/
theorem radix_mark_of_decimal (h : List.Forall₂ (IsDigit 10) t digits) : radixMark? t = none := by
  have hletter : ∀ d : Nat, d < 10 → radixLetter? ('0'.toNat + d) = none := by decide
  cases h with
  | nil => rfl
  | cons _ hrest =>
      cases hrest with
      | nil => rfl
      | cons hc _ =>
          rw [radixMark?]
          cases hc with
          | figure _ hten => rw [hletter _ hten, Option.map_none, ite_self]
          | lower hlt => omega
          | upper hlt => omega

/-- The first character of decimal digits is read as the first of them. -/
theorem head_of_decimal (h : List.Forall₂ (IsDigit 10) t digits) :
    t.head?.bind Text.decimalDigit? = digits.head? := by
  have hfigure : ∀ d : Nat, d < 10 → Text.decimalDigit? ('0'.toNat + d) = some d := by decide
  cases h with
  | nil => rfl
  | cons hc _ =>
      cases hc with
      | figure _ hten => exact hfigure _ hten
      | lower hlt => omega
      | upper hlt => omega

/-- Decimal digits without a superfluous zero in front are read as the number that they are, if
they are not too many. -/
theorem marked_integer_of_decimal (hne : digits ≠ []) (hzero : digits.head? = some 0 → digits = [0])
    (h : List.Forall₂ (IsDigit 10) t digits) :
    markedInteger? t =
      if digitLimit < digits.length then none else some (number 10 digits : Int) := by
  obtain ⟨hspace, hsign⟩ := signed_of_digits h (by norm_num)
  have hread := natural_of_digits hne h (by norm_num)
  rw [markedInteger?, signed_eq hspace hsign]
  simp only [radix_mark_of_decimal h, hread, true_and]
  by_cases hlong : digitLimit < digits.length
  · rw [if_pos hlong, if_pos hlong]
    rfl
  · rw [if_neg hlong, if_neg hlong]
    -- Only a zero alone has a zero in front, and its number is the one that is let through.
    have hfront : ¬ (t.head?.bind Text.decimalDigit? = some 0 ∧ number 10 digits ≠ 0) := by
      rintro ⟨hhead, hne⟩
      obtain rfl := hzero (head_of_decimal h ▸ hhead)
      exact hne number_singleton
    simp_all [withSign]

end Numeral

namespace BigintLiteral

variable {radix : Nat} {t : Text} {digits : List Nat}

/-- The grammar of bigint literals, with the radix and the digits of each. -/
inductive Written : Text → Nat → List Nat → Prop where
  | decimal {t : Text} {digits : List Nat} (h : Digits 10 t digits)
      (hzero : digits.head? = some 0 → digits = [0]) : Written (t ++ ['n'.toNat]) 10 digits
  | marked {c : CodePoint} {t : Text} {radix : Nat} {digits : List Nat}
      (hmark : (c, radix) ∈ radixMarks) (h : Digits radix t digits) :
      Written ('0'.toNat :: c :: t ++ ['n'.toNat]) radix digits

/-- What is in front of the suffix is read without separators. -/
theorem value_of_suffix :
    value (t ++ ['n'.toNat]) =
      (markedInteger? t.withoutSeparators).elim (.error .malformed) .ok := by
  have htext : Text.withoutSeparators (t ++ ['n'.toNat]) =
      t.withoutSeparators ++ ['n'.toNat] := List.filter_append ..
  have hsuffix : Text.endsWith (t.withoutSeparators ++ ['n'.toNat]) (Text.ofString "n") :=
    List.isSuffixOf_iff_suffix.mpr (List.suffix_append _ _)
  unfold value
  rw [htext]
  simp only [hsuffix, if_true, List.dropLast_concat]
  cases markedInteger? t.withoutSeparators <;> rfl

/-- A bigint literal is read as its number, unless it is decimal and has too many digits. -/
theorem value_of_written (h : Written t radix digits) :
    value t = if radix = 10 ∧ digitLimit < digits.length then .error .malformed
      else .ok (number radix digits) := by
  cases h with
  | decimal h hzero =>
      rw [value_of_suffix, marked_integer_of_decimal h.ne_nil hzero
        (h.without_separators (by norm_num))]
      by_cases hlong : digitLimit < digits.length
      · rw [if_pos hlong, if_pos ⟨rfl, hlong⟩]
        rfl
      · rw [if_neg hlong, if_neg fun hlong' => hlong hlong'.2]
        rfl
  | @marked c t radix digits hmark h =>
      have hmarks : ∀ mark ∈ radixMarks, mark.1 ≠ '_'.toNat ∧ mark.2 ≠ 10 := by decide
      obtain ⟨hc, hten⟩ := hmarks _ hmark
      have htext : Text.withoutSeparators ('0'.toNat :: c :: t) =
          '0'.toNat :: c :: t.withoutSeparators := by
        rw [Text.withoutSeparators, List.filter_cons, if_pos (by decide), List.filter_cons,
          if_pos (bne_iff_ne.mpr hc)]
        rfl
      rw [value_of_suffix, htext, marked_integer_of_mark hmark h.ne_nil
        (h.without_separators (radix_le_of_mem hmark)), if_neg fun hlong => hten hlong.1]
      rfl

/-- What is written of a natural number is a literal of it with as many digits as it has. -/
theorem written_of_nat (n : Nat) : ∃ digits, Written (Text.ofNat n ++ ['n'.toNat]) 10 digits ∧
    number 10 digits = n ∧ digits.length = Rounding.digitCount n := by
  rcases Nat.eq_zero_or_pos n with rfl | hpos
  · exact ⟨[0], .decimal (.single (is_digit_spelling (by norm_num))) fun _ => rfl,
      number_singleton, rfl⟩
  obtain ⟨digits, htext, hdigits⟩ := exists_writing n
  have hwritten := digits_map_spelling hdigits.ne_nil hdigits.lt
  refine ⟨digits, ?_, hdigits.number_eq, ?_⟩
  · rw [htext]
    exact .decimal hwritten fun hzero => absurd hzero (hdigits.head_ne hpos.ne')
  · have hlength := congrArg List.length htext
    rw [List.length_map, Text.ofNat, List.length_map] at hlength
    exact hlength.symm

/-- Every bigint literal is read as the integer that it denotes, unless it is decimal with more than
4300 digits, which is an error. What is written of a natural number below ten to the power of 4300
is read back, with the suffix behind it, as that number. -/
theorem exact_and_read_back :
    (∀ {t : Text} {radix : Nat} {digits : List Nat}, Written t radix digits →
      value t = if radix = 10 ∧ 4300 < digits.length then .error .malformed
        else .ok (number radix digits)) ∧
    ∀ v : Int, 0 ≤ v → v < 10 ^ 4300 → ∃ t, Value.coerce? (.bigint v) = .ok (some t) ∧
      value (t ++ ['n'.toNat]) = .ok v := by
  refine ⟨fun h => value_of_written h, fun v hpos hlt => ?_⟩
  obtain ⟨n, rfl⟩ := Int.eq_ofNat_of_zero_le hpos
  have hshort : n < 10 ^ digitLimit := Int.ofNat_lt.mp (by rwa [Int.natCast_pow])
  have hcount := (Rounding.digit_count_le_iff (by decide)).mpr hshort
  obtain ⟨digits, hwritten, hnumber, hlength⟩ := written_of_nat n
  refine ⟨Text.ofNat n, ?_, ?_⟩
  · rw [Value.coerce?, Numeral.text?, Int.natAbs_natCast, if_pos hcount]
    rfl
  · rw [value_of_written hwritten, if_neg (by omega), hnumber]

/-- A letter in the other case, a separator, and a number that is written. -/
theorem exact_and_read_back_uppercase :
    Written (Text.ofString "0Xa_Fn") 16 [10, 15] ∧ value (Text.ofString "0Xa_Fn") = .ok 175 ∧
      ∃ t, Value.coerce? (.bigint 90) = .ok (some t) ∧ value (t ++ ['n'.toNat]) = .ok 90 := by
  have hlower : IsDigit 16 'a'.toNat 10 := .lower (d := 0) (by decide)
  have hupper : IsDigit 16 'F'.toNat 15 := .upper (d := 5) (by decide)
  have hwritten : Written (Text.ofString "0Xa_Fn") 16 [10, 15] :=
    .marked (c := 'X'.toNat) (by decide) (.separated hlower (.single hupper))
  have hsmall : (90 : Int) < 10 ^ 4300 :=
    lt_of_lt_of_le (by norm_num : (90 : Int) < 10 ^ 2)
      (pow_le_pow_right₀ (by norm_num) (by norm_num))
  exact ⟨hwritten, exact_and_read_back.1 hwritten, exact_and_read_back.2 90 (by decide) hsmall⟩

end BigintLiteral

end StaticLiteral
