import Mathlib
import StaticLiteral.Proofs.Number.Grammar

/-!
# What literals keep to

The reader of numeric literals takes more than literals: signs, white space, words, digits of other
scripts, a second mark, separators anywhere. `IsProper` lists what a text must keep to beyond what
is checked, and literals do (`Denotes.is_proper`).
-/

namespace StaticLiteral.NumericLiteral

open Numeral

/-- The character is a digit of the radix. -/
def IsDigitOf (radix : Nat) (c : CodePoint) : Prop := ∃ d, IsDigit radix c d

/-- The radix of the digits of a text, going by the mark behind a zero in front. -/
def digitRadix : Text → Nat
  | front :: c :: _ => if front = '0'.toNat then (radixMarks.lookup c).getD 10 else 10
  | _ => 10

/-- Every special character is directly between two characters of certain kinds. -/
def Between (special left right : CodePoint → Prop) (t : Text) : Prop :=
  ∀ before c after, t = before ++ c :: after → special c →
    (∃ a ∈ before.getLast?, left a) ∧ ∃ b ∈ after.head?, right b

/-- Every separator is directly between two digits. -/
def Separated (radix : Nat) (t : Text) : Prop :=
  Between (· = '_'.toNat) (IsDigitOf radix) (IsDigitOf radix) t

/-- Every sign is directly between the mark of an exponent and a digit. -/
def SignsPlaced (t : Text) : Prop :=
  Between (fun c => c = '+'.toNat ∨ c = '-'.toNat) (fun c => c = 'e'.toNat ∨ c = 'E'.toNat)
    (IsDigitOf 10) t

/-- A point or the mark of an exponent. -/
def EndsWhole (c : CodePoint) : Prop := c = '.'.toNat ∨ c = 'e'.toNat ∨ c = 'E'.toNat

/-- What a text must keep to beyond what is checked: the characters of literals, places for signs
and separators, no separator among the digits behind a zero in front, no point and no exponent
behind octal ones, and no second mark of the same radix. -/
structure IsProper (t : Text) : Prop where
  characters : ∀ c ∈ t, c ∈ alphabet
  signs : SignsPlaced t
  separators : Separated (digitRadix t) t
  unseparated (figures rest : Text) (h : ∀ c ∈ figures, IsDigitOf 10 c) :
    t ≠ '0'.toNat :: (figures ++ '_'.toNat :: rest)
  octal {figures rest : Text} (hne : figures ≠ []) (h : ∀ c ∈ figures, IsDigitOf 8 c)
    (ht : t = '0'.toNat :: (figures ++ rest)) : ∀ c ∈ rest.head?, ¬ EndsWhole c
  mark {c c' : CodePoint} {radix : Nat} {rest : Text} (hc : (c, radix) ∈ radixMarks)
    (hc' : (c', radix) ∈ radixMarks) : t ≠ '0'.toNat :: c :: '0'.toNat :: c' :: rest

variable {radix : Nat} {c : CodePoint} {d : Nat} {t u x p s : Text} {digits fraction : List Nat}
  {e : Int} {q : ℚ} {special left right : CodePoint → Prop}

/-! ## Places of separators and signs -/

/-- Two parts that are in order by themselves are in order one after the other. -/
theorem between_append (h : Between special left right t) (h' : Between special left right u) :
    Between special left right (t ++ u) := by
  intro before c after heq hspecial
  rcases List.append_eq_append_iff.mp heq with ⟨more, rfl, hu⟩ | ⟨more, ht, hafter⟩
  · obtain ⟨⟨a, ha, hleft⟩, hright⟩ := h' more c after hu hspecial
    exact ⟨⟨a, by rw [List.getLast?_append, ha]; rfl, hleft⟩, hright⟩
  · cases more with
    | nil =>
        obtain ⟨⟨a, ha, -⟩, -⟩ := h' [] c after hafter.symm hspecial
        cases ha
    | cons c' more =>
        obtain ⟨rfl, htail⟩ := List.cons.inj hafter
        obtain ⟨hleft, ⟨b, hb, hright⟩⟩ := h before c more ht hspecial
        exact ⟨hleft, ⟨b, by rw [htail, List.append_eq, List.head?_append, hb]; rfl, hright⟩⟩

/-- A part without special characters is in order. -/
theorem between_of_forall (h : ∀ c ∈ t, ¬ special c) : Between special left right t := by
  rintro before c after rfl hspecial
  exact absurd hspecial (h c (by simp))

/-- A character in front that is not special changes nothing. -/
theorem between_cons (hc : ¬ special c) (h : Between special left right t) :
    Between special left right (c :: t) :=
  between_append (between_of_forall (by simpa using hc) : Between special left right [c]) h

/-- A special character between two of the right kinds. -/
theorem between_around {a : CodePoint} (ha : ¬ special a) (hleft : left a)
    (hright : ∃ b ∈ t.head?, right b) (h : Between special left right t) :
    Between special left right (a :: c :: t) := by
  intro before c' after heq hspecial
  match before with
  | [] => exact absurd ((List.cons.inj heq).1 ▸ hspecial) ha
  | [_] =>
      simp only [List.cons_append, List.nil_append, List.cons.injEq] at heq
      obtain ⟨rfl, -, rfl⟩ := heq
      exact ⟨⟨_, rfl, hleft⟩, hright⟩
  | _ :: _ :: before =>
      simp only [List.cons_append, List.cons.injEq] at heq
      obtain ⟨⟨a', ha', hleft'⟩, hright'⟩ := h before c' after heq.2.2 hspecial
      exact ⟨⟨a', by rw [List.getLast?_cons_cons, List.getLast?_cons, ha']; rfl, hleft'⟩, hright'⟩

/-! ## Literals are proper -/

/-- The digits of all radices. -/
def allDigits : Text := Text.ofString "0123456789abcdefABCDEF"

/-- A digit of a radix up to sixteen is among the digits of all radices. -/
theorem IsDigit.mem_all_digits (h : IsDigit radix c d) (hradix : radix ≤ 16) : c ∈ allDigits := by
  have hfigure : ∀ d : Nat, d < 10 → '0'.toNat + d ∈ allDigits := by decide
  have hlower : ∀ d : Nat, d < 6 → 'a'.toNat + d ∈ allDigits := by decide
  have hupper : ∀ d : Nat, d < 6 → 'A'.toNat + d ∈ allDigits := by decide
  cases h with
  | figure hlt hten => exact hfigure _ hten
  | @lower d hlt => exact hlower d (by omega)
  | @upper d hlt => exact hupper d (by omega)

/-- Up to ten, digits are figures. -/
theorem is_digit_iff (hradix : radix ≤ 10) : IsDigit radix c d ↔ d < radix ∧ c = '0'.toNat + d := by
  constructor
  · intro h
    cases h with
    | figure hlt hten => exact ⟨hlt, rfl⟩
    | lower hlt => omega
    | upper hlt => omega
  · rintro ⟨hlt, rfl⟩
    exact .figure hlt (by omega)

/-- An octal digit is a decimal one. -/
theorem is_digit_of_ten (h : IsDigitOf 8 c) : IsDigitOf 10 c := by
  obtain ⟨d, hd⟩ := h
  obtain ⟨hlt, rfl⟩ := (is_digit_iff (by norm_num)).mp hd
  exact ⟨d, .figure (by omega) (by omega)⟩

/-- Digits begin with a digit, not with a separator. -/
theorem Digits.head (h : Digits radix t digits) : ∃ c ∈ t.head?, IsDigitOf radix c := by
  cases h <;> exact ⟨_, rfl, _, by assumption⟩

/-- Digits have their separators in place. -/
theorem Digits.is_separated (h : Digits radix t digits) (hradix : radix ≤ 16) :
    Separated radix t := by
  have hseparator : ∀ c ∈ allDigits, c ≠ '_'.toNat := by decide
  induction h with
  | @single c d h =>
      have hc := hseparator c (h.mem_all_digits hradix)
      exact between_cons hc (between_of_forall (by simp))
  | @next c d t digits h rest ih => exact between_cons (hseparator c (h.mem_all_digits hradix)) ih
  | @separated c d t digits h rest ih =>
      exact between_around (hseparator c (h.mem_all_digits hradix)) ⟨_, h⟩ rest.head ih

/-- Digits consist of separators and the digits of all radices. -/
theorem Digits.mem_cons (h : Digits radix t digits) (hradix : radix ≤ 16) :
    ∀ c ∈ t, c ∈ '_'.toNat :: allDigits := by
  induction h with
  | single h => simpa using .inr (h.mem_all_digits hradix)
  | next h _ ih => simpa using ⟨.inr (h.mem_all_digits hradix), by simpa using ih⟩
  | separated h _ ih => simpa using ⟨.inr (h.mem_all_digits hradix), by simpa using ih⟩

/-- There is no sign among digits. -/
theorem Digits.not_sign (h : Digits radix t digits) (hradix : radix ≤ 16) :
    ∀ c ∈ t, ¬ (c = '+'.toNat ∨ c = '-'.toNat) := by
  have hsign : ∀ c ∈ '_'.toNat :: allDigits, ¬ (c = '+'.toNat ∨ c = '-'.toNat) := by decide
  exact fun c hc => hsign c (h.mem_cons hradix c hc)

/-- The separators of a fraction are between its digits. -/
theorem Fraction.is_separated (h : Fraction t digits) : Separated 10 t := by
  cases h with
  | none => exact between_of_forall (by simp)
  | digits h => exact h.is_separated (by norm_num)

/-- There is no sign in a fraction. -/
theorem Fraction.not_sign (h : Fraction t digits) :
    ∀ c ∈ t, ¬ (c = '+'.toNat ∨ c = '-'.toNat) := by
  cases h with
  | none => simp
  | digits h => exact h.not_sign (by norm_num)

/-- The separators of an exponent are between its digits. -/
theorem Exponent.is_separated (h : Exponent x e) : Separated 10 x := by
  cases h with
  | none => exact between_of_forall (by simp)
  | power hmark sign h =>
      refine between_cons (by rcases hmark with rfl | rfl <;> decide)
        (between_append (between_of_forall ?_) (h.is_separated (by norm_num)))
      cases sign <;> decide

/-- The sign of an exponent is between its mark and its digits. -/
theorem Exponent.signs_placed (h : Exponent x e) : SignsPlaced x := by
  cases h with
  | none => exact between_of_forall (by simp)
  | @power mark s t negative digits hmark sign h =>
      have hnone := h.not_sign (by norm_num)
      have hnot : ¬ (mark = '+'.toNat ∨ mark = '-'.toNat) := by
        rcases hmark with rfl | rfl <;> decide
      have hplaced : ∀ c : CodePoint, SignsPlaced (mark :: c :: t) := fun c =>
        between_around hnot hmark h.head (between_of_forall hnone)
      cases sign with
      | none => exact between_cons hnot (between_of_forall hnone)
      | plus => exact hplaced _
      | minus => exact hplaced _

/-- The separators of a decimal literal are between digits. -/
theorem DecimalLiteral.is_separated (h : DecimalLiteral t q) : Separated 10 t := by
  cases h with
  | integer whole exponent =>
      exact between_append (whole.is_digits.is_separated (by norm_num)) exponent.is_separated
  | pointed whole part exponent =>
      exact between_append (whole.is_digits.is_separated (by norm_num))
        (between_cons (by decide) (between_append part.is_separated exponent.is_separated))
  | fraction part exponent =>
      exact between_cons (by decide)
        (between_append (part.is_separated (by norm_num)) exponent.is_separated)

/-- The sign of a decimal literal is in its exponent. -/
theorem DecimalLiteral.signs_placed (h : DecimalLiteral t q) : SignsPlaced t := by
  cases h with
  | integer whole exponent =>
      exact between_append (between_of_forall (whole.is_digits.not_sign (by norm_num)))
        exponent.signs_placed
  | pointed whole part exponent =>
      exact between_append (between_of_forall (whole.is_digits.not_sign (by norm_num)))
        (between_cons (by decide) (between_append (between_of_forall part.not_sign)
          exponent.signs_placed))
  | fraction part exponent =>
      exact between_cons (by decide) (between_append
        (between_of_forall (part.not_sign (by norm_num))) exponent.signs_placed)

/-! ## Behind a zero in front -/

/-- What follows a zero in front of a literal without a mark: figures, of which one is not octal if
anything else follows. -/
structure FollowsZero (figures rest : Text) : Prop where
  figure : ∀ c ∈ figures, IsDigitOf 10 c
  decimal (hfigures : figures ≠ []) (hrest : rest ≠ []) : ∃ c ∈ figures, ¬ IsDigitOf 8 c
  ends : ∀ c ∈ rest.head?, EndsWhole c

/-- A point ends the whole part. -/
theorem point_ends : ∀ c ∈ ('.'.toNat :: t).head?, EndsWhole c :=
  fun _ hc => .inl (Option.some.inj hc).symm

/-- An exponent ends the whole part with its mark, if it is there. -/
theorem exponent_ends (h : Exponent x e) : ∀ c ∈ x.head?, EndsWhole c := by
  cases h with
  | none => simp
  | power hmark _ _ => exact fun c hc => .inr (Option.some.inj hc ▸ hmark)

/-- Figures alone follow a zero in any way. -/
theorem follows_zero_of_figures (h : ∀ c ∈ t, IsDigitOf 10 c) : FollowsZero t [] :=
  ⟨h, fun _ hrest => absurd rfl hrest, by simp⟩

/-- Characters with values are digits. -/
theorem forall_of_forall₂ (h : List.Forall₂ (IsDigit radix) t digits) :
    ∀ c ∈ t, IsDigitOf radix c := by
  induction h with
  | nil => simp
  | cons hc _ ih => simpa using ⟨⟨_, hc⟩, ih⟩

/-- A digit from eight on is not octal. -/
theorem exists_decimal (h : List.Forall₂ (IsDigit 10) t digits) (hdecimal : ∃ d ∈ digits, 8 ≤ d) :
    ∃ c ∈ t, ¬ IsDigitOf 8 c := by
  induction h with
  | nil => simp at hdecimal
  | @cons c d t digits hc _ ih =>
      rw [List.exists_mem_cons_iff] at hdecimal ⊢
      refine hdecimal.imp (fun hle => ?_) ih
      rintro ⟨d', hd'⟩
      obtain ⟨-, rfl⟩ := (is_digit_iff le_rfl).mp hc
      obtain ⟨hlt, heq⟩ := (is_digit_iff (by norm_num)).mp hd'
      have := Nat.add_left_cancel heq
      omega

/-- Behind the zero in front of a whole part are figures; unless they end the literal, one of them
is not octal. -/
theorem Whole.follows_zero (h : Whole u digits) (hends : ∀ c ∈ s.head?, EndsWhole c)
    (heq : '0'.toNat :: t = u ++ s) : ∃ figures, t = figures ++ s ∧ FollowsZero figures s := by
  cases h with
  | zero => exact ⟨[], (List.cons.inj heq).2, by simp, by simp, hends⟩
  | digits h hhead =>
      have hzero : ∀ c d, IsDigit 10 c d → '0'.toNat = c → d = 0 := by
        intro c d hd hc
        obtain ⟨-, rfl⟩ := (is_digit_iff le_rfl).mp hd
        simpa using hc
      cases h with
      | single h => exact absurd (congrArg some (hzero _ _ h (List.cons.inj heq).1)) hhead
      | next h _ => exact absurd (congrArg some (hzero _ _ h (List.cons.inj heq).1)) hhead
      | separated h _ => exact absurd (congrArg some (hzero _ _ h (List.cons.inj heq).1)) hhead
  | @leadingZero u digits h hdecimal =>
      exact ⟨u, (List.cons.inj heq).2, forall_of_forall₂ h, fun _ _ => exists_decimal h hdecimal,
        hends⟩

/-- Behind the zero in front of a decimal literal are figures and what ends the whole part. -/
theorem DecimalLiteral.after_zero (h : DecimalLiteral ('0'.toNat :: t) q) :
    ∃ figures rest, t = figures ++ rest ∧ FollowsZero figures rest := by
  generalize ht : '0'.toNat :: t = u at h
  cases h with
  | integer whole exponent =>
      obtain ⟨figures, heq, hfollows⟩ := whole.follows_zero (exponent_ends exponent) ht
      exact ⟨figures, _, heq, hfollows⟩
  | pointed whole part exponent =>
      obtain ⟨figures, heq, hfollows⟩ := whole.follows_zero point_ends ht
      exact ⟨figures, _, heq, hfollows⟩
  | fraction part exponent => cases (List.cons.inj ht).1

/-- Behind a zero in front of a literal there is a mark and digits, or figures that are not all
octal if something follows them. -/
theorem Denotes.after_zero (h : Denotes ('0'.toNat :: t) q) :
    (∃ c radix rest, (c, radix) ∈ radixMarks ∧ t = c :: rest ∧ ∃ digits, Digits radix rest digits) ∨
      ∃ figures rest, t = figures ++ rest ∧ FollowsZero figures rest := by
  generalize ht : '0'.toNat :: t = u at h
  cases h with
  | decimal h => exact .inr (DecimalLiteral.after_zero (ht ▸ h))
  | marked hmark h =>
      obtain ⟨-, rfl⟩ := List.cons.inj ht
      exact .inl ⟨_, _, _, hmark, rfl, _, h⟩
  | octal hne h =>
      obtain ⟨-, rfl⟩ := List.cons.inj ht
      exact .inr ⟨t, [], by simp, follows_zero_of_figures fun c hc =>
        is_digit_of_ten (forall_of_forall₂ h c hc)⟩

/-- Two ways to end the figures at the front of a text are the same. -/
theorem append_unique {a b r : Text} (ha : ∀ c ∈ a, IsDigitOf radix c)
    (hb : ∀ c ∈ b, IsDigitOf radix c) (hr : ∀ c ∈ r.head?, ¬ IsDigitOf radix c)
    (hs : ∀ c ∈ s.head?, ¬ IsDigitOf radix c) (h : a ++ r = b ++ s) : a = b ∧ r = s := by
  induction a generalizing b with
  | nil =>
      cases b with
      | nil => exact ⟨rfl, h⟩
      | cons c b => exact absurd (hb c (by simp)) (hr c (by rw [← List.nil_append r, h]; rfl))
  | cons c a ih =>
      cases b with
      | nil => exact absurd (ha c (by simp)) (hs c (by rw [← List.nil_append s, ← h]; rfl))
      | cons c' b =>
          rw [List.forall_mem_cons] at ha hb
          obtain ⟨rfl, htail⟩ := List.cons.inj h
          exact (ih ha.2 hb.2 htail).imp_left (congrArg _)

/-- A character that is none of the ten figures is no decimal digit. -/
theorem not_figure (h : ∀ d : Nat, d < 10 → c ≠ '0'.toNat + d) : ¬ IsDigitOf 10 c := by
  rintro ⟨d, hd⟩
  obtain ⟨hlt, heq⟩ := (is_digit_iff le_rfl).mp hd
  exact h d hlt heq

/-- A separator is no decimal digit. -/
theorem not_digit_separator : ¬ IsDigitOf 10 '_'.toNat := not_figure (by decide)

/-- A text that begins with a separator does not begin with a digit. -/
theorem separator_not_digit : ∀ c ∈ ('_'.toNat :: t).head?, ¬ IsDigitOf 10 c := fun _ hc =>
  Option.some.inj hc ▸ not_digit_separator

/-- What ends the whole part is no digit. -/
theorem not_figure_of_ends (h : EndsWhole c) : ¬ IsDigitOf 10 c :=
  not_figure (by rcases h with rfl | rfl | rfl <;> decide)

/-- The mark of a radix is neither a digit nor the end of a whole part. -/
theorem not_figure_of_mark (h : (c, radix) ∈ radixMarks) : ¬ IsDigitOf 10 c ∧ ¬ EndsWhole c := by
  have hmarks : ∀ mark ∈ radixMarks, (∀ d : Nat, d < 10 → mark.1 ≠ '0'.toNat + d) ∧
      ¬ (mark.1 = '.'.toNat ∨ mark.1 = 'e'.toNat ∨ mark.1 = 'E'.toNat) := by decide
  exact ⟨not_figure (hmarks _ h).1, (hmarks _ h).2⟩

/-- No mark is a digit of its own radix. -/
theorem not_digit_of_mark (h : (c, radix) ∈ radixMarks) : ¬ IsDigitOf radix c := by
  have hmarks : ∀ mark ∈ radixMarks, mark.2 ≤ 10 ∨ mark.1 ∉ allDigits := by decide
  rintro ⟨d, hd⟩
  rcases hmarks _ h with hle | hmem
  · obtain ⟨hlt, rfl⟩ := (is_digit_iff hle).mp hd
    exact (not_figure_of_mark h).1 ⟨d, .figure (by omega) (by omega)⟩
  · exact hmem (hd.mem_all_digits (radix_le_of_mem h))

/-- A mark behind the zero in front tells the radix of the digits. -/
theorem digit_radix_of_mark (h : (c, radix) ∈ radixMarks) :
    digitRadix ('0'.toNat :: c :: t) = radix := by
  have hlookup : ∀ mark ∈ radixMarks, (radixMarks.lookup mark.1).getD 10 = mark.2 := by decide
  exact hlookup _ h

/-- The first character behind a zero is a figure, or ends the whole part. -/
theorem FollowsZero.head {figures rest : Text} (h : FollowsZero figures rest)
    (heq : c :: t = figures ++ rest) : IsDigitOf 10 c ∨ EndsWhole c := by
  cases figures with
  | nil => exact .inr (h.ends c (by rw [← List.nil_append rest, ← heq]; rfl))
  | cons c' figures =>
      obtain ⟨rfl, -⟩ := List.cons.inj heq
      exact .inl (h.figure c (by simp))

/-- Without a mark behind the zero in front, the digits are decimal. -/
theorem digit_radix_of_follows {figures rest : Text} (h : FollowsZero figures rest)
    (ht : t = figures ++ rest) : digitRadix ('0'.toNat :: t) = 10 := by
  cases t with
  | nil => rfl
  | cons c t =>
      have hlookup : radixMarks.lookup c = none := by
        rcases h.head ht with ⟨d, hd⟩ | hends
        · have hfigure : ∀ d : Nat, d < 10 → radixMarks.lookup ('0'.toNat + d) = none := by decide
          obtain ⟨hlt, rfl⟩ := (is_digit_iff le_rfl).mp hd
          exact hfigure d hlt
        · rcases hends with rfl | rfl | rfl <;> rfl
      exact congrArg (Option.getD · 10) hlookup

/-- The separators of a literal are between digits of its radix. -/
theorem Denotes.is_separated (h : Denotes t q) : Separated (digitRadix t) t := by
  cases h with
  | decimal h =>
      have hradix : digitRadix t = 10 := by
        match t with
        | [] | [_] => rfl
        | front :: c :: rest =>
            by_cases hfront : front = '0'.toNat
            · subst hfront
              obtain ⟨figures, after, heq, hfollows⟩ := h.after_zero
              exact digit_radix_of_follows hfollows heq
            · exact if_neg hfront
      rw [hradix]
      exact h.is_separated
  | marked hmark h =>
      have hseparator : ∀ mark ∈ radixMarks, mark.1 ≠ '_'.toNat := by decide
      rw [digit_radix_of_mark hmark]
      exact between_cons (by decide) (between_cons (hseparator _ hmark)
        (h.is_separated (radix_le_of_mem hmark)))
  | @octal t digits hne h =>
      have hfigures := forall_of_forall₂ h
      have hfollows := follows_zero_of_figures fun c hc => is_digit_of_ten (hfigures c hc)
      rw [digit_radix_of_follows hfollows (List.append_nil t).symm]
      refine between_cons (by decide) (between_of_forall fun c hc => ?_)
      rintro rfl
      exact not_digit_separator (is_digit_of_ten (hfigures _ hc))

/-- The only sign of a literal is in its exponent. -/
theorem Denotes.signs_placed (h : Denotes t q) : SignsPlaced t := by
  cases h with
  | decimal h => exact h.signs_placed
  | marked hmark h =>
      have hsign : ∀ mark ∈ radixMarks, ¬ (mark.1 = '+'.toNat ∨ mark.1 = '-'.toNat) := by decide
      exact between_cons (by decide) (between_cons (hsign _ hmark)
        (between_of_forall (h.not_sign (radix_le_of_mem hmark))))
  | octal hne h =>
      exact between_cons (by decide)
        (between_of_forall ((digits_of_forall₂ hne h).not_sign (by norm_num)))

/-- Literals keep to what is not checked. -/
theorem Denotes.is_proper (h : Denotes t q) : IsProper t where
  characters := h.mem_alphabet
  signs := h.signs_placed
  separators := h.is_separated
  unseparated := by
    rintro figures rest hfigures rfl
    rcases h.after_zero with ⟨c, radix, after, hmark, heq, -⟩ | ⟨figures', after, heq, hfollows⟩
    · have hseparator : ∀ mark ∈ radixMarks, mark.1 ≠ '_'.toNat := by decide
      cases figures with
      | nil => exact hseparator _ hmark (List.cons.inj heq).1.symm
      | cons c' figures =>
          obtain ⟨rfl, -⟩ := List.cons.inj heq
          exact (not_figure_of_mark hmark).1 (hfigures _ (by simp))
    · obtain ⟨rfl, rfl⟩ := append_unique hfigures hfollows.figure separator_not_digit
        (fun c hc => not_figure_of_ends (hfollows.ends c hc)) heq
      have hends : ¬ ('_'.toNat = '.'.toNat ∨ '_'.toNat = 'e'.toNat ∨ '_'.toNat = 'E'.toNat) := by
        decide
      exact hends (hfollows.ends _ rfl)
  octal := by
    rintro figures rest hne hfigures rfl c hc hends
    have hten := fun c hc => is_digit_of_ten (hfigures c hc)
    rcases h.after_zero with ⟨c', radix, after, hmark, heq, -⟩ | ⟨figures', after, heq, hfollows⟩
    · obtain ⟨first, figures, rfl⟩ := List.exists_cons_of_ne_nil hne
      obtain ⟨rfl, -⟩ := List.cons.inj heq
      exact (not_figure_of_mark hmark).1 (hten _ (by simp))
    · obtain ⟨rfl, rfl⟩ := append_unique hten hfollows.figure
        (fun c' hc' => by
          rw [Option.mem_unique hc' hc]
          exact not_figure_of_ends hends)
        (fun c hc => not_figure_of_ends (hfollows.ends c hc)) heq
      obtain ⟨c', hc', hdecimal⟩ := hfollows.decimal hne (by rintro rfl; cases hc)
      exact hdecimal (hfigures c' hc')
  mark := by
    rintro c c' radix rest hc hc' rfl
    rcases h.after_zero with ⟨c₁, radix₁, after, hmark, heq, digits, hdigits⟩ |
      ⟨figures, after, heq, hfollows⟩
    · obtain ⟨rfl, rfl⟩ := List.cons.inj heq
      have hradix : radix = radix₁ := by
        rw [← digit_radix_of_mark (t := []) hc, digit_radix_of_mark hmark]
      subst hradix
      cases hdigits with
      | next _ rest =>
          obtain ⟨c₂, hc₂, hdigit⟩ := rest.head
          exact not_digit_of_mark hc' (Option.some.inj hc₂ ▸ hdigit)
      | separated _ rest =>
          have hseparator : ∀ mark ∈ radixMarks, mark.1 ≠ '_'.toNat := by decide
          exact hseparator _ hc' rfl
    · rcases hfollows.head heq with hdigit | hends
      · exact (not_figure_of_mark hc).1 hdigit
      · exact (not_figure_of_mark hc).2 hends

end StaticLiteral.NumericLiteral
