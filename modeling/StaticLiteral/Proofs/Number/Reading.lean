import Mathlib
import StaticLiteral.Proofs.Number.Decimals
import StaticLiteral.Proofs.Number.Grammar
import StaticLiteral.Proofs.Paths

/-!
# Reading numeric literals

Every numeric literal is read as the double nearest to the number that it denotes
(`value_of_literal`). The forms of literals overlap in their first characters; that none of them is
taken for another is a matter of the folded text, and the readers are met there one at a time.
-/

namespace StaticLiteral

open NumericLiteral

namespace Numeral

variable {radix : Nat} {d : Nat} {digits fraction : List Nat} {t rest x : Text} {e : Int}

/-! ## Signs and white space -/

/-- Without white space, and with no sign, a text is read as it stands. -/
theorem signed_eq (hspace : ∀ c ∈ t, Text.isWhiteSpace c = false)
    (hsign : ∀ c ∈ t.head?, c ≠ '-'.toNat ∧ c ≠ '+'.toNat) : signed t = (false, t) := by
  have hdrop : ∀ u : Text, (∀ c ∈ u, Text.isWhiteSpace c = false) →
      u.dropWhile Text.isWhiteSpace = u := by
    intro u hu
    cases u with
    | nil => rfl
    | cons c u => rw [List.dropWhile_cons, hu c List.mem_cons_self]; rfl
  have htrim : t.trim Text.isWhiteSpace = t := by
    rw [Text.trim, hdrop t hspace, hdrop t.reverse (by simpa using hspace), List.reverse_reverse]
  rw [signed, htrim]
  cases t with
  | nil => rfl
  | cons c t =>
      obtain ⟨hminus, hplus⟩ := hsign c rfl
      exact (if_neg hminus).trans (if_neg hplus)

/-- No character of a literal is white space. -/
theorem not_white_space_of_mem (hmem : ∀ c ∈ t, c ∈ smallAlphabet) :
    ∀ c ∈ t, Text.isWhiteSpace c = false := by
  have hspace : ∀ c ∈ smallAlphabet, Text.isWhiteSpace c = false := by decide
  exact fun c hc => hspace c (hmem c hc)

/-- Integers are digits, if no mark of their radix is in front. -/
theorem integer_eq (hmem : ∀ c ∈ t, c ∈ smallAlphabet)
    (hsign : ∀ c ∈ t.head?, c ≠ '-'.toNat ∧ c ≠ '+'.toNat)
    (hmark : ∀ rest, radixMark? t ≠ some (radix, rest)) (hradix : radix ≠ 10) :
    integer? radix t = (group? radix t).map fun digits => (number radix digits : Int) := by
  have hseparator : '_'.toNat ∉ smallAlphabet := by decide
  have hsplit := Text.split_eq_singleton fun h => hseparator (hmem _ h)
  have hbody : integer? radix t = withSign false <$> natural? radix t := by
    rw [integer?, signed_eq (not_white_space_of_mem hmem) hsign]
    cases hmarked : radixMark? t with
    | none => simp [hmarked]
    | some mark =>
        obtain ⟨marked, rest⟩ := mark
        have hne : marked ≠ radix := by
          rintro rfl
          exact hmark rest hmarked
        simp [hmarked, hne]
  rw [hbody, natural?, digits?, hsplit]
  cases hgroup : group? radix t with
  | none => simp [hgroup]
  | some digits => simp [hgroup, hradix, withSign, value_eq_number]

/-- What has only characters of literals is none of the words that stand for doubles. -/
theorem double_eq (hmem : ∀ c ∈ t, c ∈ smallAlphabet)
    (hsign : ∀ c ∈ t.head?, c ≠ '-'.toNat ∧ c ≠ '+'.toNat) :
    double? t = (unsigned? t).map (Rounding.signed false) := by
  have hword : ∀ word : Text, 'n'.toNat ∈ word → t ≠ word := by
    rintro _ hn rfl
    exact absurd (hmem _ hn) (by decide)
  rw [double?, signed_eq (not_white_space_of_mem hmem) hsign]
  simp [hword (Text.ofString "inf") (by decide), hword (Text.ofString "infinity") (by decide),
    hword (Text.ofString "nan") (by decide)]

/-! ## Digits -/

/-- A digit is read as its value. -/
theorem digit_spelling (h : d < 16) : digit? (spelling d) = some d := by
  have hdigit : ∀ d < 16, digit? (spelling d) = some d := by decide
  exact hdigit d h

/-- The figure of a digit is read as the digit. -/
theorem decimal_digit_spelling (h : d < 10) : Text.decimalDigit? (spelling d) = some d := by
  have hdigit : ∀ d < 10, Text.decimalDigit? (spelling d) = some d := by decide
  exact hdigit d h

/-- The digits of a group are read as their values. -/
theorem group_map_spelling (hne : digits ≠ []) (hlt : ∀ d ∈ digits, d < radix)
    (hradix : radix ≤ 16) : group? radix (digits.map spelling) = some digits := by
  have hread : (digits.map spelling).mapM (fun c => (digit? c).filter (· < radix)) =
      some digits := by
    clear hne
    induction digits with
    | nil => rfl
    | cons d digits ih =>
        obtain ⟨hd, hdigits⟩ := List.forall_mem_cons.mp hlt
        rw [List.map_cons, List.mapM_cons, digit_spelling (by omega), ih hdigits,
          Option.filter_some, if_pos (decide_eq_true hd)]
        rfl
  rw [group?, hread]
  simpa using hne

/-- The digits at the front are all that are there. -/
theorem leading_digits_append (hlt : ∀ d ∈ digits, d < 10)
    (hrest : ∀ c ∈ rest.head?, Text.decimalDigit? c = none) :
    leadingDigits (digits.map spelling ++ rest) = (digits, rest) := by
  induction digits with
  | nil =>
      cases rest with
      | nil => rfl
      | cons c rest => simp [leadingDigits, hrest c rfl]
  | cons d digits ih =>
      obtain ⟨hd, hdigits⟩ := List.forall_mem_cons.mp hlt
      simp [leadingDigits, decimal_digit_spelling hd, ih hdigits]

/-- Figures alone are read to their end. -/
theorem leading_digits_map (hlt : ∀ d ∈ digits, d < 10) :
    leadingDigits (digits.map spelling) = (digits, []) := by
  have h := leading_digits_append hlt (fun c hc => nomatch hc : ∀ c ∈ ([] : Text).head?, _)
  rwa [List.append_nil] at h

/-- No figure is a sign. -/
theorem spelling_ne_sign (h : d < 10) : spelling d ≠ '-'.toNat ∧ spelling d ≠ '+'.toNat := by
  have hsign : ∀ d < 10, spelling d ≠ '-'.toNat ∧ spelling d ≠ '+'.toNat := by decide
  exact hsign d h

/-! ## Exponents and decimals -/

/-- An exponent part is read as the exponent that it is. -/
theorem exponent_folded (h : Exponent x e) : exponent? (folded x) = some e := by
  cases h with
  | none => rfl
  | @power mark s t negative digits hmark sign h =>
      have hsmall : folded [mark] = ['e'.toNat] := by rcases hmark with rfl | rfl <;> rfl
      have hread := leading_digits_map h.lt
      have hlt := h.lt
      rw [folded_cons, hsmall, folded_append, sign.folded.2, (h.folded (by norm_num)).2]
      cases digits with
      | nil => exact absurd rfl h.ne_nil
      | cons d digits =>
          obtain ⟨hminus, hplus⟩ := spelling_ne_sign (hlt d List.mem_cons_self)
          cases sign <;> simp_all [exponent?, withSign, value_eq_number]

/-- An exponent part starts with its mark. -/
theorem head_of_exponent (h : exponent? x = some e) : ∀ c ∈ x.head?, c = 'e'.toNat := by
  cases x with
  | nil => simp
  | cons c x =>
      intro c' hc'
      obtain rfl := Option.some.inj hc'
      by_contra hne
      simp [exponent?] at h
      exact hne h.1

/-- Digits and an exponent are read as a decimal. -/
theorem unsigned_integer (hne : digits ≠ []) (hlt : ∀ d ∈ digits, d < 10)
    (hx : exponent? x = some e) :
    unsigned? (digits.map spelling ++ x) = some (Rounding.decimal? (number 10 digits) e) := by
  have hhead := head_of_exponent hx
  have hread : leadingDigits (digits.map spelling ++ x) = (digits, x) :=
    leading_digits_append hlt fun c hc => by
      rw [hhead c hc]
      decide
  rw [unsigned?, hread]
  cases x with
  | nil => simp [hne, hx, value_eq_number]
  | cons c x => simp_all [value_eq_number]

/-- Digits around a point and an exponent are read as a decimal. -/
theorem unsigned_pointed (hne : digits = [] → fraction ≠ []) (hlt : ∀ d ∈ digits, d < 10)
    (hlt' : ∀ d ∈ fraction, d < 10) (hx : exponent? x = some e) :
    unsigned? (digits.map spelling ++ '.'.toNat :: (fraction.map spelling ++ x)) =
      some (Rounding.decimal? (number 10 (digits ++ fraction)) (e - fraction.length)) := by
  have hpoint : leadingDigits (digits.map spelling ++ '.'.toNat :: (fraction.map spelling ++ x)) =
      (digits, '.'.toNat :: (fraction.map spelling ++ x)) :=
    leading_digits_append hlt fun c hc => by
      obtain rfl := Option.some.inj hc
      decide
  have hread : leadingDigits (fraction.map spelling ++ x) = (fraction, x) :=
    leading_digits_append hlt' fun c hc => by
      rw [head_of_exponent hx c hc]
      decide
  rw [unsigned?, hpoint]
  simpa [hread, hx, value_eq_number] using hne

/-! ## Marks -/

/-- Digits of a radix do not start with a mark of it, although a mark may be a larger digit. -/
theorem radix_mark_ne (hradix : radix ∈ [2, 8, 16]) (hlt : ∀ d ∈ digits, d < radix) :
    ∀ rest, radixMark? (digits.map spelling) ≠ some (radix, rest) := by
  have hletter : ∀ radix ∈ [2, 8, 16], ∀ d < radix, radixLetter? (spelling d) ≠ some radix := by
    decide
  intro rest hmark
  match digits with
  | [] | [_] => cases hmark
  | d :: d' :: digits =>
      simp only [List.map_cons, radixMark?] at hmark
      split at hmark
      · obtain ⟨marked, hmarked, heq⟩ := Option.map_eq_some_iff.mp hmark
        obtain ⟨rfl, -⟩ := Prod.mk.inj heq
        exact hletter _ hradix d' (hlt d' (by simp)) hmarked
      · cases hmark

/-- Digits of a radix are read as the number that they are. -/
theorem integer_map_spelling (hradix : radix ∈ [2, 8, 16]) (hne : digits ≠ [])
    (hlt : ∀ d ∈ digits, d < radix) :
    integer? radix (digits.map spelling) = some (number radix digits : Int) := by
  have hbound : ∀ radix ∈ [2, 8, 16], radix ≤ 16 ∧ radix ≠ 10 := by decide
  obtain ⟨hle, hten⟩ := hbound radix hradix
  have hsmall : ∀ d < 16, spelling d ∈ smallAlphabet ∧ spelling d ≠ '-'.toNat ∧
      spelling d ≠ '+'.toNat := by decide
  have hmem : ∀ c ∈ digits.map spelling, c ∈ smallAlphabet ∧ c ≠ '-'.toNat ∧ c ≠ '+'.toNat := by
    rw [List.forall_mem_map]
    exact fun d hd => hsmall d ((hlt d hd).trans_le hle)
  rw [integer_eq (fun c hc => (hmem c hc).1) (fun c hc => (hmem c (List.mem_of_mem_head? hc)).2)
    (radix_mark_ne hradix hlt) hten, group_map_spelling hne hlt hle]
  rfl

end Numeral

namespace Rounding

/-- Natural numbers are rounded without a sign. -/
theorem integer_natural (n : Nat) : integer (n : Int) = signed false (natural? n) := by
  -- The definition is opened without its argument, where nothing can be evaluated.
  obtain ⟨f, hf⟩ : ∃ f, f = integer := ⟨_, rfl⟩
  rw [← hf]
  delta integer at hf
  rw [hf]
  beta_reduce
  rw [Int.natAbs_natCast]
  cases natural? n with
  | none => rfl
  | some m => exact congrArg (Double.finite · m) (decide_eq_false (by omega))

end Rounding

namespace NumericLiteral

open Numeral Rounding

variable {radix : Nat} {c : CodePoint} {t rest x : Text} {digits fraction : List Nat} {e : Int}
  {q : ℚ}

/-! ## Decimal literals -/

/-- What follows the digits of a folded decimal literal. -/
def IsEnd (rest : Text) : Prop := ∀ c ∈ rest.head?, c = '.'.toNat ∨ c = 'e'.toNat

/-- A point ends a row of digits. -/
theorem is_end_point : IsEnd ('.'.toNat :: rest) := fun _ hc => .inl (Option.some.inj hc).symm

/-- The marks of a folded text. -/
def smallMarks : List (CodePoint × Nat) := [('x'.toNat, 16), ('o'.toNat, 8), ('b'.toNat, 2)]

/-- A radix is marked by a zero and its letter at the front. -/
theorem radix_eq_some_iff : radix? t = some radix ↔
    ∃ c rest, t = '0'.toNat :: c :: rest ∧ (c, radix) ∈ smallMarks := by
  have hstart : ∀ mark : CodePoint, t.startsWith ['0'.toNat, mark] ↔
      ∃ rest, t = '0'.toNat :: mark :: rest := fun mark => by
    rw [Text.startsWith, List.isPrefixOf_iff_prefix]
    exact ⟨fun ⟨rest, h⟩ => ⟨rest, h.symm⟩, fun ⟨rest, h⟩ => ⟨rest, h.symm⟩⟩
  have hx := hstart 'x'.toNat
  have ho := hstart 'o'.toNat
  have hb := hstart 'b'.toNat
  unfold radix? smallMarks
  constructor
  · intro h
    split at h
    · next hmark =>
        obtain ⟨rest, rfl⟩ := hx.mp hmark
        exact ⟨_, rest, rfl, by simp_all⟩
    split at h
    · next hmark =>
        obtain ⟨rest, rfl⟩ := ho.mp hmark
        exact ⟨_, rest, rfl, by simp_all⟩
    split at h
    · next hmark =>
        obtain ⟨rest, rfl⟩ := hb.mp hmark
        exact ⟨_, rest, rfl, by simp_all⟩
    · cases h
  · rintro ⟨c, rest, rfl, hmark⟩
    simp only [List.mem_cons, Prod.mk.injEq, List.not_mem_nil, or_false] at hmark
    obtain ⟨rfl, rfl⟩ | ⟨rfl, rfl⟩ | ⟨rfl, rfl⟩ := hmark <;> rfl

/-- In the second place of a decimal number there is a digit, or what follows the digits. -/
theorem radix_append_eq_none (hlt : ∀ d ∈ digits, d < 10) (hend : IsEnd rest) :
    radix? (digits.map spelling ++ rest) = none := by
  have hdigit : ∀ d < 10, ∀ mark ∈ smallMarks, spelling d ≠ mark.1 := by decide
  have hfollow : ∀ c, c = '.'.toNat ∨ c = 'e'.toNat → c ≠ '0'.toNat ∧
      ∀ mark ∈ smallMarks, c ≠ mark.1 := by
    rintro c (rfl | rfl) <;> decide
  refine Option.eq_none_iff_forall_ne_some.mpr fun radix h => ?_
  obtain ⟨c, after, heq, hmark⟩ := radix_eq_some_iff.mp h
  match digits with
  | [] => exact (hfollow _ (hend '0'.toNat (by simp_all))).1 rfl
  | [_] => exact (hfollow c (hend c (by simp_all))).2 _ hmark rfl
  | _ :: d :: digits =>
      have hc : spelling d = c := by simp_all
      exact hdigit d (hlt d (by simp)) _ hmark hc

/-- A text is read as an old octal number if a zero stands in front of octal digits only. -/
theorem is_legacy_octal_iff : isLegacyOctal t ↔
    1 < t.length ∧ t.head? = some '0'.toNat ∧ ∀ c ∈ t, '0'.toNat ≤ c ∧ c ≤ '7'.toNat := by
  simp [isLegacyOctal, and_assoc]

/-- A whole part alone is no octal literal in the old form. -/
theorem Whole.not_legacy_octal (h : Whole t digits) : ¬ isLegacyOctal (digits.map spelling) := by
  have hzero : ∀ d < 10, spelling d = '0'.toNat → d = 0 := by decide
  have hlarge : ∀ d < 10, 8 ≤ d → ¬ spelling d ≤ '7'.toNat := by decide
  have hlt := h.is_digits.lt
  rw [is_legacy_octal_iff]
  rintro ⟨hlength, hhead, hoctal⟩
  cases h with
  | zero => simp at hlength
  | digits _ hne =>
      match digits with
      | [] => simp at hlength
      | d :: digits => exact hne (congrArg some (hzero d (hlt d (by simp)) (Option.some.inj hhead)))
  | leadingZero _ hdecimal =>
      obtain ⟨d, hd, hle⟩ := hdecimal
      have hd := List.mem_cons_of_mem 0 hd
      exact hlarge d (hlt d hd) hle (hoctal _ (List.mem_map_of_mem hd)).2

/-- Nothing with a point or an exponent is an octal literal in the old form. -/
theorem not_legacy_octal_append (hend : IsEnd rest) (hne : rest ≠ []) :
    ¬ isLegacyOctal (t ++ rest) := by
  rw [is_legacy_octal_iff]
  rintro ⟨-, -, hoctal⟩
  cases rest with
  | nil => exact hne rfl
  | cons c rest =>
      have hc := hoctal c (by simp)
      rcases hend c rfl with rfl | rfl
      · exact absurd hc (by decide)
      · exact absurd hc (by decide)

/-- What is neither marked nor octal is read as a decimal number. -/
theorem value_eq_double (hradix : radix? (folded t) = none) (hoctal : ¬ isLegacyOctal (folded t)) :
    value? t = double? (folded t) := by
  unfold value?
  extract_lets u
  rw [show radix? u = none from hradix]
  exact if_neg hoctal

/-- Digits and an exponent are a decimal number. -/
theorem value_of_integer (hmem : ∀ c ∈ folded t, c ∈ smallAlphabet)
    (hfolded : folded t = digits.map spelling ++ x) (hne : digits ≠ [])
    (hlt : ∀ d ∈ digits, d < 10) (hoctal : x = [] → ¬ isLegacyOctal (digits.map spelling))
    (hx : exponent? x = some e) :
    value? t = some (signed false (decimal? (number 10 digits) e)) := by
  have hend : IsEnd x := fun c hc => .inr (head_of_exponent hx c hc)
  rw [value_eq_double, double_eq hmem, hfolded, unsigned_integer hne hlt hx]
  · rfl
  · rw [hfolded]
    obtain ⟨d, digits, rfl⟩ := List.exists_cons_of_ne_nil hne
    exact fun c hc => Option.some.inj hc ▸ spelling_ne_sign (hlt d List.mem_cons_self)
  · rw [hfolded]
    exact radix_append_eq_none hlt hend
  · rw [hfolded]
    by_cases hnil : x = []
    · rw [hnil, List.append_nil]
      exact hoctal hnil
    · exact not_legacy_octal_append hend hnil

/-- Digits around a point and an exponent are a decimal number. -/
theorem value_of_pointed (hmem : ∀ c ∈ folded t, c ∈ smallAlphabet)
    (hfolded : folded t = digits.map spelling ++ '.'.toNat :: (fraction.map spelling ++ x))
    (hne : digits = [] → fraction ≠ []) (hlt : ∀ d ∈ digits, d < 10)
    (hlt' : ∀ d ∈ fraction, d < 10) (hx : exponent? x = some e) :
    value? t = some (signed false
      (decimal? (number 10 (digits ++ fraction)) (e - fraction.length))) := by
  rw [value_eq_double, double_eq hmem, hfolded, unsigned_pointed hne hlt hlt' hx]
  · rfl
  · rw [hfolded]
    intro c hc
    match digits with
    | [] => exact Option.some.inj hc ▸ by decide
    | d :: digits => exact Option.some.inj hc ▸ spelling_ne_sign (hlt d List.mem_cons_self)
  · rw [hfolded]
    exact radix_append_eq_none hlt is_end_point
  · rw [hfolded]
    exact not_legacy_octal_append is_end_point (List.cons_ne_nil _ _)

/-- The digits around a point, as one number with a smaller exponent. -/
theorem value_pointed :
    (Decimal.mk (number 10 (digits ++ fraction)) (e - fraction.length)).value =
      (number 10 digits + number 10 fraction / 10 ^ fraction.length) * 10 ^ e := by
  have hpos : (0 : ℚ) < 10 ^ fraction.length := by positivity
  rw [Decimal.value, number_append, zpow_sub₀ (by norm_num), zpow_natCast]
  push_cast
  field_simp

/-- A decimal literal is read as a decimal with its value. -/
theorem value_of_decimal_literal (h : DecimalLiteral t q) :
    ∃ d : Decimal, d.value = q ∧ value? t = some (signed false (decimal? d.digits d.exponent)) := by
  have hmem := folded_mem h.mem_alphabet
  have hpoint : ∀ x : Text, folded ('.'.toNat :: x) = '.'.toNat :: folded x := fun x => folded_cons
  cases h with
  | integer whole exponent =>
      have hwhole := whole.is_digits
      refine ⟨⟨_, _⟩, rfl, value_of_integer hmem ?_ hwhole.ne_nil hwhole.lt
        (fun _ => whole.not_legacy_octal) (exponent_folded exponent)⟩
      rw [folded_append, (hwhole.folded (by norm_num)).2]
  | pointed whole part exponent =>
      have hwhole := whole.is_digits
      refine ⟨⟨_, _⟩, value_pointed, value_of_pointed hmem ?_ (fun h => absurd h hwhole.ne_nil)
        hwhole.lt part.lt (exponent_folded exponent)⟩
      rw [folded_append, (hwhole.folded (by norm_num)).2, hpoint, folded_append, part.folded.2]
  | @fraction u x fraction e part exponent =>
      refine ⟨⟨number 10 ([] ++ fraction), _⟩, ?_, value_of_pointed hmem ?_ (fun _ => part.ne_nil)
        (by simp) part.lt (exponent_folded exponent)⟩
      · rw [value_pointed, number_nil, Nat.cast_zero, zero_add]
      · rw [hpoint, folded_append, (part.folded (by norm_num)).2]
        rfl

/-! ## Integers -/

/-- A mark is folded to the small mark of the same radix. -/
theorem folded_mark (h : (c, radix) ∈ radixMarks) :
    ∃ small, folded [c] = [small] ∧ (small, radix) ∈ smallMarks := by
  simp only [radixMarks, List.mem_cons, Prod.mk.injEq, List.not_mem_nil, or_false] at h
  obtain ⟨rfl, rfl⟩ | ⟨rfl, rfl⟩ | ⟨rfl, rfl⟩ | ⟨rfl, rfl⟩ | ⟨rfl, rfl⟩ | ⟨rfl, rfl⟩ := h <;>
    exact ⟨_, rfl, by decide⟩

/-- The marks are of three radices. -/
theorem mem_of_mem_marks (h : (c, radix) ∈ smallMarks) : radix ∈ [2, 8, 16] := by
  have hradix : ∀ mark ∈ smallMarks, mark.2 ∈ [2, 8, 16] := by decide
  exact hradix _ h

/-- What is marked is read in its radix behind the mark. -/
theorem value_eq_marked (hradix : radix? (folded t) = some radix) :
    value? t = (integer? radix ((folded t).drop 2)).map integer := by
  unfold value?
  extract_lets u
  rw [show radix? u = some radix from hradix]
  rfl

/-- What is octal in the old form is read as octal. -/
theorem value_eq_octal (hradix : radix? (folded t) = none) (hoctal : isLegacyOctal (folded t)) :
    value? t = (integer? 8 (folded t)).map integer := by
  unfold value?
  extract_lets u
  rw [show radix? u = none from hradix]
  exact if_pos hoctal

/-- Octal digits behind a zero are an octal literal in the old form. -/
theorem is_legacy_octal_map (hne : digits ≠ []) (hlt : ∀ d ∈ digits, d < 8) :
    isLegacyOctal ((0 :: digits).map spelling) := by
  have hdigit : ∀ d < 8, '0'.toNat ≤ spelling d ∧ spelling d ≤ '7'.toNat := by decide
  have hall : ∀ d ∈ 0 :: digits, d < 8 := by simpa using hlt
  rw [is_legacy_octal_iff, List.forall_mem_map]
  refine ⟨?_, rfl, fun d hd => hdigit d (hall d hd)⟩
  simpa using List.length_pos_iff.mpr hne

/-- The octal digits behind a zero are read as octal ones. -/
theorem value_of_octal (hfolded : folded t = (0 :: digits).map spelling) (hne : digits ≠ [])
    (hlt : ∀ d ∈ digits, d < 8) : value? t = some (signed false (natural? (number 8 digits))) := by
  have hall : ∀ d ∈ 0 :: digits, d < 8 := by simpa using hlt
  have hradix : radix? (folded t) = none := by
    rw [hfolded, ← List.append_nil ((0 :: digits).map spelling)]
    exact radix_append_eq_none (fun d hd => (hall d hd).trans (by norm_num)) fun c hc => nomatch hc
  have hoctal : isLegacyOctal (folded t) := hfolded ▸ is_legacy_octal_map hne hlt
  have hnumber : number 8 (0 :: digits) = number 8 digits := by rw [number_cons, zero_mul, zero_add]
  rw [value_eq_octal hradix hoctal, hfolded,
    integer_map_spelling (by decide) (List.cons_ne_nil _ _) hall, hnumber, ← integer_natural]
  rfl

/-- The digits behind a mark are read in its radix. -/
theorem value_of_marked (hfolded : folded t = '0'.toNat :: c :: digits.map spelling)
    (hmark : (c, radix) ∈ smallMarks) (hne : digits ≠ []) (hlt : ∀ d ∈ digits, d < radix) :
    value? t = some (signed false (natural? (number radix digits))) := by
  rw [value_eq_marked (radix_eq_some_iff.mpr ⟨c, _, hfolded, hmark⟩), hfolded, List.drop_succ_cons,
    List.drop_succ_cons, List.drop_zero, integer_map_spelling (mem_of_mem_marks hmark) hne hlt,
    ← integer_natural]
  rfl

/-! ## All literals -/

/-- Every numeric literal is read as the number that it denotes, rounded to a double. -/
theorem rounds_of_denotes (h : Denotes t q) :
    ∃ m, Rounds q m ∧ value? t = some (signed false m) := by
  cases h with
  | decimal h =>
      obtain ⟨d, rfl, hvalue⟩ := value_of_decimal_literal h
      exact ⟨_, rounds_decimal d, hvalue⟩
  | @marked c t radix digits hmark h =>
      obtain ⟨small, hsmall, hmem⟩ := folded_mark hmark
      refine ⟨_, rounds_natural _, value_of_marked ?_ hmem h.ne_nil h.lt⟩
      rw [show '0'.toNat :: c :: t = ['0'.toNat] ++ ([c] ++ t) from rfl, folded_append,
        folded_append, hsmall, (h.folded (radix_le_of_mem hmark)).2]
      rfl
  | octal hne h =>
      have hdigits := digits_of_forall₂ hne h
      refine ⟨_, rounds_natural _, value_of_octal ?_ hdigits.ne_nil hdigits.lt⟩
      rw [folded_cons, (hdigits.folded (by norm_num)).2]
      rfl

/-- A numeric literal is the double nearest to the number that it denotes, of two equally near ones
the one with the even mantissa, and infinity where that is beyond the largest double. -/
theorem value_of_literal (h : Denotes t q) :
    (∃ m, IsNearest q m ∧ value? t = some (.finite false m)) ∨
      limit ≤ q ∧ value? t = some (.infinite false) := by
  obtain ⟨_, hrounds, hvalue⟩ := rounds_of_denotes h
  cases hrounds with
  | finite hnearest => exact .inl ⟨_, hnearest, hvalue⟩
  | beyond hlimit => exact .inr ⟨hlimit, hvalue⟩

/-- A zero in front, a separator behind the point and an exponent are no obstacle. -/
theorem value_of_literal_leading_zero :
    Denotes (Text.ofString "08.2_5E1") (165 / 2) ∧
      ((∃ m, IsNearest (165 / 2) m ∧
          value? (Text.ofString "08.2_5E1") = some (.finite false m)) ∨
        limit ≤ 165 / 2 ∧ value? (Text.ofString "08.2_5E1") = some (.infinite false)) := by
  have hdigit : ∀ d < 10, IsDigit 10 (spelling d) d := fun d => is_digit_spelling
  have hwhole : Whole (Text.ofString "08") [0, 8] :=
    .leadingZero (.cons (hdigit 8 (by decide)) .nil) ⟨8, by decide⟩
  have hfraction : Fraction (Text.ofString "2_5") [2, 5] :=
    .digits (.separated (hdigit 2 (by decide)) (.single (hdigit 5 (by decide))))
  have hexponent : Exponent (Text.ofString "E1") 1 :=
    .power (.inr rfl) .none (.single (hdigit 1 (by decide)))
  have hliteral : Denotes (Text.ofString "08.2_5E1") (165 / 2) := by
    have h := Denotes.decimal (.pointed hwhole hfraction hexponent)
    norm_num [number_cons] at h
    exact h
  exact ⟨hliteral, value_of_literal hliteral⟩

end NumericLiteral

end StaticLiteral
