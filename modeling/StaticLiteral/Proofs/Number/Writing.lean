import Mathlib
import StaticLiteral.Number.Notation
import StaticLiteral.Proofs.Number.Reading
import StaticLiteral.Proofs.Number.Shortest
import StaticLiteral.Report.Text

/-!
# Writing numbers

The text of a number is a decimal literal whose exact value is that of the shortest decimal of the
number, in every layout (`literal_magnitude`), so it is read as the same number again
(`value_magnitude`). The layout of constants has no superfluous zeros, and an exponent from 10^21 on
and below 10^-6 only.
-/

namespace StaticLiteral

open Numeral NumericLiteral Rounding

namespace Layout

variable {l : Layout} {t u x : Text} {digits fraction : List Nat} {d : Nat} {n e : Int}

/-! ## Zeros -/

/-- Zeros are spelled like digits. -/
theorem zeros_eq (n : Nat) : zeros n = (List.replicate n 0).map spelling := by
  rw [List.map_replicate]
  rfl

/-- Zeros in front do not count. -/
theorem number_replicate_append (n : Nat) :
    number 10 (List.replicate n 0 ++ digits) = number 10 digits := by
  rw [number_append, number_replicate_zero, zero_mul, zero_add]

/-- Zeros behind the digits are a larger exponent. -/
theorem value_append_zeros (n : Nat) :
    (Decimal.mk (number 10 (digits ++ List.replicate n 0)) e).value =
      (Decimal.mk (number 10 digits) (e + n)).value := by
  rw [Decimal.value, Decimal.value, number_append, number_replicate_zero, List.length_replicate,
    zpow_add₀ (by norm_num), zpow_natCast]
  push_cast
  ring

/-! ## Literals -/

/-- A whole part and an exponent spell the decimal of their digits. -/
theorem literal_of_integer (whole : Whole t digits) (exponent : Exponent x e) :
    DecimalLiteral (t ++ x) (Decimal.mk (number 10 digits) e).value :=
  .integer whole exponent

/-- Each digit behind the point lowers the exponent of the decimal by one. -/
theorem literal_of_pointed (whole : Whole t digits) (part : Fraction u fraction)
    (exponent : Exponent x e) : DecimalLiteral (t ++ '.'.toNat :: (u ++ x))
      (Decimal.mk (number 10 (digits ++ fraction)) (e - fraction.length)).value := by
  rw [value_pointed]
  exact .pointed whole part exponent

/-- Figures are a fraction, also if there are none. -/
theorem fraction_map_spelling (hlt : ∀ d ∈ digits, d < 10) :
    Fraction (digits.map spelling) digits := by
  by_cases hne : digits = []
  · rw [hne]
    exact .none
  · exact .digits (digits_map_spelling hne hlt)

/-- The exponent part is the power of ten that the first digit counts. -/
theorem exponent_literal (l : Layout) (n : Int) : Exponent (l.exponent n) (n - 1) := by
  obtain ⟨digits, htext, hdigits⟩ := exists_writing (n - 1).natAbs
  have hpadded : ∀ k : Nat,
      Digits 10 (zeros k ++ digits.map spelling) (List.replicate k 0 ++ digits) := fun k => by
    rw [zeros_eq, ← List.map_append]
    refine digits_map_spelling (by simp [hdigits.ne_nil]) ?_
    simpa [or_imp, forall_and] using hdigits.lt
  have hpower : ∀ (k : Nat) (s : Text) (negative : Bool), Sign s negative →
      Exponent ('e'.toNat :: (s ++ (zeros k ++ digits.map spelling)))
        (if negative then -(n - 1).natAbs else (n - 1).natAbs) := fun k s negative hsign => by
    rw [← hdigits.number_eq, ← number_replicate_append k]
    exact .power (.inl rfl) hsign (hpadded k)
  unfold exponent
  extract_lets e text
  rw [show text = digits.map spelling from htext]
  split
  · next hnonneg =>
      have hexponent : ((n - 1).natAbs : Int) = n - 1 := Int.natAbs_of_nonneg hnonneg
      exact hexponent ▸ hpower _ _ _ .plus
  · next hnegative =>
      have hexponent : -((n - 1).natAbs : Int) = n - 1 := by omega
      exact hexponent ▸ hpower _ _ _ .minus

section

variable (hne : digits ≠ []) (hlt : ∀ d ∈ digits, d < 10) (hhead : digits.head? ≠ some 0)
include hne hlt hhead

/-- A whole part may be continued with zeros. -/
theorem whole_append_zeros (k : Nat) :
    Whole (digits.map spelling ++ zeros k) (digits ++ List.replicate k 0) := by
  rw [zeros_eq, ← List.map_append]
  refine .digits (digits_map_spelling (by simp [hne]) ?_) ?_
  · simpa [or_imp, forall_and] using hlt
  · rwa [List.head?_append_of_ne_nil _ hne]

/-- The point behind the digits and zeros, and not written. -/
theorem literal_append_zeros (k : Nat) : DecimalLiteral (digits.map spelling ++ zeros k)
    (Decimal.mk (number 10 digits) k).value := by
  have h := literal_of_integer (whole_append_zeros hne hlt hhead k) .none
  rwa [List.append_nil, value_append_zeros, zero_add] at h

/-- The point behind the digits and zeros, and another zero behind it. -/
theorem literal_append_zero (k : Nat) :
    DecimalLiteral (digits.map spelling ++ zeros k ++ Text.ofString ".0")
      (Decimal.mk (number 10 digits) k).value := by
  have htext : Text.ofString ".0" = '.'.toNat :: ([0].map spelling ++ []) := rfl
  have hzero : Fraction ([0].map spelling) [0] := fraction_map_spelling (by simp)
  have h := literal_of_pointed (whole_append_zeros hne hlt hhead k) hzero .none
  rw [List.append_assoc digits, ← List.replicate_succ', value_append_zeros] at h
  rw [htext]
  convert h using 3
  push_cast
  rw [List.length_singleton]
  ring

/-- The point among the digits. -/
theorem literal_split {k : Nat} (hpos : 0 < k) (hk : k < digits.length) :
    DecimalLiteral ((digits.map spelling).take k ++ '.'.toNat :: (digits.map spelling).drop k)
      (Decimal.mk (number 10 digits) (k - digits.length)).value := by
  have hwhole : Whole ((digits.take k).map spelling) (digits.take k) := by
    refine .digits (digits_map_spelling ?_ fun d hd => hlt d (List.mem_of_mem_take hd)) ?_
    · simp [hne]
      omega
    · rwa [List.head?_take, if_neg (by omega)]
  have hfraction : Fraction ((digits.drop k).map spelling) (digits.drop k) :=
    fraction_map_spelling fun d hd => hlt d (List.mem_of_mem_drop hd)
  have h := literal_of_pointed hwhole hfraction .none
  rw [List.take_append_drop, List.append_nil, List.map_take, List.map_drop] at h
  convert h using 3
  rw [List.length_drop]
  omega

omit hne hhead in
/-- The point in front of zeros and the digits. -/
theorem literal_zeros_append (k : Nat) :
    DecimalLiteral (Text.ofString "0." ++ zeros k ++ digits.map spelling)
      (Decimal.mk (number 10 digits) (-(k : Int) - digits.length)).value := by
  have hfraction : Fraction (zeros k ++ digits.map spelling) (List.replicate k 0 ++ digits) := by
    rw [zeros_eq, ← List.map_append]
    exact fraction_map_spelling (by simpa [or_imp, forall_and] using hlt)
  have htext : Text.ofString "0." ++ zeros k ++ digits.map spelling =
      ['0'.toNat] ++ '.'.toNat :: (zeros k ++ digits.map spelling) := rfl
  have hnumber : number 10 ([0] ++ (List.replicate k 0 ++ digits)) = number 10 digits := by
    rw [List.singleton_append, number_cons, zero_mul, zero_add, number_replicate_append]
  have h := literal_of_pointed .zero hfraction .none
  rw [hnumber, List.append_nil] at h
  rw [htext]
  convert h using 3
  rw [List.length_append, List.length_replicate]
  push_cast
  ring

/-- The point behind the first digit, with an exponent. -/
theorem literal_exponent (l : Layout) (n : Int) (hlast : digits = d :: fraction) :
    DecimalLiteral (spelling d :: '.'.toNat :: fraction.map spelling ++ l.exponent n)
      (Decimal.mk (number 10 digits) (n - digits.length)).value := by
  subst hlast
  rw [List.forall_mem_cons] at hlt
  have htext : spelling d :: '.'.toNat :: fraction.map spelling ++ l.exponent n =
      [d].map spelling ++ '.'.toNat :: (fraction.map spelling ++ l.exponent n) := rfl
  have hwhole : Whole ([d].map spelling) [d] :=
    .digits (digits_map_spelling (List.cons_ne_nil _ _) (by simpa using hlt.1)) hhead
  have h := literal_of_pointed hwhole (fraction_map_spelling hlt.2) (exponent_literal l n)
  rw [List.singleton_append] at h
  rw [htext]
  convert h using 3
  rw [List.length_cons]
  push_cast
  ring

/-- Digits with the point anywhere are a literal of the number that they are. -/
theorem literal_place (l : Layout) (n : Int) : DecimalLiteral (l.place (digits.map spelling) n)
    (Decimal.mk (number 10 digits) (n - digits.length)).value := by
  unfold place
  extract_lets k
  have hk : k = digits.length := List.length_map _
  rw [hk]
  split
  · split
    · next hle =>
        have hn : n - digits.length = (n.toNat - digits.length : Nat) := by omega
        rw [hn]
        split
        · exact literal_append_zero hne hlt hhead _
        · rw [List.append_nil]
          exact literal_append_zeros hne hlt hhead _
    split
    · next hlt' hpos =>
        have hn : n - digits.length = (n.toNat : Int) - digits.length := by omega
        rw [hn]
        exact literal_split hne hlt hhead (by omega) (by omega)
    · next hlt' hpos =>
        have hn : n - digits.length = -(n.natAbs : Int) - digits.length := by omega
        rw [hn]
        exact literal_zeros_append hlt _
  · match digits with
    | [] => exact absurd rfl hne
    | [d] =>
        have hdigit := digits_map_spelling hne hlt
        exact literal_of_integer (.digits hdigit hhead) (exponent_literal l n)
    | d :: d' :: digits => exact literal_exponent hne hlt hhead l n rfl

end

/-! ## Tidy texts -/

/-- A point and the digits behind it; without digits there is no point. -/
def pointed (fraction : List Nat) : Text :=
  if fraction = [] then [] else '.'.toNat :: fraction.map spelling

/-- Whether the text of a number has an exponent, and that it has no superfluous zeros: none in
front of other digits before the point, and none at the end behind it. With an exponent there is a
single digit before the point. -/
inductive Tidy : Bool → Text → Prop where
  | positional {whole fraction : List Nat} (hne : whole ≠ [])
      (hlt : ∀ d ∈ whole ++ fraction, d < 10)
      (hwhole : whole = [0] ∨ whole.head? ≠ some 0) (hfraction : fraction.getLast? ≠ some 0) :
      Tidy false (whole.map spelling ++ pointed fraction)
  | exponential {d n : Nat} {fraction power : List Nat} {sign : CodePoint} (hne : d ≠ 0)
      (hlt : ∀ digit ∈ d :: fraction, digit < 10) (hfraction : fraction.getLast? ≠ some 0)
      (hsign : sign = '+'.toNat ∨ sign = '-'.toNat) (hpower : IsWriting power n) :
      Tidy true (spelling d :: pointed fraction ++ 'e'.toNat :: sign :: power.map spelling)

/-- The text starts with a digit. -/
theorem Tidy.head {hasExponent : Bool} (h : Tidy hasExponent t) :
    ∃ d < 10, t.head? = some (spelling d) := by
  cases h with
  | @positional whole fraction hne hlt hwhole hfraction =>
      obtain ⟨d, whole, rfl⟩ := List.exists_cons_of_ne_nil hne
      exact ⟨d, hlt d (by simp), rfl⟩
  | @exponential d n fraction power sign hne hlt hfraction hsign hpower =>
      exact ⟨d, hlt d (by simp), rfl⟩

section

variable (hne : digits ≠ []) (hlt : ∀ d ∈ digits, d < 10) (hhead : digits.head? ≠ some 0)
  (hlast : digits.getLast? ≠ some 0)
include hne hlt hhead hlast

omit hhead in
/-- A text with a nonzero first figure and an exponent is tidy. -/
theorem tidy_exponent {rest : List Nat} (hrest : digits = d :: rest) (hd : d ≠ 0) (n : Int) :
    Tidy true (spelling d :: pointed rest ++ constant.exponent n) := by
  subst hrest
  obtain ⟨power, htext, hpower⟩ := exists_writing (n - 1).natAbs
  have hlength : 1 - (power.map spelling).length = 0 := by
    have := List.length_pos_iff.mpr hpower.ne_nil
    simp
    omega
  have hexponent : constant.exponent n =
      'e'.toNat :: (if 0 ≤ n - 1 then '+'.toNat else '-'.toNat) :: power.map spelling := by
    unfold exponent
    extract_lets e text
    rw [show text = power.map spelling from htext, show constant.exponentWidth = 1 from rfl,
      hlength]
    rfl
  rw [hexponent]
  refine .exponential hd hlt ?_ (by split <;> simp) hpower
  cases rest with
  | nil => simp
  | cons d' rest => rwa [List.getLast?_cons_cons] at hlast

/-- A constant is written without superfluous zeros, with an exponent if its point is far away. -/
theorem tidy_place (n : Int) :
    Tidy (decide (n ≤ -6 ∨ 21 < n)) (constant.place (digits.map spelling) n) := by
  unfold place
  extract_lets k
  have hk : k = digits.length := List.length_map _
  have hrange : (constant.above < n && n ≤ constant.upTo) = true ↔ -6 < n ∧ n ≤ 21 := by
    rw [Bool.and_eq_true, decide_eq_true_iff, decide_eq_true_iff]
    rfl
  rw [hk]
  split
  · next hnear =>
      rw [hrange] at hnear
      rw [decide_eq_false (by omega)]
      split
      · have h : Tidy false ((digits ++ List.replicate (n.toNat - digits.length) 0).map spelling ++
            pointed []) := by
          refine .positional (by simp [hne]) ?_ (.inr ?_) (by simp)
          · simpa [or_imp, forall_and] using hlt
          · rwa [List.head?_append_of_ne_nil _ hne]
        rwa [List.map_append, ← zeros_eq] at h
      split
      · next hle hpos =>
          have h : Tidy false
              ((digits.take n.toNat).map spelling ++ pointed (digits.drop n.toNat)) := by
            refine .positional ?_ (by rwa [List.take_append_drop]) (.inr ?_) ?_
            · simp [hne]
              omega
            · rwa [List.head?_take, if_neg (by omega)]
            · rwa [List.getLast?_drop, if_neg (by omega)]
          rwa [pointed, if_neg (by simp; omega), List.map_take, List.map_drop] at h
      · have h : Tidy false
            ([0].map spelling ++ pointed (List.replicate n.natAbs 0 ++ digits)) := by
          refine .positional (by simp) ?_ (.inl rfl) ?_
          · simpa [or_imp, forall_and] using hlt
          · rwa [List.getLast?_append_of_ne_nil _ hne]
        rwa [pointed, if_neg (by simp [hne]), List.map_append, ← zeros_eq] at h
  · next hfar =>
      rw [hrange] at hfar
      rw [decide_eq_true (by omega)]
      match digits with
      | [] => exact absurd rfl hne
      | [d] => exact tidy_exponent hne hlt hlast rfl (by simpa using hhead) n
      | d :: d' :: rest => exact tidy_exponent hne hlt hlast rfl (by simpa using hhead) n

end

/-! ## Magnitudes -/

variable {m : Magnitude}

/-- Only zero has no mantissa. -/
theorem mantissa_eq_zero_iff : m.mantissa = 0 ↔ m = .zero := by
  constructor
  · intro h
    exact Magnitude.units_injective (by rw [Magnitude.units, h, zero_mul]; rfl)
  · rintro rfl
    rfl

/-- Zero is spelled with a point or without one. -/
theorem magnitude_zero (l : Layout) :
    l.magnitude .zero = Text.ofString (if l.pointZero then "0.0" else "0") :=
  if_pos rfl

/-- What the digits of a magnitude are. -/
theorem exists_digits (hne : m ≠ .zero) : ∃ digits : List Nat,
    digits ≠ [] ∧ (∀ d ∈ digits, d < 10) ∧ digits.head? ≠ some 0 ∧ digits.getLast? ≠ some 0 ∧
      number 10 digits = m.shortest.digits ∧
      ∀ l : Layout, l.magnitude m =
        l.place (digits.map spelling) (m.shortest.exponent + digits.length) := by
  obtain ⟨digits, htext, hdigits⟩ := exists_writing m.shortest.digits
  have hmod := Magnitude.digits_shortest_mod hne
  refine ⟨digits, hdigits.ne_nil, hdigits.lt, hdigits.head_ne fun h => ?_, fun hlast => ?_,
    hdigits.number_eq, fun l => ?_⟩
  · simp [h] at hmod
  · obtain ⟨before, rfl⟩ := List.getLast?_eq_some_iff.mp hlast
    rw [← hdigits.number_eq, number_append] at hmod
    simp at hmod
  · rw [magnitude, if_neg (mantissa_eq_zero_iff.not.mpr hne)]
    extract_lets d text
    rw [show text = digits.map spelling from htext, List.length_map]

/-- The decimal that a magnitude is written as. -/
def decimal (m : Magnitude) : Decimal := if m = .zero then ⟨0, 0⟩ else m.shortest

/-- The decimal that is spelled is a shortest one. -/
theorem is_shortest_decimal (m : Magnitude) : m.IsShortest (decimal m) := by
  unfold decimal
  split
  · next h => exact h ▸ Magnitude.is_shortest_zero
  · next h => exact Magnitude.is_shortest h

/-- The decimal that is spelled is the one that is searched for, except for zero. -/
theorem decimal_eq (hne : m ≠ .zero) : decimal m = m.shortest := if_neg hne

/-- Zero is spelled as the decimal zero. -/
theorem value_decimal_zero : (decimal .zero).value = 0 := by
  rw [decimal, if_pos rfl, Decimal.value, Nat.cast_zero, zero_mul]

/-- In every layout, a magnitude is written as a literal of its shortest decimal. -/
theorem literal_magnitude (l : Layout) (m : Magnitude) :
    DecimalLiteral (l.magnitude m) (decimal m).value := by
  by_cases hm : m = .zero
  · rw [hm, magnitude_zero, value_decimal_zero]
    split
    · have hfraction : Fraction ([0].map spelling) [0] := fraction_map_spelling (by simp)
      convert DecimalLiteral.pointed .zero hfraction .none using 1
      · rfl
      · simp
    · convert DecimalLiteral.integer .zero .none using 1
      · rfl
      · simp
  · obtain ⟨digits, hne, hlt, hhead, -, hnumber, hplace⟩ := exists_digits hm
    have h := literal_place hne hlt hhead l (m.shortest.exponent + digits.length)
    rw [decimal_eq hm]
    generalize m.shortest = d at *
    rwa [← hplace, add_sub_cancel_right, hnumber] at h

/-- In every layout, the text of a magnitude is read as the magnitude again. -/
theorem value_magnitude (l : Layout) (m : Magnitude) :
    value? (l.magnitude m) = some (.finite false m) := by
  obtain ⟨n, hrounds, hvalue⟩ := rounds_of_denotes (.decimal (literal_magnitude l m))
  rw [hvalue, hrounds.unique (.finite (is_shortest_decimal m).reads_back)]
  rfl

/-- A constant has no superfluous zeros, and an exponent only if it is large or small. -/
theorem tidy_magnitude (m : Magnitude) :
    ∃ hasExponent, Tidy hasExponent (constant.magnitude m) ∧
      (hasExponent ↔ 10 ^ 21 ≤ (decimal m).value ∨
        0 < (decimal m).value ∧ (decimal m).value < 10 ^ (-6 : ℤ)) := by
  by_cases hm : m = .zero
  · refine ⟨false, ?_, ?_⟩
    · have h : Tidy false ([0].map spelling ++ pointed []) :=
        .positional (by simp) (by simp) (.inl rfl) (by simp)
      rw [hm, magnitude_zero]
      exact h
    · rw [hm, value_decimal_zero]
      norm_num
  · obtain ⟨digits, hne, hlt, hhead, hlast, hnumber, hplace⟩ := exists_digits hm
    have htidy := tidy_place hne hlt hhead hlast (m.shortest.exponent + digits.length)
    rw [← hplace] at htidy
    refine ⟨_, htidy, ?_⟩
    rw [decimal_eq hm]
    generalize m.shortest = d at *
    -- The value has its first digit just behind the point.
    have hupper : d.value < 10 ^ (d.exponent + digits.length) := by
      rw [add_comm]
      exact Decimal.value_lt (hnumber ▸ number_lt (by norm_num) hlt)
    have hlower : 10 ^ (d.exponent + digits.length - 1) ≤ d.value := by
      obtain ⟨first, rest, rfl⟩ := List.exists_cons_of_ne_nil hne
      have h := Decimal.le_value (hnumber ▸ pow_le_number (by simpa using hhead))
      convert h using 2
      rw [List.length_cons]
      push_cast
      ring
    generalize d.exponent + digits.length = n at hupper hlower
    have hten : (1 : ℚ) < 10 := by norm_num
    have hpos : 0 < d.value := lt_of_lt_of_le (by positivity) hlower
    rw [decide_eq_true_iff, ← zpow_natCast]
    constructor
    · rintro (hn | hn)
      · exact .inr ⟨hpos, hupper.trans_le (zpow_le_zpow_right₀ hten.le hn)⟩
      · exact .inl ((zpow_le_zpow_right₀ hten.le (by omega)).trans hlower)
    · rintro (hlarge | ⟨-, hsmall⟩)
      · have h := (zpow_lt_zpow_iff_right₀ hten).mp (hlarge.trans_lt hupper)
        exact .inr h
      · have h := (zpow_lt_zpow_iff_right₀ hten).mp (hlower.trans_lt hsmall)
        omega

end Layout

namespace Double

open Layout

variable {x y : Double} {m n : Magnitude}

/-- Whether the number is below zero; negative zero is not. -/
def isBelowZero : Double → Bool
  | .nan => false
  | .infinite negative => negative
  | .finite negative m => negative && m != .zero

/-- The text of a number without a sign. -/
def unsignedText : Double → Text
  | .nan => Text.ofString "NaN"
  | .infinite _ => Text.ofString "Infinity"
  | .finite _ m => constant.magnitude m

/-- Whether a magnitude is zero can be told by its mantissa. -/
theorem mantissa_bne_zero : (m.mantissa != 0) = (m != .zero) := by
  rw [Bool.eq_iff_iff, bne_iff_ne, bne_iff_ne, Ne, mantissa_eq_zero_iff]

/-- A sign is written in front of what is below zero. -/
theorem to_text_eq (x : Double) :
    x.toText = (if x.isBelowZero then ['-'.toNat] else []) ++ x.unsignedText := by
  cases x with
  | nan => rfl
  | infinite negative => cases negative <;> rfl
  | finite negative m =>
      rw [toText, isBelowZero, mantissa_bne_zero]
      split <;> rfl

/-- The text without a sign does not start with one. -/
theorem head_unsigned_text (x : Double) : ∀ c ∈ x.unsignedText.head?, c ≠ '-'.toNat := by
  cases x with
  | nan => decide
  | infinite negative => exact (by decide : ∀ c ∈ (Text.ofString "Infinity").head?, c ≠ '-'.toNat)
  | finite negative m =>
      obtain ⟨_, htidy, -⟩ := tidy_magnitude m
      obtain ⟨d, hd, hhead⟩ := htidy.head
      intro c hc
      rw [unsignedText, hhead] at hc
      exact Option.some.inj hc ▸ (spelling_ne_sign hd).1

/-- No finite magnitude is spelled like infinity. -/
theorem magnitude_ne_infinity (m : Magnitude) :
    constant.magnitude m ≠ Text.ofString "Infinity" := by
  intro h
  obtain ⟨_, htidy, -⟩ := tidy_magnitude m
  obtain ⟨d, hd, hhead⟩ := htidy.head
  have hletter : ∀ d < 10, spelling d ≠ 'I'.toNat := by decide
  rw [h] at hhead
  exact hletter d hd (Option.some.inj hhead).symm

/-- Magnitudes that are spelled alike are the same. -/
theorem magnitude_injective (h : constant.magnitude m = constant.magnitude n) : m = n := by
  have hvalue := value_magnitude constant m
  rw [h, value_magnitude] at hvalue
  simpa using hvalue.symm

/-- Equal texts have equal signs and are equal without them. -/
theorem to_text_eq_iff : x.toText = y.toText ↔
    x.isBelowZero = y.isBelowZero ∧ x.unsignedText = y.unsignedText := by
  rw [to_text_eq, to_text_eq]
  have hx := head_unsigned_text x
  have hy := head_unsigned_text y
  have hsign : ∀ t u : Text, (∀ c ∈ t.head?, c ≠ '-'.toNat) → t ≠ '-'.toNat :: u := by
    rintro _ u h rfl
    exact h _ rfl rfl
  cases x.isBelowZero <;> cases y.isBelowZero
  · simp
  · simpa using hsign _ _ hx
  · simpa using (hsign _ _ hy).symm
  · simp

/-- Numbers have one text exactly if they are equal. -/
theorem equals_iff (hx : x ≠ .nan) (hy : y ≠ .nan) : x.toText = y.toText ↔ x.equals y := by
  rw [to_text_eq_iff]
  cases x with
  | nan => exact absurd rfl hx
  | infinite a =>
      cases y with
      | nan => exact absurd rfl hy
      | infinite b => simp [isBelowZero, unsignedText, equals]
      | finite b n =>
          simp [unsignedText, equals, (magnitude_ne_infinity n).symm]
  | finite a m =>
      cases y with
      | nan => exact absurd rfl hy
      | infinite b => simp [unsignedText, equals, magnitude_ne_infinity m]
      | finite b n =>
          have hunsigned : constant.magnitude m = constant.magnitude n ↔ m = n :=
            ⟨magnitude_injective, congrArg _⟩
          simp only [isBelowZero, unsignedText, equals, hunsigned]
          by_cases hmn : m = n
          · subst hmn
            by_cases hm : m = .zero
            · simp [hm, Magnitude.zero]
            · have hmantissa := mantissa_eq_zero_iff.not.mpr hm
              have hbne : (m != .zero) = true := bne_iff_ne.mpr hm
              simp [hbne, hmantissa]
          · simp [hmn]

/-- The spelling without the sign does not tell a number from its opposite. -/
theorem unsigned_text_negate (x : Double) : x.negate.unsignedText = x.unsignedText := by
  cases x <;> rfl

/-- The text of every number. The size of a number is written as a decimal literal of the value of
its shortest decimal, as it is in reports, so it is read as that size again; its zeros are never
superfluous, and it has an exponent from 10^21 on and below 10^-6 only. Zeros have no sign, what is
below zero has one in front, and two numbers have the same text exactly if they are equal. -/
theorem text_of_numbers :
    (∀ m : Magnitude, ∃ d : Decimal, m.IsShortest d ∧
      DecimalLiteral (ReportValue.numberText (.finite false m)) d.value ∧
      DecimalLiteral (toText (.finite false m)) d.value ∧
      value? (toText (.finite false m)) = some (.finite false m) ∧
      ∃ hasExponent, Tidy hasExponent (toText (.finite false m)) ∧
        (hasExponent ↔ 10 ^ 21 ≤ d.value ∨ 0 < d.value ∧ d.value < 10 ^ (-6 : ℤ))) ∧
    (∀ negative, toText (.finite negative .zero) = Text.ofString "0") ∧
    (∀ x : Double, x.isBelowZero → x.toText = '-'.toNat :: x.negate.toText) ∧
    ∀ x y : Double, x ≠ .nan → y ≠ .nan → (x.toText = y.toText ↔ x.equals y) := by
  refine ⟨fun m => ?_, fun negative => ?_, fun x hx => ?_, fun x y => equals_iff⟩
  · exact ⟨decimal m, is_shortest_decimal m, literal_magnitude report m,
      literal_magnitude constant m, value_magnitude constant m, tidy_magnitude m⟩
  · cases negative <;> rfl
  · have hnegate : x.negate.isBelowZero = false := by
      cases x <;> simp_all [isBelowZero, negate]
    rw [to_text_eq, to_text_eq x.negate, hx, hnegate, unsigned_text_negate]
    rfl

/-- Minus one half has the text of one half behind a sign, and the two zeros have one text. -/
theorem text_of_numbers_half :
    let half : Magnitude := ⟨2 ^ 52, 1021, by decide⟩
    isBelowZero (.finite true half) ∧
      toText (.finite true half) = '-'.toNat :: toText (.finite false half) ∧
      (toText (.finite true .zero) = toText (.finite false .zero) ↔
        equals (.finite true .zero) (.finite false .zero)) :=
  ⟨by decide, text_of_numbers.2.2.1 _ (by decide),
    text_of_numbers.2.2.2 _ _ (by simp) (by simp)⟩

end Double

end StaticLiteral
