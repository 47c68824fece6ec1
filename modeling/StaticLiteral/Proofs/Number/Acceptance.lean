import Mathlib
import StaticLiteral.Proofs.Number.Proper
import StaticLiteral.Proofs.Number.Reading
import StaticLiteral.Proofs.Resolution.Aggregate

/-!
# What is read without being a literal

A text is a numeric literal exactly if it is read and is proper (`denotes_iff`). The readers are
inverted on the folded text, and its pieces are found again in the text itself, where the separators
between digits have to be put back.
-/

namespace StaticLiteral

open NumericLiteral

namespace Numeral

variable {radix : Nat} {digits fraction : List Nat} {t rest x : Text} {e : Int}

/-! ## What is read from characters of literals -/

/-- Digits that are read are spelled as they are. -/
theorem group_eq_some (hmem : ∀ c ∈ t, c ∈ smallAlphabet) (hradix : radix ≤ 16)
    (h : group? radix t = some digits) :
    digits ≠ [] ∧ (∀ d ∈ digits, d < radix) ∧ t = digits.map spelling := by
  have hspelling : ∀ c ∈ smallAlphabet, (digit? c).all fun d => 16 ≤ d || c = spelling d := by
    decide
  have hread : ∀ (t : Text) (digits : List Nat), (∀ c ∈ t, c ∈ smallAlphabet) →
      (t.mapM fun c => (digit? c).filter (· < radix)) = some digits →
        (∀ d ∈ digits, d < radix) ∧ t = digits.map spelling := by
    intro t
    induction t with
    | nil => simp_all
    | cons c t ih =>
        intro digits hmem h
        rw [List.forall_mem_cons] at hmem
        simp only [List.mapM_cons, Option.bind_eq_bind, Option.bind_eq_some_iff,
          Option.filter_eq_some_iff, decide_eq_true_eq] at h
        obtain ⟨d, ⟨hd, hlt⟩, more, hmore, h⟩ := h
        obtain rfl := Option.some.inj h
        obtain ⟨hall, rfl⟩ := ih more hmem.2 hmore
        have hc := hspelling c hmem.1
        rw [hd] at hc
        simp only [Option.all_some, Bool.or_eq_true, decide_eq_true_eq] at hc
        obtain rfl := hc.resolve_left (by omega)
        exact ⟨by simpa using ⟨hlt, hall⟩, rfl⟩
  unfold group? at h
  split at h
  · cases h
  · next hne =>
      obtain ⟨hlt, rfl⟩ := hread t digits hmem h
      exact ⟨by simpa using hne, hlt, rfl⟩

/-- The digits at the front are spelled as they are. -/
theorem leading_digits_eq (hmem : ∀ c ∈ t, c ∈ smallAlphabet)
    (h : leadingDigits t = (digits, rest)) :
    (∀ d ∈ digits, d < 10) ∧ t = digits.map spelling ++ rest := by
  have hspelling : ∀ c ∈ smallAlphabet,
      (Text.decimalDigit? c).all fun d => d < 10 && c = spelling d := by decide
  induction t generalizing digits with
  | nil =>
      obtain ⟨rfl, rfl⟩ := Prod.mk.inj h
      simp
  | cons c t ih =>
      rw [List.forall_mem_cons] at hmem
      have hc := hspelling c hmem.1
      unfold leadingDigits at h
      split at h
      · next d hd =>
          rw [hd] at hc
          simp only [Option.all_some, Bool.and_eq_true, decide_eq_true_eq] at hc
          obtain ⟨rfl, hrest⟩ := Prod.mk.inj h
          obtain ⟨hlt, heq⟩ := ih hmem.2 (Prod.ext rfl hrest)
          obtain ⟨hten, rfl⟩ := hc
          exact ⟨by simpa using ⟨hten, hlt⟩, congrArg _ heq⟩
      · obtain ⟨rfl, rfl⟩ := Prod.mk.inj h
        simp

/-- Behind the mark and the sign of an exponent there are digits only. -/
theorem exponent_digits_eq_some {body : Text} {negative : Bool}
    (hbody : ∀ c ∈ body, c ∈ smallAlphabet)
    (h : (match leadingDigits body with
        | ([], _) => none
        | (digits, []) => some (withSign negative (value 10 digits))
        | _ => none) = some e) :
    ∃ digits : List Nat, digits ≠ [] ∧ (∀ d ∈ digits, d < 10) ∧ body = digits.map spelling := by
  generalize hdigits : leadingDigits body = read at h
  obtain ⟨digits, rest⟩ := read
  obtain ⟨hlt, heq⟩ := leading_digits_eq hbody hdigits
  cases digits with
  | nil => cases h
  | cons d digits =>
      cases rest with
      | nil => exact ⟨_, List.cons_ne_nil _ _, hlt, heq.trans (List.append_nil _)⟩
      | cons c rest => cases h

/-- An exponent part that is read is a mark, a sign that may be missing, and digits. -/
theorem exponent_eq_some (hmem : ∀ c ∈ x, c ∈ smallAlphabet) (h : exponent? x = some e) :
    x = [] ∨ ∃ (s : Text) (negative : Bool) (digits : List Nat), Sign s negative ∧ digits ≠ [] ∧
      (∀ d ∈ digits, d < 10) ∧ x = 'e'.toNat :: (s ++ digits.map spelling) := by
  cases x with
  | nil => exact .inl rfl
  | cons c x =>
      obtain rfl := head_of_exponent h c rfl
      rw [List.forall_mem_cons] at hmem
      unfold exponent? at h
      dsimp only at h
      rw [if_pos rfl] at h
      cases x with
      | nil => cases h
      | cons sign more =>
          rw [List.forall_mem_cons] at hmem
          by_cases hminus : sign = '-'.toNat
          · subst hminus
            obtain ⟨digits, hne, hlt, rfl⟩ := exponent_digits_eq_some hmem.2.2 h
            exact .inr ⟨_, _, digits, .minus, hne, hlt, rfl⟩
          by_cases hplus : sign = '+'.toNat
          · subst hplus
            obtain ⟨digits, hne, hlt, rfl⟩ := exponent_digits_eq_some hmem.2.2 h
            exact .inr ⟨_, _, digits, .plus, hne, hlt, rfl⟩
          · simp only [hminus, hplus, if_false] at h
            obtain ⟨digits, hne, hlt, heq⟩ :=
              exponent_digits_eq_some (List.forall_mem_cons.mpr hmem.2) h
            exact .inr ⟨_, _, digits, .none, hne, hlt, congrArg _ heq⟩

/-- A decimal number is digits, with a point or without one, and an exponent part. -/
theorem unsigned_eq_some {m : Option Magnitude} (hmem : ∀ c ∈ t, c ∈ smallAlphabet)
    (h : unsigned? t = some m) : ∃ (digits fraction : List Nat) (x : Text) (e : Int),
      (∀ d ∈ digits, d < 10) ∧ (∀ d ∈ fraction, d < 10) ∧ exponent? x = some e ∧
        (t = digits.map spelling ++ x ∧ digits ≠ [] ∨
          t = digits.map spelling ++ '.'.toNat :: (fraction.map spelling ++ x) ∧
            (digits = [] → fraction ≠ [])) := by
  unfold unsigned? at h
  generalize hwhole : leadingDigits t = read at h
  obtain ⟨digits, rest⟩ := read
  obtain ⟨hlt, rfl⟩ := leading_digits_eq hmem hwhole
  have hrest : ∀ c ∈ rest, c ∈ smallAlphabet := fun c hc => hmem c (by simp [hc])
  by_cases hpoint : ∃ more, rest = '.'.toNat :: more
  · obtain ⟨more, rfl⟩ := hpoint
    simp only [if_true] at h
    generalize hfraction : leadingDigits more = read at h
    obtain ⟨fraction, x⟩ := read
    obtain ⟨hlt', rfl⟩ := leading_digits_eq (fun c hc => hrest c (by simp [hc])) hfraction
    split at h
    · cases h
    · next hne =>
        obtain ⟨e, hx, -⟩ := Option.bind_eq_some_iff.mp h
        exact ⟨digits, fraction, x, e, hlt, hlt', hx, .inr ⟨rfl, by simpa using hne⟩⟩
  · have hx : (if digits.isEmpty && ([] : List Nat).isEmpty then none else do
        let e ← exponent? rest
        some (Rounding.decimal? (value 10 (digits ++ [])) (e - ([] : List Nat).length))) =
          some m := by
      cases rest with
      | nil => exact h
      | cons c more =>
          have hc : c ≠ '.'.toNat := fun hc => hpoint ⟨more, hc ▸ rfl⟩
          simp only [hc, if_false] at h
          exact h
    split at hx
    · cases hx
    · next hne =>
        obtain ⟨e, he, -⟩ := Option.bind_eq_some_iff.mp hx
        exact ⟨digits, [], rest, e, hlt, by simp, he, .inl ⟨rfl, by simpa using hne⟩⟩

end Numeral

namespace NumericLiteral

open Numeral

variable {radix d : Nat} {c : CodePoint} {t u x p s : Text} {digits fraction : List Nat} {e : Int}

/-! ## Pieces of folded texts -/

/-- Separators are dropped, and everything else is kept as one character. -/
theorem folded_singleton (c : CodePoint) : c = '_'.toNat ∨ ∃ c', folded [c] = [c'] := by
  by_cases hc : c = '_'.toNat
  · exact .inl hc
  · have hkept : Text.withoutSeparators [c] = [c] := List.filter_eq_self.mpr (by simpa using hc)
    exact .inr ⟨_, by rw [folded, hkept]; rfl⟩

/-- Only a separator is folded away. -/
theorem eq_separator (h : folded [c] = []) : c = '_'.toNat := by
  rcases folded_singleton c with hc | ⟨c', hc⟩
  · exact hc
  · rw [hc] at h
    cases h

/-- A character of a folded text is one of the text. -/
theorem folded_split (h : folded t = u ++ c :: s) : ∃ (t₁ : Text) (c' : CodePoint) (t₂ : Text),
    t = t₁ ++ c' :: t₂ ∧ folded t₁ = u ∧ folded [c'] = [c] ∧ folded t₂ = s := by
  induction t generalizing u with
  | nil => simp at h
  | cons first t ih =>
      rcases folded_singleton first with rfl | ⟨c', hfirst⟩
      · rw [folded_separator] at h
        obtain ⟨t₁, c', t₂, rfl, hu, hc, hs⟩ := ih h
        exact ⟨'_'.toNat :: t₁, c', t₂, rfl, by rwa [folded_separator], hc, hs⟩
      · rw [folded_cons, hfirst] at h
        cases u with
        | nil =>
            obtain ⟨rfl, hs⟩ := List.cons.inj h
            exact ⟨[], first, t, rfl, rfl, hfirst, hs⟩
        | cons c'' u =>
            obtain ⟨rfl, htail⟩ := List.cons.inj h
            obtain ⟨t₁, c', t₂, rfl, hu, hc, hs⟩ := ih htail
            exact ⟨first :: t₁, c', t₂, rfl, by rw [folded_cons, hfirst, hu]; rfl, hc, hs⟩

/-- What is folded to a digit is that digit. -/
theorem is_digit_of_folded (hmem : c ∈ alphabet) (hlt : d < radix) (hradix : radix ≤ 16)
    (h : folded [c] = [spelling d]) : IsDigit radix c d := by
  have hforms : ∀ c ∈ alphabet, ∀ d : Nat, d < 16 → folded [c] = [spelling d] →
      d < 10 ∧ c = '0'.toNat + d ∨ 10 ≤ d ∧ c = 'a'.toNat + (d - 10) ∨
        10 ≤ d ∧ c = 'A'.toNat + (d - 10) := by decide
  rcases hforms c hmem d (by omega) h with ⟨hten, rfl⟩ | ⟨hten, rfl⟩ | ⟨hten, rfl⟩
  · exact .figure hlt hten
  · obtain ⟨k, rfl⟩ := Nat.exists_eq_add_of_le hten
    rw [Nat.add_sub_cancel_left]
    exact .lower hlt
  · obtain ⟨k, rfl⟩ := Nat.exists_eq_add_of_le hten
    rw [Nat.add_sub_cancel_left]
    exact .upper hlt

/-- Separators are neither at the ends nor next to each other. -/
structure Spaced (t : Text) : Prop where
  head : t.head? ≠ some '_'.toNat
  last : t.getLast? ≠ some '_'.toNat
  single (before after : Text) : t ≠ before ++ '_'.toNat :: '_'.toNat :: after

/-- A part whose ends are not next to digits has its separators inside. -/
theorem spaced_of_separated (h : Separated radix (p ++ (t ++ s)))
    (hseparator : ¬ IsDigitOf radix '_'.toNat) (hp : ∀ c ∈ p.getLast?, ¬ IsDigitOf radix c)
    (hs : ∀ c ∈ s.head?, ¬ IsDigitOf radix c) : Spaced t where
  head := by
    intro hhead
    obtain ⟨rest, rfl⟩ := List.head?_eq_some_iff.mp hhead
    obtain ⟨⟨c, hc, hdigit⟩, -⟩ := h p _ (rest ++ s) rfl rfl
    exact hp c hc hdigit
  last := by
    intro hlast
    obtain ⟨init, rfl⟩ := List.getLast?_eq_some_iff.mp hlast
    obtain ⟨-, c, hc, hdigit⟩ := h (p ++ init) _ s (by simp) rfl
    exact hs c hc hdigit
  single := by
    rintro before after rfl
    obtain ⟨-, c, hc, hdigit⟩ := h (p ++ before) _ ('_'.toNat :: after ++ s) (by simp) rfl
    exact hseparator (Option.some.inj hc ▸ hdigit)

/-- What is left behind a part keeps its separators inside, if it does not begin with one. -/
theorem Spaced.tail (h : Spaced (p ++ t)) (hne : t ≠ []) (hhead : t.head? ≠ some '_'.toNat) :
    Spaced t where
  head := hhead
  last := by
    have hlast := h.last
    rwa [List.getLast?_append_of_ne_nil _ hne] at hlast
  single := by
    rintro before after rfl
    exact h.single (p ++ before) after (by simp)

/-- Only separators are folded to nothing, and they are not at the end. -/
theorem eq_nil_of_folded (hlast : (p ++ t).getLast? ≠ some '_'.toNat) (hfolded : folded t = []) :
    t = [] := by
  rcases List.eq_nil_or_concat t with rfl | ⟨init, c, rfl⟩
  · rfl
  · rw [List.concat_eq_append, folded_append, List.append_eq_nil_iff] at hfolded
    exact absurd (by simp [eq_separator hfolded.2]) hlast

/-- Digits with separators between them. -/
theorem digits_of_spaced (hradix : radix ≤ 16) (hmem : ∀ c ∈ t, c ∈ alphabet) (hne : digits ≠ [])
    (hlt : ∀ d ∈ digits, d < radix) (hfolded : folded t = digits.map spelling) (h : Spaced t) :
    Digits radix t digits := by
  induction digits generalizing t with
  | nil => exact absurd rfl hne
  | cons d digits ih =>
      rw [List.forall_mem_cons] at hlt
      cases t with
      | nil => cases hfolded
      | cons c t =>
          rw [List.forall_mem_cons] at hmem
          rcases folded_singleton c with rfl | ⟨c', hc⟩
          · exact absurd rfl h.head
          rw [folded_cons, hc] at hfolded
          obtain ⟨rfl, htail⟩ := List.cons.inj hfolded
          have hdigit := is_digit_of_folded hmem.1 hlt.1 hradix hc
          by_cases hdigits : digits = []
          · subst hdigits
            obtain rfl := eq_nil_of_folded (p := [c]) h.last htail
            exact .single hdigit
          cases t with
          | nil => exact absurd (List.map_eq_nil_iff.mp htail.symm) hdigits
          | cons c₂ t =>
              by_cases hseparator : c₂ = '_'.toNat
              · subst hseparator
                rw [folded_separator] at htail
                have hnext : t ≠ [] := by
                  rintro rfl
                  exact hdigits (List.map_eq_nil_iff.mp htail.symm)
                have hspaced : Spaced t := by
                  refine h.tail (p := [c, '_'.toNat]) hnext fun hhead => ?_
                  obtain ⟨rest, rfl⟩ := List.head?_eq_some_iff.mp hhead
                  exact h.single [c] rest rfl
                have hmem' := fun c hc => hmem.2 c (List.mem_cons_of_mem _ hc)
                exact .separated hdigit (ih hmem' hdigits hlt.2 htail hspaced)
              · have hspaced : Spaced (c₂ :: t) :=
                  h.tail (p := [c]) (List.cons_ne_nil _ _) (by simpa using hseparator)
                exact .next hdigit (ih hmem.2 hdigits hlt.2 htail hspaced)

/-! ## Decimal literals -/

/-- Digits of a decimal literal, at the place where they are. -/
theorem digits_of_place (h : Separated 10 (p ++ (t ++ s))) (hp : ∀ c ∈ p.getLast?, ¬ IsDigitOf 10 c)
    (hs : ∀ c ∈ s.head?, EndsWhole c) (hmem : ∀ c ∈ t, c ∈ alphabet) (hne : digits ≠ [])
    (hlt : ∀ d ∈ digits, d < 10) (hfolded : folded t = digits.map spelling) : Digits 10 t digits :=
  digits_of_spaced (by norm_num) hmem hne hlt hfolded
    (spaced_of_separated h not_digit_separator hp fun c hc => not_figure_of_ends (hs c hc))

/-- A part between no digits that folds to figures is the fraction of a literal. -/
theorem fraction_of_place (h : Separated 10 (p ++ (t ++ s)))
    (hp : ∀ c ∈ p.getLast?, ¬ IsDigitOf 10 c) (hs : ∀ c ∈ s.head?, EndsWhole c)
    (hmem : ∀ c ∈ t, c ∈ alphabet) (hlt : ∀ d ∈ digits, d < 10)
    (hfolded : folded t = digits.map spelling) : Fraction t digits := by
  by_cases hne : digits = []
  · subst hne
    have hspaced : Spaced t :=
      spaced_of_separated h not_digit_separator hp fun c hc => not_figure_of_ends (hs c hc)
    rw [eq_nil_of_folded (p := []) hspaced.last hfolded]
    exact .none
  · exact .digits (digits_of_place h hp hs hmem hne hlt hfolded)

/-- The digits behind the mark of an exponent and its sign. -/
theorem digits_at_end (h : Separated 10 (p ++ c :: t)) (hc : ¬ IsDigitOf 10 c)
    (hmem : ∀ c ∈ t, c ∈ alphabet) (hne : digits ≠ []) (hlt : ∀ d ∈ digits, d < 10)
    (hfolded : folded t = digits.map spelling) : Digits 10 t digits := by
  refine digits_of_place (p := p ++ [c]) (s := []) (by simpa using h) ?_ (by simp) hmem hne hlt
    hfolded
  simpa using hc

/-- Digits behind a sign, which is directly behind the mark. -/
theorem digits_behind_sign {mark : CodePoint} (hc : c = '+'.toNat ∨ c = '-'.toNat)
    (hmem : ∀ c ∈ t, c ∈ alphabet) (hsep : Separated 10 (p ++ mark :: t))
    (hsigns : SignsPlaced (p ++ mark :: t)) (hne : digits ≠ []) (hlt : ∀ d ∈ digits, d < 10)
    (hfolded : folded t = c :: digits.map spelling) : ∃ t', t = c :: t' ∧ Digits 10 t' digits := by
  have hkept : ∀ c' ∈ alphabet, (folded [c'] = ['+'.toNat] → c' = '+'.toNat) ∧
    (folded [c'] = ['-'.toNat] → c' = '-'.toNat) := by decide
  have hdigit : ¬ IsDigitOf 10 c := not_figure (by rcases hc with rfl | rfl <;> decide)
  obtain ⟨before, c', after, rfl, hnone, hc', hdigits⟩ := folded_split (u := []) hfolded
  obtain rfl : c' = c := by
    rcases hc with rfl | rfl
    · exact (hkept c' (hmem c' (by simp))).1 hc'
    · exact (hkept c' (hmem c' (by simp))).2 hc'
  have hbefore : before = [] := by
    obtain ⟨⟨a, ha, hmark⟩, -⟩ := hsigns (p ++ mark :: before) c' after (by simp) hc
    refine eq_nil_of_folded (p := p ++ [mark]) (fun hlast => ?_) hnone
    rw [List.append_assoc, List.singleton_append, ha] at hlast
    obtain rfl := Option.some.inj hlast
    exact absurd hmark (by decide)
  subst hbefore
  refine ⟨after, rfl, ?_⟩
  refine digits_at_end (p := p ++ [mark]) (by simpa using hsep) hdigit ?_ hne hlt hdigits
  exact fun c hc => hmem c (by simp [hc])

/-- The exponent part of a text whose folded form has one. -/
theorem exists_exponent (hmem : ∀ c ∈ t, c ∈ alphabet) (hsep : Separated 10 (p ++ t))
    (hsigns : SignsPlaced (p ++ t)) (hfolded : folded t = u ++ x) (hx : exponent? x = some e) :
    ∃ t₁ y, t = t₁ ++ y ∧ folded t₁ = u ∧ ∃ e', Exponent y e' := by
  have hsmall : ∀ c ∈ x, c ∈ smallAlphabet := fun c hc =>
    folded_mem hmem c (by rw [hfolded]; exact List.mem_append_right _ hc)
  rcases exponent_eq_some hsmall hx with rfl | ⟨sign, negative, digits, hsign, hne, hlt, rfl⟩
  · exact ⟨t, [], by simp, by simpa using hfolded, 0, .none⟩
  obtain ⟨t₁, mark, t₂, rfl, hu, hmark, hrest⟩ := folded_split hfolded
  have hmarks : ∀ c ∈ alphabet, folded [c] = ['e'.toNat] → c = 'e'.toNat ∨ c = 'E'.toNat := by
    decide
  have hmark' := hmarks mark (hmem mark (by simp)) hmark
  have hdigit : ¬ IsDigitOf 10 mark := not_figure (by rcases hmark' with rfl | rfl <;> decide)
  have hmem₂ : ∀ c ∈ t₂, c ∈ alphabet := fun c hc => hmem c (by simp [hc])
  rw [← List.append_assoc] at hsep hsigns
  refine ⟨t₁, mark :: t₂, rfl, hu, ?_⟩
  cases hsign with
  | none => exact ⟨_, .power hmark' .none (digits_at_end hsep hdigit hmem₂ hne hlt hrest)⟩
  | plus =>
      obtain ⟨t', rfl, hdigits⟩ := digits_behind_sign (.inl rfl) hmem₂ hsep hsigns hne hlt hrest
      exact ⟨_, .power hmark' .plus hdigits⟩
  | minus =>
      obtain ⟨t', rfl, hdigits⟩ := digits_behind_sign (.inr rfl) hmem₂ hsep hsigns hne hlt hrest
      exact ⟨_, .power hmark' .minus hdigits⟩

/-- Digits consist of digits and separators. -/
theorem digits_mem (h : Digits radix t digits) : ∀ c ∈ t, c = '_'.toNat ∨ IsDigitOf radix c := by
  induction h with
  | single h => simpa using .inr ⟨_, h⟩
  | next h _ ih => simpa using ⟨.inr ⟨_, h⟩, ih⟩
  | separated h _ ih => simpa using ⟨.inr ⟨_, h⟩, ih⟩

/-- Digits without separators are digits one by one. -/
theorem forall₂_of_digits (h : Digits radix t digits) (hseparator : '_'.toNat ∉ t) :
    List.Forall₂ (IsDigit radix) t digits := by
  induction h with
  | single h => exact .cons h .nil
  | next h _ ih => exact .cons h (ih fun hmem => hseparator (List.mem_cons_of_mem _ hmem))
  | separated h _ _ => exact absurd (by simp) hseparator

/-- Digits below eight are octal. -/
theorem forall_octal (h : List.Forall₂ (IsDigit 10) t digits) (hlt : ∀ d ∈ digits, d < 8) :
    ∀ c ∈ t, IsDigitOf 8 c := by
  induction h with
  | nil => simp
  | cons hc _ ih =>
      rw [List.forall_mem_cons] at hlt ⊢
      obtain ⟨-, rfl⟩ := (is_digit_iff le_rfl).mp hc
      exact ⟨⟨_, .figure hlt.1 (by omega)⟩, ih hlt.2⟩

/-- Digits behind a zero in front of a proper text are not separated. -/
theorem not_mem_of_proper (hproper : IsProper ('0'.toNat :: (t ++ s)))
    (hmem : ∀ c ∈ t, c = '_'.toNat ∨ IsDigitOf 10 c) : '_'.toNat ∉ t := by
  intro hseparator
  obtain ⟨figures, rest, rfl, hfirst⟩ := List.eq_append_cons_of_mem hseparator
  refine hproper.unseparated figures (rest ++ s) (fun c hc => ?_) (by simp)
  refine (hmem c (by simp [hc])).resolve_left ?_
  rintro rfl
  exact hfirst hc

/-- The whole part of a proper text that is not octal. -/
theorem whole_of_proper (hproper : IsProper (t ++ s)) (hs : ∀ c ∈ s.head?, EndsWhole c)
    (hdigits : Digits 10 t digits) (hoctal : s = [] → ¬ isLegacyOctal (folded t)) :
    Whole t digits := by
  by_cases hhead : digits.head? = some 0
  · obtain ⟨more, rfl⟩ := List.head?_eq_some_iff.mp hhead
    have hfolded := (hdigits.folded (by norm_num)).2
    have hzero : ∀ c, IsDigit 10 c 0 → c = '0'.toNat := fun c hc => ((is_digit_iff le_rfl).mp hc).2
    cases hdigits with
    | single h =>
        rw [hzero _ h]
        exact .zero
    | separated h _ =>
        rw [hzero _ h] at hproper
        exact absurd rfl (hproper.unseparated [] _ (by simp))
    | @next c _ t _ h rest =>
        obtain rfl := hzero _ h
        have hplain := forall₂_of_digits rest (not_mem_of_proper hproper (digits_mem rest))
        by_cases hdecimal : ∃ d ∈ more, 8 ≤ d
        · exact .leadingZero hplain hdecimal
        · -- Octal digits are followed by nothing, and then the text is octal.
          simp only [not_exists, not_and, not_le] at hdecimal
          have hfigures := forall_octal hplain hdecimal
          have hne : t ≠ [] := by
            rintro rfl
            cases rest
          have hnil : s = [] := by
            cases s with
            | nil => rfl
            | cons c s => exact absurd (hs c rfl) (hproper.octal hne hfigures rfl c rfl)
          refine absurd ?_ (hoctal hnil)
          rw [hfolded]
          exact is_legacy_octal_map rest.ne_nil hdecimal
  · exact .digits hdigits hhead

/-- A proper text that is read as a decimal number is a decimal literal. -/
theorem decimal_of_proper (hproper : IsProper t) (hradix : digitRadix t = 10)
    (hoctal : ¬ isLegacyOctal (folded t)) (h : (unsigned? (folded t)).isSome) :
    ∃ q, DecimalLiteral t q := by
  have hmem := hproper.characters
  have hsep := hproper.separators
  rw [hradix] at hsep
  obtain ⟨m, hm⟩ := Option.isSome_iff_exists.mp h
  obtain ⟨digits, fraction, x, e, hlt, hlt', hx, ⟨hfolded, hne⟩ | ⟨hfolded, hne⟩⟩ :=
    unsigned_eq_some (folded_mem hmem) hm
  · obtain ⟨t₁, y, rfl, hwhole, e', hexponent⟩ :=
      exists_exponent (p := []) hmem hsep hproper.signs hfolded hx
    have hends := exponent_ends hexponent
    have hdigits := digits_of_place (p := []) hsep (by simp) hends
      (fun c hc => hmem c (by simp [hc])) hne hlt hwhole
    refine ⟨_, .integer (whole_of_proper hproper hends hdigits ?_) hexponent⟩
    rintro rfl
    rwa [List.append_nil] at hoctal
  · obtain ⟨t₁, point, t₂, rfl, hwhole, hpoint, hrest⟩ := folded_split hfolded
    have hkept : ∀ c ∈ alphabet, folded [c] = ['.'.toNat] → c = '.'.toNat := by decide
    obtain rfl := hkept point (hmem point (by simp)) hpoint
    have hmem₂ : ∀ c ∈ t₂, c ∈ alphabet := fun c hc => hmem c (by simp [hc])
    obtain ⟨t₃, y, rfl, hpart, e', hexponent⟩ :=
      exists_exponent (p := t₁ ++ ['.'.toNat]) hmem₂ (by simpa using hsep)
        (by simpa using hproper.signs) hrest hx
    have hfraction : Fraction t₃ fraction :=
      fraction_of_place (p := t₁ ++ ['.'.toNat]) (s := y) (by simpa using hsep)
        (by simpa using not_figure_of_ends (.inl rfl)) (exponent_ends hexponent)
        (fun c hc => hmem₂ c (by simp [hc])) hlt' hpart
    have hmem₁ : ∀ c ∈ t₁, c ∈ alphabet := fun c hc => hmem c (by simp [hc])
    by_cases hdigits : digits = []
    · subst hdigits
      have hnil : t₁ = [] := by
        have h := fraction_of_place (p := []) hsep (by simp) point_ends hmem₁ hlt hwhole
        cases h with
        | none => rfl
        | digits h => exact absurd rfl h.ne_nil
      subst hnil
      cases hfraction with
      | none => exact absurd rfl (hne rfl)
      | digits hfraction => exact ⟨_, .fraction hfraction hexponent⟩
    · have hdigits' := digits_of_place (p := []) hsep (by simp) point_ends hmem₁ hdigits hlt hwhole
      have hwhole' := whole_of_proper hproper point_ends hdigits' (by simp)
      exact ⟨_, .pointed hwhole' hfraction hexponent⟩

/-! ## Integers -/

/-- The first character of a folded text is the first one of the text, unless a separator is. -/
theorem cons_of_folded (h : folded t = c :: u) (hhead : t.head? ≠ some '_'.toNat) :
    ∃ c' t', t = c' :: t' ∧ folded [c'] = [c] ∧ folded t' = u := by
  cases t with
  | nil => cases h
  | cons c' t =>
      rcases folded_singleton c' with rfl | ⟨small, hc⟩
      · exact absurd rfl hhead
      · rw [folded_cons, hc] at h
        obtain ⟨rfl, htail⟩ := List.cons.inj h
        exact ⟨c', t, rfl, hc, htail⟩

/-- A proper text does not begin with a separator. -/
theorem IsProper.head_ne (h : IsProper t) : t.head? ≠ some '_'.toNat := by
  intro hhead
  obtain ⟨rest, rfl⟩ := List.head?_eq_some_iff.mp hhead
  obtain ⟨⟨c, hc, -⟩, -⟩ := h.separators [] _ rest rfl rfl
  cases hc

/-- A sign is folded to itself, and nothing else is folded to one. -/
theorem sign_of_folded (hmem : c ∈ alphabet) {c' : CodePoint} (hc : folded [c] = [c'])
    (hsign : c' = '-'.toNat ∨ c' = '+'.toNat) : c = '+'.toNat ∨ c = '-'.toNat := by
  have hsigns : ∀ c ∈ alphabet, folded [c] = ['-'.toNat] ∨ folded [c] = ['+'.toNat] →
    c = '+'.toNat ∨ c = '-'.toNat := by decide
  refine hsigns c hmem ?_
  rcases hsign with rfl | rfl
  · exact .inl hc
  · exact .inr hc

/-- Only a zero is folded to a zero. -/
theorem zero_of_folded (hmem : c ∈ alphabet) (hc : folded [c] = ['0'.toNat]) : c = '0'.toNat := by
  have hzero : ∀ c ∈ alphabet, folded [c] = ['0'.toNat] → c = '0'.toNat := by decide
  exact hzero c hmem hc

/-- What is folded to a small mark of a radix is a mark of this radix. -/
theorem mark_of_folded (hmem : c ∈ alphabet) {small : CodePoint} (hc : folded [c] = [small])
    (hmark : (small, radix) ∈ smallMarks) : (c, radix) ∈ radixMarks := by
  have hmarks : ∀ c ∈ alphabet, ∀ mark ∈ smallMarks, folded [c] = [mark.1] →
    (c, mark.2) ∈ radixMarks := by decide
  exact hmarks c hmem _ hmark hc

/-- A mark that would be skipped is a zero and a small mark. -/
theorem mark_of_radix_mark (hmem : ∀ c ∈ t, c ∈ smallAlphabet)
    (h : radixMark? t = some (radix, s)) :
    ∃ c rest, t = '0'.toNat :: c :: rest ∧ (c, radix) ∈ smallMarks := by
  have hzero : ∀ c ∈ smallAlphabet, Text.decimalDigit? c = some 0 → c = '0'.toNat := by decide
  have hletter : ∀ c ∈ smallAlphabet,
      (radixLetter? c).all fun radix => (c, radix) ∈ smallMarks := by
    decide
  match t with
  | [] | [_] => cases h
  | z :: c :: rest =>
      simp only [List.forall_mem_cons] at hmem
      unfold radixMark? at h
      dsimp only at h
      split at h
      · next hz =>
          obtain ⟨marked, hmarked, heq⟩ := Option.map_eq_some_iff.mp h
          obtain ⟨rfl, -⟩ := Prod.mk.inj heq
          have hc := hletter c hmem.2.1
          rw [hmarked, Option.all_some, decide_eq_true_iff] at hc
          exact ⟨c, rest, by rw [hzero z hmem.1 hz], hc⟩
      · cases h

/-- The start of a proper text with a mark. -/
theorem exists_mark (hproper : IsProper t) (hradix : radix? (folded t) = some radix) :
    ∃ c t', t = '0'.toNat :: c :: t' ∧ (c, radix) ∈ radixMarks ∧
      (folded t).drop 2 = folded t' ∧ t'.head? ≠ some '_'.toNat := by
  have hmem := hproper.characters
  obtain ⟨small, rest, hfolded, hmark⟩ := radix_eq_some_iff.mp hradix
  obtain ⟨z, t₁, rfl, hz, hrest⟩ := cons_of_folded hfolded hproper.head_ne
  obtain rfl := zero_of_folded (hmem z (by simp)) hz
  obtain ⟨c, t', rfl, hc, htail⟩ := cons_of_folded hrest fun hhead => by
    obtain ⟨after, rfl⟩ := List.head?_eq_some_iff.mp hhead
    exact hproper.unseparated [] _ (by simp) rfl
  have hmark' := mark_of_folded (hmem c (by simp)) hc hmark
  refine ⟨c, t', rfl, hmark', by rw [hfolded, htail]; rfl, fun hhead => ?_⟩
  -- A separator there would be next to the mark, which is no digit.
  obtain ⟨after, rfl⟩ := List.head?_eq_some_iff.mp hhead
  obtain ⟨⟨a, ha, hdigit⟩, -⟩ := hproper.separators ['0'.toNat, c] _ after rfl rfl
  rw [digit_radix_of_mark hmark'] at hdigit
  obtain rfl : c = a := Option.some.inj ha
  exact not_digit_of_mark hmark' hdigit

/-- A separator is no digit of any radix that is read. -/
theorem not_digit_separator_of_le (hradix : radix ≤ 16) : ¬ IsDigitOf radix '_'.toNat := by
  rintro ⟨d, hd⟩
  exact absurd (hd.mem_all_digits hradix) (by decide)

/-- Behind a part that does not end in an exponent mark stands no sign. -/
theorem head_ne_sign (hproper : IsProper (p ++ t)) (hhead : t.head? ≠ some '_'.toNat)
    (hbefore : ∀ a ∈ p.getLast?, ¬ (a = 'e'.toNat ∨ a = 'E'.toNat)) :
    ∀ c ∈ (folded t).head?, c ≠ '-'.toNat ∧ c ≠ '+'.toNat := by
  intro c hc
  rw [← not_or]
  intro hsign
  obtain ⟨rest, hfolded⟩ := List.head?_eq_some_iff.mp hc
  obtain ⟨first, after, rfl, hfirst, -⟩ := cons_of_folded hfolded hhead
  have hsign' := sign_of_folded (hproper.characters first (by simp)) hfirst hsign
  obtain ⟨⟨a, ha, hends⟩, -⟩ := hproper.signs p first after rfl hsign'
  exact hbefore a ha hends

/-- Behind a mark stands no second one of its radix, not even one split by separators. -/
theorem not_second_mark (hproper : IsProper ('0'.toNat :: c :: t)) (hmark : (c, radix) ∈ radixMarks)
    (hhead : t.head? ≠ some '_'.toNat) : radixMark? (folded t) ≠ some (radix, s) := by
  intro hsecond
  have hmem : ∀ c ∈ t, c ∈ alphabet := fun c hc => hproper.characters c (by simp [hc])
  obtain ⟨small, after, hfolded, hsmall⟩ := mark_of_radix_mark (folded_mem hmem) hsecond
  obtain ⟨z, t', rfl, hz, htail⟩ := cons_of_folded hfolded hhead
  obtain rfl := zero_of_folded (hmem z (by simp)) hz
  obtain ⟨before, c', t'', rfl, hbefore, hc', -⟩ := folded_split (u := []) htail
  have hmark' := mark_of_folded (hmem c' (by simp)) hc' hsmall
  rcases List.eq_nil_or_concat before with rfl | ⟨init, last, rfl⟩
  · exact hproper.mark hmark hmark' rfl
  · -- A separator would stand directly before the second mark, which is no digit.
    rw [List.concat_eq_append, folded_append, List.append_eq_nil_iff] at hbefore
    obtain rfl := eq_separator hbefore.2
    obtain ⟨-, b, hb, hdigit⟩ :=
      hproper.separators ('0'.toNat :: c :: '0'.toNat :: init) _ (c' :: t'') (by simp) rfl
    rw [digit_radix_of_mark hmark] at hdigit
    exact absurd (Option.some.inj hb ▸ hdigit) (not_digit_of_mark hmark')

/-- A proper text that is read behind a mark is a literal. -/
theorem marked_of_proper (hproper : IsProper t) (hradix : radix? (folded t) = some radix)
    (h : (value? t).isSome) : ∃ q, Denotes t q := by
  have hmem := hproper.characters
  obtain ⟨c, t, rfl, hmark, hdrop, hhead⟩ := exists_mark hproper hradix
  have hmem' : ∀ c ∈ t, c ∈ alphabet := fun c hc => hmem c (by simp [hc])
  have hle := radix_le_of_mem hmark
  have hsep := hproper.separators
  rw [digit_radix_of_mark hmark] at hsep
  have hsign := head_ne_sign (p := ['0'.toNat, c]) hproper hhead <| by
    rintro a ha hends
    obtain rfl : c = a := Option.some.inj ha
    exact (not_figure_of_mark hmark).2 (.inr hends)
  have hmarks := fun rest => not_second_mark (s := rest) hproper hmark hhead
  have hten : radix ≠ 10 := by
    have hradices : ∀ mark ∈ radixMarks, mark.2 ≠ 10 := by decide
    exact hradices _ hmark
  rw [value_eq_marked hradix, hdrop, integer_eq (folded_mem hmem') hsign hmarks hten,
    Option.isSome_map, Option.isSome_map] at h
  obtain ⟨digits, hgroup⟩ := Option.isSome_iff_exists.mp h
  obtain ⟨hne, hlt, hfolded⟩ := group_eq_some (folded_mem hmem') hle hgroup
  have hspaced : Spaced t := by
    refine spaced_of_separated (p := ['0'.toNat, c]) (s := []) (by simpa using hsep)
      (not_digit_separator_of_le hle) ?_ (by simp)
    exact fun c' hc' => Option.some.inj hc' ▸ not_digit_of_mark hmark
  exact ⟨_, .marked hmark (digits_of_spaced hle hmem' hne hlt hfolded hspaced)⟩

/-- What is not a separator has a place in the folded text. -/
theorem exists_folded (h : c ∈ t) (hc : c ≠ '_'.toNat) : ∃ c' ∈ folded t, folded [c] = [c'] := by
  obtain ⟨before, after, rfl⟩ := List.append_of_mem h
  obtain ⟨c', hfolded⟩ := (folded_singleton c).resolve_left hc
  refine ⟨c', ?_, hfolded⟩
  rw [folded_append, folded_cons, hfolded]
  simp

/-- Characters that are digits have values. -/
theorem exists_forall₂ (h : ∀ c ∈ t, IsDigitOf radix c) :
    ∃ digits, List.Forall₂ (IsDigit radix) t digits := by
  induction t with
  | nil => exact ⟨[], .nil⟩
  | cons c t ih =>
      rw [List.forall_mem_cons] at h
      obtain ⟨d, hd⟩ := h.1
      obtain ⟨digits, hdigits⟩ := ih h.2
      exact ⟨d :: digits, .cons hd hdigits⟩

/-- A proper text that is octal in the old form is a literal. -/
theorem octal_of_proper (hproper : IsProper t) (h : isLegacyOctal (folded t)) :
    ∃ q, Denotes t q := by
  have hmem := hproper.characters
  have hspelling : ∀ c ∈ smallAlphabet, '0'.toNat ≤ c ∧ c ≤ '7'.toNat →
    c - '0'.toNat < 8 ∧ c = spelling (c - '0'.toNat) := by decide
  obtain ⟨hlength, hhead, hoctal⟩ := is_legacy_octal_iff.mp h
  obtain ⟨rest, hfolded⟩ := List.head?_eq_some_iff.mp hhead
  obtain ⟨z, t, rfl, hz, htail⟩ := cons_of_folded hfolded hproper.head_ne
  obtain rfl := zero_of_folded (hmem z (by simp)) hz
  have hfigures : ∀ c ∈ t, c = '_'.toNat ∨ IsDigitOf 8 c := by
    intro c hc
    refine or_iff_not_imp_left.mpr fun hseparator => ?_
    obtain ⟨c', hc', hfoldedc⟩ := exists_folded (List.mem_cons_of_mem _ hc) hseparator
    obtain ⟨hlt, heq⟩ := hspelling c' (folded_mem hmem c' hc') (hoctal c' hc')
    rw [heq] at hfoldedc
    exact ⟨_, is_digit_of_folded (hmem c (by simp [hc])) hlt (by norm_num) hfoldedc⟩
  have hseparator : '_'.toNat ∉ t :=
    not_mem_of_proper (s := []) (by simpa using hproper) fun c hc =>
      (hfigures c hc).imp_right is_digit_of_ten
  obtain ⟨digits, hdigits⟩ := exists_forall₂ fun c hc => (hfigures c hc).resolve_left (by
    rintro rfl
    exact hseparator hc)
  refine ⟨_, .octal ?_ hdigits⟩
  rintro rfl
  rw [hfolded, ← htail] at hlength
  simp at hlength

/-- Digits are decimal where no radix is marked. -/
theorem digit_radix_eq_ten (hradix : radix? (folded t) = none) : digitRadix t = 10 := by
  match t with
  | [] | [_] => rfl
  | front :: c :: rest =>
      by_cases hfront : front = '0'.toNat
      · subst hfront
        cases hlookup : radixMarks.lookup c with
        | none => exact congrArg (Option.getD · 10) hlookup
        | some radix =>
            obtain ⟨before, after, hmarks, -⟩ := List.lookup_eq_some_iff.mp hlookup
            have hmem : (c, radix) ∈ radixMarks := by
              rw [hmarks]
              simp
            obtain ⟨small, hsmall, hmark⟩ := folded_mark hmem
            have hfolded : folded ('0'.toNat :: c :: rest) = '0'.toNat :: small :: folded rest := by
              rw [show '0'.toNat :: c :: rest = ['0'.toNat] ++ ([c] ++ rest) from rfl,
                folded_append, folded_append, hsmall]
              rfl
            rw [radix_eq_some_iff.mpr ⟨small, _, hfolded, hmark⟩] at hradix
            cases hradix
      · exact if_neg hfront

/-- A proper text that is read is a literal. -/
theorem denotes_of_proper (hproper : IsProper t) (h : (value? t).isSome) : ∃ q, Denotes t q := by
  cases hradix : radix? (folded t) with
  | some radix => exact marked_of_proper hproper hradix h
  | none =>
      by_cases hoctal : isLegacyOctal (folded t)
      · exact octal_of_proper hproper hoctal
      have hmem := hproper.characters
      have hsign := head_ne_sign (p := []) hproper hproper.head_ne (by simp)
      rw [value_eq_double hradix hoctal, double_eq (folded_mem hmem) hsign, Option.isSome_map] at h
      obtain ⟨q, hq⟩ := decimal_of_proper hproper (digit_radix_eq_ten hradix) hoctal h
      exact ⟨q, .decimal hq⟩

/-- A text is a numeric literal exactly if it is read and keeps to what is not checked. -/
theorem denotes_iff : (∃ q, Denotes t q) ↔ (value? t).isSome ∧ IsProper t := by
  constructor
  · rintro ⟨q, h⟩
    obtain ⟨m, -, hvalue⟩ := rounds_of_denotes h
    exact ⟨by rw [hvalue]; rfl, h.is_proper⟩
  · rintro ⟨hread, hproper⟩
    exact denotes_of_proper hproper hread

end NumericLiteral

namespace Resolution

/-- A number literal in a program is resolved to its value, or to nothing if it is not read. -/
theorem resolve_numeric_literal (p : Program) (i : Info) (t : Text) :
    p.resolve (.numericLiteral i t) = ⟨(value? t).map .number, none⟩ := by
  unfold Program.resolve resolve
  rw [show depthLimit = 999 + 1 from rfl, ofNode]
  rfl

/-- What is read as a number is a literal exactly if it is proper, and a node of a program has no
value exactly if its text is not read. -/
theorem numeric_literal_iff (t : Text) :
    ((∃ q, Denotes t q) ↔ (value? t).isSome ∧ IsProper t) ∧
      ∀ (p : Program) (i : Info),
        (p.resolve (.numericLiteral i t)).value = none ↔ value? t = none := by
  refine ⟨denotes_iff, fun p i => ?_⟩
  rw [resolve_numeric_literal, Option.map_eq_none_iff]

/-- The word for infinity is read, and it is no numeric literal. -/
theorem infinity_read :
    ¬ ∀ t : Text, (value? t).isSome → ∃ q, Denotes t q := by
  intro h
  obtain ⟨q, hliteral⟩ := h (Text.ofString "inf") rfl
  exact absurd (hliteral.mem_alphabet 'i'.toNat (by decide)) (by decide)

end Resolution

end StaticLiteral
