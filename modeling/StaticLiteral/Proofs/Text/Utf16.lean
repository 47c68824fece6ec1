import Mathlib.Data.List.Chain
import StaticLiteral.Proofs.Escapes

/-!
# Texts as code units

Two texts are the same to a program if they are the same code units. `Text.IsPaired` tells the texts
in which no high surrogate stands directly before a low one; of the texts of the same code units it
is one, `Text.pairSurrogates` makes it, and every body of a literal is decoded to it. Put together,
texts stay paired exactly if the halves of no pair come from different ones (`is_paired_flatten`).
-/

namespace StaticLiteral.Text

/-- The code units of a code point: beyond U+FFFF a high and a low surrogate. -/
def unitsOf (c : CodePoint) : List CodePoint :=
  if 0x10000 ≤ c ∧ c ≤ 0x10FFFF then
    [0xD800 + (c - 0x10000) / 0x400, 0xDC00 + (c - 0x10000) % 0x400]
  else [c]

/-- The text as UTF-16 code units. -/
def utf16 (t : Text) : List CodePoint := t.flatMap unitsOf

/-- No high surrogate stands directly before a low one. -/
def IsPaired (t : Text) : Prop :=
  t.IsChain fun high low => ¬ (isHighSurrogate high ∧ isLowSurrogate low)

instance (t : Text) : Decidable t.IsPaired :=
  inferInstanceAs (Decidable (t.IsChain fun high low =>
    ¬ (isHighSurrogate high ∧ isLowSurrogate low)))

/-- A high surrogate ends the first text, and a low one begins the second. -/
def Splits (s t : Text) : Prop :=
  ∃ high ∈ s.getLast?, ∃ low ∈ t.head?, isHighSurrogate high ∧ isLowSurrogate low

variable {s t u : Text} {parts : List Text} {c high low : CodePoint}

/-! ## Code units -/

/-- The code units of the first code point come first. -/
theorem utf16_cons (c : CodePoint) (t : Text) : utf16 (c :: t) = unitsOf c ++ t.utf16 := rfl

/-- Texts are encoded one after the other. -/
@[simp]
theorem utf16_append (s t : Text) : (s ++ t).utf16 = s.utf16 ++ t.utf16 := List.flatMap_append

/-- The code units of texts put together are those of the texts, one after the other. -/
theorem utf16_flatten (parts : List Text) : utf16 parts.flatten = parts.flatMap utf16 := by
  induction parts with
  | nil => rfl
  | cons part parts ih => rw [List.flatten_cons, utf16_append, ih, List.flatMap_cons]

/-- A surrogate is a code unit. -/
theorem units_of_surrogate (h : isHighSurrogate c ∨ isLowSurrogate c) : unitsOf c = [c] := by
  refine if_neg fun hlarge => ?_
  simp only [isHighSurrogate, isLowSurrogate, Bool.and_eq_true, decide_eq_true_eq, CodePoint] at *
  omega

/-- The code units of a pair are its halves. -/
theorem units_of_pair (hhigh : isHighSurrogate high) (hlow : isLowSurrogate low) :
    unitsOf (pairOf high low) = [high, low] := by
  obtain ⟨hmin, hmax, hfirst, hsecond⟩ := Escape.pair_of_surrogates hhigh hlow
  rw [unitsOf, if_pos ⟨hmin, hmax⟩, ← hfirst, ← hsecond]

/-- Joining surrogates changes no code unit. -/
theorem utf16_pair_surrogates : ∀ t : Text, (pairSurrogates t).utf16 = t.utf16
  | [] | [_] => rfl
  | high :: low :: rest => by
      rw [pairSurrogates]
      split
      case isTrue hpair =>
        obtain ⟨hhigh, hlow⟩ := (Bool.and_eq_true _ _).mp hpair
        rw [utf16_cons, units_of_pair hhigh hlow, utf16_pair_surrogates rest, utf16_cons,
          units_of_surrogate (.inl hhigh), utf16_cons, units_of_surrogate (.inr hlow)]
        rfl
      case isFalse =>
        rw [utf16_cons, utf16_pair_surrogates (low :: rest), ← utf16_cons]

/-! ## Paired texts -/

/-- Texts put together are paired if each is and the halves of no pair come from both. -/
theorem is_paired_append : (s ++ t).IsPaired ↔ s.IsPaired ∧ t.IsPaired ∧ ¬ Splits s t := by
  unfold IsPaired Splits
  rw [List.isChain_append]
  simp only [not_exists, not_and]

/-- A pair that is split behind a text is split behind the text and what stands before it. -/
theorem Splits.append (h : Splits s t) (u : Text) : Splits (u ++ s) t := by
  obtain ⟨high, hlast, h⟩ := h
  refine ⟨high, ?_, h⟩
  rw [List.getLast?_append, Option.mem_def.mp hlast]
  rfl

/-- Any number of texts put together are paired exactly if each is and no pair is split between what
stands before some place between them and what stands behind it. -/
theorem is_paired_flatten : IsPaired parts.flatten ↔
    (∀ part ∈ parts, part.IsPaired) ∧
      ∀ before after, parts = before ++ after → ¬ Splits before.flatten after.flatten := by
  constructor
  · intro h
    refine ⟨fun part hpart => ?_, ?_⟩
    · obtain ⟨before, after, rfl⟩ := List.append_of_mem hpart
      rw [List.flatten_append, List.flatten_cons] at h
      exact (is_paired_append.mp (is_paired_append.mp h).2.1).1
    · rintro before after rfl
      rw [List.flatten_append] at h
      exact (is_paired_append.mp h).2.2
  · rintro ⟨hparts, hplaces⟩
    induction parts with
    | nil => exact .nil
    | cons part parts ih =>
        rw [List.flatten_cons, is_paired_append]
        refine ⟨hparts part (by simp), ih (fun p hp => hparts p (by simp [hp])) ?_, ?_⟩
        · rintro before after rfl hsplits
          refine hplaces (part :: before) after rfl ?_
          exact hsplits.append part
        · simpa using hplaces [part] parts rfl

/-- A text begins with a low surrogate exactly if its code units do. -/
theorem head_utf16_iff (h : isLowSurrogate low) : low ∈ t.utf16.head? ↔ low ∈ t.head? := by
  cases t with
  | nil => rfl
  | cons c t =>
      rw [utf16_cons, unitsOf]
      split
      case isTrue hlarge =>
        simp only [isLowSurrogate, Bool.and_eq_true, decide_eq_true_eq, CodePoint] at h hlarge
        simp only [List.cons_append, List.head?_cons, Option.mem_some_iff, CodePoint]
        omega
      case isFalse => rfl

/-- Joining surrogates leaves the first code point alone if it is not the first half of a pair. -/
theorem pair_surrogates_cons (h : ∀ low ∈ t.head?, ¬ (isHighSurrogate c ∧ isLowSurrogate low)) :
    pairSurrogates (c :: t) = c :: pairSurrogates t := by
  cases t with
  | nil => rfl
  | cons low rest =>
      rw [pairSurrogates, if_neg]
      rw [Bool.and_eq_true]
      exact h low rfl

/-- The halves of a code point are those of a pair. -/
theorem pair_of_halves (h : 0x10000 ≤ c) :
    pairOf (0xD800 + (c - 0x10000) / 0x400) (0xDC00 + (c - 0x10000) % 0x400) = c := by
  unfold pairOf CodePoint at *
  omega

/-- A paired text is what its code units are joined to. -/
theorem pair_surrogates_utf16 (h : t.IsPaired) : pairSurrogates t.utf16 = t := by
  induction t with
  | nil => rfl
  | cons c t ih =>
      obtain ⟨hnext, hrest⟩ := List.isChain_cons.mp h
      rw [utf16_cons, unitsOf]
      split
      case isTrue hlarge =>
        have hhalves := Escape.surrogates_of_pair hlarge.2
        simp only [List.cons_append, List.nil_append, pairSurrogates, hhalves.1, hhalves.2,
          Bool.and_self, if_true, pair_of_halves hlarge.1, ih hrest]
      case isFalse =>
        rw [List.cons_append, List.nil_append, pair_surrogates_cons, ih hrest]
        rintro low hhead ⟨hhigh, hlow⟩
        exact hnext low ((head_utf16_iff hlow).mp hhead) ⟨hhigh, hlow⟩

/-- Paired texts of the same code units are the same. -/
theorem IsPaired.eq_of_utf16_eq (hs : s.IsPaired) (ht : t.IsPaired) (h : s.utf16 = t.utf16) :
    s = t := by
  rw [← pair_surrogates_utf16 hs, h, pair_surrogates_utf16 ht]

/-- Joined surrogates are a paired text. -/
theorem is_paired_pair_surrogates : ∀ t : Text, (pairSurrogates t).IsPaired
  | [] => .nil
  | [c] => .singleton c
  | high :: low :: rest => by
      rw [pairSurrogates]
      split
      case isTrue hpair =>
        obtain ⟨hhigh, hlow⟩ := (Bool.and_eq_true _ _).mp hpair
        refine List.isChain_cons.mpr ⟨?_, is_paired_pair_surrogates rest⟩
        rintro next - ⟨hagain, -⟩
        have hlarge := (Escape.pair_of_surrogates hhigh hlow).1
        simp only [isHighSurrogate, Bool.and_eq_true, decide_eq_true_eq, CodePoint] at hagain hlarge
        omega
      case isFalse hpair =>
        refine List.isChain_cons.mpr ⟨?_, is_paired_pair_surrogates (low :: rest)⟩
        rintro next hnext ⟨hhigh, hlow⟩
        -- A low surrogate in front was there before the rest was joined.
        rw [← head_utf16_iff hlow, utf16_pair_surrogates, head_utf16_iff hlow] at hnext
        obtain rfl := Option.mem_some.mp hnext
        exact hpair ((Bool.and_eq_true _ _).mpr ⟨hhigh, hlow⟩)

/-- What the body of a literal is decoded to is paired. -/
theorem is_paired_decode {raw : Text} (h : Escape.decode raw = .ok t) : t.IsPaired := by
  rw [Escape.decode] at h
  cases hunits : Escape.units raw with
  | error fault => rw [hunits] at h; cases h
  | ok units =>
      rw [hunits] at h
      obtain rfl := Except.ok.inj h
      exact is_paired_pair_surrogates units

end StaticLiteral.Text
