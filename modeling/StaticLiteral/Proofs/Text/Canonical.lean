import StaticLiteral.Proofs.OutOfRange
import StaticLiteral.Proofs.Text.Utf16

/-!
# Decoded texts are canonical

A body denotes a sequence of UTF-16 code units: those of its tokens, one after the other. `Denotes`
says which, and a text is decoded exactly if it denotes something (`exists_decoded_iff`). Of all
texts of these code units the decoded one is the paired one, so bodies that are written differently
are decoded to one text exactly if they denote the same code units.
-/

namespace StaticLiteral.Escape

/-- The code units that a body denotes. What a token stands for may be any code point, which then is
one unit or two. -/
inductive Denotes : Text → List CodePoint → Prop where
  | nil : Denotes [] []
  /-- a backslash at the end escapes nothing -/
  | backslash : Denotes [backslash] [backslash]
  | token {spelling next : Text} {codes units : List CodePoint} (token : Token next spelling codes)
      (rest : Denotes next units) : Denotes (spelling ++ next) (Text.utf16 codes ++ units)

variable {a b s t text : Text} {codes units : List CodePoint}

/-! ## What is decoded -/

/-- A text is decoded exactly if it is read. -/
theorem decode_eq_ok_iff : decode t = .ok s ↔
    ∃ codes, Escape.units t = .ok codes ∧ Text.pairSurrogates codes = s := by
  rw [decode]
  cases Escape.units t with
  | error fault =>
      constructor
      · intro h
        cases h
      · rintro ⟨_, h, -⟩
        cases h
  | ok codes =>
      constructor
      · intro h
        exact ⟨codes, rfl, Except.ok.inj h⟩
      · rintro ⟨_, ⟨⟩, rfl⟩
        rfl

/-- What a text denotes are the code units of the code points that are read. -/
theorem units_of_denotes (h : Denotes t units) :
    ∃ codes, Escape.units t = .ok codes ∧ Text.utf16 codes = units := by
  induction h with
  | nil => exact ⟨[], rfl, rfl⟩
  | backslash => exact ⟨[backslash], rfl, rfl⟩
  | @token spelling next codes units token rest ih =>
      obtain ⟨later, hread, rfl⟩ := ih
      refine ⟨codes ++ later, ?_, Text.utf16_append codes later⟩
      exact (units_of_token token).trans (congrArg _ hread)

/-- What is read denotes its code units. -/
theorem denotes_of_units (h : Escape.units t = .ok codes) : Denotes t (Text.utf16 codes) := by
  induction scan t generalizing codes with
  | done =>
      obtain rfl := Except.ok.inj h
      exact .nil
  | backslash =>
      obtain rfl := Except.ok.inj h
      exact .backslash
  | beyond hne hlarge after => cases (units_of_beyond hne hlarge after).symm.trans h
  | @token spelling next first token rest ih =>
      rw [Escape.units, units_of_token token] at h
      cases hnext : unitsFrom 0 next with
      | error fault => rw [hnext] at h; cases h
      | ok later =>
          rw [hnext] at h
          obtain rfl := Except.ok.inj h
          rw [Text.utf16_append]
          exact .token token (ih hnext)

/-- A decoded text denotes its code units and nothing else. -/
theorem denotes_iff (h : decode t = .ok s) : Denotes t units ↔ units = s.utf16 := by
  obtain ⟨codes, hread, rfl⟩ := decode_eq_ok_iff.mp h
  rw [Text.utf16_pair_surrogates]
  constructor
  · intro hdenotes
    obtain ⟨codes', hread', rfl⟩ := units_of_denotes hdenotes
    rw [Except.ok.inj (hread.symm.trans hread')]
  · rintro rfl
    exact denotes_of_units hread

/-- The texts that are decoded are those that denote something. -/
theorem exists_decoded_iff : (∃ s, decode t = .ok s) ↔ ∃ units, Denotes t units := by
  constructor
  · rintro ⟨s, h⟩
    exact ⟨s.utf16, (denotes_iff h).mpr rfl⟩
  · rintro ⟨units, h⟩
    obtain ⟨codes, hread, -⟩ := units_of_denotes h
    exact ⟨_, decode_eq_ok_iff.mpr ⟨codes, hread, rfl⟩⟩

/-! ## One text for one sequence of code units -/

/-- Joining surrogates keeps the code units, and leaves no high surrogate directly before a low one;
of code points it makes code points. So two bodies are decoded to the same text exactly if there is
a sequence of code units that both denote, and each of them denotes but one. -/
theorem decoded_canonical :
    (∀ codes : List CodePoint,
      (Text.pairSurrogates codes).utf16 = Text.utf16 codes ∧
        (Text.pairSurrogates codes).IsPaired ∧
        (AreCodePoints codes → AreCodePoints (Text.pairSurrogates codes))) ∧
    ∀ {a b s t : Text}, decode a = .ok s → decode b = .ok t →
      (∀ units, Denotes a units ↔ units = s.utf16) ∧
        (s = t ↔ ∃ units, Denotes a units ∧ Denotes b units) := by
  constructor
  · intro codes
    exact ⟨Text.utf16_pair_surrogates codes, Text.is_paired_pair_surrogates codes,
      (joins_pair_surrogates codes).are_code_points⟩
  · intro a b s t ha hb
    refine ⟨fun units => denotes_iff ha, ?_, ?_⟩
    · rintro rfl
      exact ⟨s.utf16, (denotes_iff ha).mpr rfl, (denotes_iff hb).mpr rfl⟩
    · rintro ⟨units, hdenotes, hdenotes'⟩
      have hunits : s.utf16 = t.utf16 :=
        ((denotes_iff ha).mp hdenotes).symm.trans ((denotes_iff hb).mp hdenotes')
      exact (Text.is_paired_decode ha).eq_of_utf16_eq (Text.is_paired_decode hb) hunits

/-- Two halves and the escape of the whole code point are decoded to the same text; halves that
another character keeps apart are not. -/
theorem decoded_canonical_halves :
    (∃ units, Denotes (Text.ofString "\\uD83D\\u\x7bDE00\x7d") units ∧
      Denotes (Text.ofString "\\u\x7b1F600\x7d") units) ∧
    ¬ ∃ units, Denotes (Text.ofString "\\uD83D \\uDE00") units ∧
      Denotes (Text.ofString "\\u\x7b1F600\x7d") units := by
  have hhalves : decode (Text.ofString "\\uD83D\\u\x7bDE00\x7d") = .ok [0x1F600] := by
    decide +kernel
  have hwhole : decode (Text.ofString "\\u\x7b1F600\x7d") = .ok [0x1F600] := by decide +kernel
  have hapart : decode (Text.ofString "\\uD83D \\uDE00") = .ok [0xD83D, 0x20, 0xDE00] := by
    decide +kernel
  constructor
  · exact (decoded_canonical.2 hhalves hwhole).2.mp rfl
  · intro hboth
    have heq := (decoded_canonical.2 hapart hwhole).2.mpr hboth
    revert heq
    decide

end StaticLiteral.Escape
