import StaticLiteral.Proofs.Escapes

/-!
# What cannot be decoded

Any text is read from the left, whatever it is: an escape that is not well formed is a shorter
token, and what would have been its digits is read again. `Scan` says how that ends, at the end of
the text or at a `\u{…}` beyond the last code point, and `decode_error_iff` that only the latter is
an error, about the digits that stand there.
-/

namespace StaticLiteral.Escape

/-- The last code point. -/
def lastCodePoint : CodePoint := 0x10FFFF

/-- The escape with some digits between braces. -/
def bracedEscape (digits : List HexDigit) : Text :=
  backslash :: 'u'.toNat :: '{'.toNat :: (digits.map HexDigit.spelling ++ ['}'.toNat])

/-- A sequence of tokens that is read before `rest`: the last of them ends where it starts. -/
inductive Passed (rest : Text) : Text → Prop where
  | nil : Passed rest []
  | cons {spelling before : Text} {codes : List CodePoint}
      (token : Token (before ++ rest) spelling codes) (passed : Passed rest before) :
      Passed rest (spelling ++ before)

/-- Reading the text comes to the escape with these digits, which are a number beyond the last code
point. -/
def Overshoots (t : Text) (digits : List HexDigit) : Prop :=
  digits ≠ [] ∧ lastCodePoint < HexDigit.number digits ∧ ∃ before after : Text,
    t = before ++ (bracedEscape digits ++ after) ∧ Passed (bracedEscape digits ++ after) before

/-- How reading a text goes: token by token to its end, where a backslash may be left, or to an
escape beyond the last code point. -/
inductive Scan : Text → Prop where
  | done : Scan []
  | backslash : Scan [backslash]
  | beyond {digits : List HexDigit} (hne : digits ≠ [])
      (hlarge : lastCodePoint < HexDigit.number digits) (after : Text) :
      Scan (bracedEscape digits ++ after)
  | token {spelling next : Text} {codes : List CodePoint} (token : Token next spelling codes)
      (rest : Scan next) : Scan (spelling ++ next)

variable {t next spelling rest before : Text} {codes units : List CodePoint} {e : CodePoint}
  {digits : List HexDigit}

/-! ## Every text is read -/

/-- Up to a limit, the octal digits at the front are followed by no other one. -/
theorem exists_octal_run (limit : Nat) (t : Text) :
    ∃ (digits : List (Fin 8)) (next : Text), t = digits.map octalSpelling ++ next ∧
      digits.length ≤ limit ∧
      (digits.length = limit ∨ ∀ d, next.head? ≠ some (octalSpelling d)) := by
  induction limit generalizing t with
  | zero => exact ⟨[], t, rfl, Nat.le_refl 0, .inl rfl⟩
  | succ limit ih =>
      by_cases hfirst : ∃ d, t.head? = some (octalSpelling d)
      · obtain ⟨d, hd⟩ := hfirst
        obtain ⟨t, rfl⟩ := List.head?_eq_some_iff.mp hd
        obtain ⟨digits, next, rfl, hle, hend⟩ := ih t
        exact ⟨d :: digits, next, rfl, Nat.succ_le_succ hle, hend.imp_left (congrArg (· + 1))⟩
      · exact ⟨[], t, rfl, Nat.zero_le _, .inr fun d hd => hfirst ⟨d, hd⟩⟩

/-- No token is empty. -/
theorem Token.ne_nil (h : Token next spelling codes) : spelling ≠ [] := by
  cases h <;> exact List.cons_ne_nil _ _

/-- A text starts with a token. -/
def StartsWithToken (t : Text) : Prop :=
  ∃ (spelling next : Text) (codes : List CodePoint), t = spelling ++ next ∧
    Token next spelling codes

/-- After the letter of a byte there are its two digits, or the letter is a token without them. -/
theorem starts_of_x (after : Text) : StartsWithToken (backslash :: 'x'.toNat :: after) := by
  by_cases hdigits : ∃ (a b : HexDigit) (rest : Text), after = a.spelling :: b.spelling :: rest
  · obtain ⟨a, b, rest, rfl⟩ := hdigits
    exact ⟨_, rest, _, rfl, .byte a b⟩
  · exact ⟨_, after, _, rfl, .bareByte fun a b rest h => hdigits ⟨a, b, rest, h⟩⟩

/-- After the letter of a code unit there are digits in braces, which may go beyond the last code
point, or four digits, or the letter is a token without any. -/
theorem starts_of_u (after : Text) :
    StartsWithToken (backslash :: 'u'.toNat :: after) ∨
      ∃ (digits : List HexDigit) (rest : Text), digits ≠ [] ∧
        lastCodePoint < HexDigit.number digits ∧
        backslash :: 'u'.toNat :: after = bracedEscape digits ++ rest := by
  by_cases hbraced : ∃ (digits : List HexDigit) (rest : Text), digits ≠ [] ∧
      after = '{'.toNat :: digits.map HexDigit.spelling ++ '}'.toNat :: rest
  · obtain ⟨digits, rest, hne, rfl⟩ := hbraced
    have hspelled : backslash :: 'u'.toNat ::
        ('{'.toNat :: digits.map HexDigit.spelling ++ '}'.toNat :: rest) =
          bracedEscape digits ++ rest := by
      simp [bracedEscape]
    rcases Nat.lt_or_ge lastCodePoint (HexDigit.number digits) with hlarge | hle
    · exact .inr ⟨digits, rest, hne, hlarge, hspelled⟩
    · exact .inl ⟨_, rest, _, hspelled, .braced hne hle⟩
  -- without a closed brace the escape cannot fail any more
  left
  by_cases hdigits : ∃ (a b c d : HexDigit) (rest : Text),
      after = a.spelling :: b.spelling :: c.spelling :: d.spelling :: rest
  · obtain ⟨a, b, c, d, rest, rfl⟩ := hdigits
    exact ⟨_, rest, _, rfl, .unit a b c d⟩
  · exact ⟨_, after, _, rfl, .bareUnit (fun a b c d rest h => hdigits ⟨a, b, c, d, rest, h⟩)
      fun digits rest hne h => hbraced ⟨digits, rest, hne, h⟩⟩

/-- An end of a line takes the line feed after a carriage return with it. -/
theorem starts_of_line_end {c : CodePoint} (hc : c ∈ lineEnds) (after : Text) :
    StartsWithToken (backslash :: c :: after) := by
  by_cases hbreak : c = 0x0D ∧ after.head? = some 0x0A
  · obtain ⟨rfl, hfeed⟩ := hbreak
    obtain ⟨rest, rfl⟩ := List.head?_eq_some_iff.mp hfeed
    exact ⟨_, rest, _, rfl, .lineBreak⟩
  · exact ⟨_, after, _, rfl, .lineEnd hc fun hreturn hfeed => hbreak ⟨hreturn, hfeed⟩⟩

/-- An octal digit takes with it as many as may follow it. -/
theorem starts_of_octal (first : Fin 8) (after : Text) :
    StartsWithToken (backslash :: octalSpelling first :: after) := by
  have hpos : 0 < if first ≤ 3 then 3 else 2 := by split <;> decide
  obtain ⟨limit, hlimit⟩ := Nat.exists_eq_succ_of_ne_zero (Nat.ne_of_gt hpos)
  obtain ⟨digits, next, rfl, hle, hend⟩ := exists_octal_run limit after
  have htoken : Token next (backslash :: (first :: digits).map octalSpelling)
      [octalNumber (first :: digits)] :=
    .octal hlimit.symm (Nat.succ_le_succ hle) (hend.imp_left (congrArg (· + 1)))
  exact ⟨_, next, _, rfl, htoken⟩

/-- What stands after a backslash makes it a token or an escape beyond the last code point. -/
theorem starts_of_escape (e : CodePoint) (after : Text) :
    StartsWithToken (backslash :: e :: after) ∨
      ∃ (digits : List HexDigit) (rest : Text), digits ≠ [] ∧
        lastCodePoint < HexDigit.number digits ∧
        backslash :: e :: after = bracedEscape digits ++ rest := by
  by_cases hletter : e ∈ controls.map (·.1)
  · obtain ⟨⟨letter, code⟩, hrow, rfl⟩ := List.mem_map.mp hletter
    exact .inl ⟨_, after, _, rfl, .control hrow⟩
  by_cases hline : e ∈ lineEnds
  · exact .inl (starts_of_line_end hline after)
  by_cases hx : e = 'x'.toNat
  · exact .inl (hx ▸ starts_of_x after)
  by_cases hu : e = 'u'.toNat
  · exact hu ▸ starts_of_u after
  by_cases hoctal : ∃ d, e = octalSpelling d
  · obtain ⟨first, rfl⟩ := hoctal
    exact .inl (starts_of_octal first after)
  · exact .inl ⟨_, after, _, rfl, .other hletter hline hx hu fun d hd => hoctal ⟨d, hd⟩⟩

/-- Every text is read, token by token. -/
theorem scan (t : Text) : Scan t := by
  -- on the length, as a token may take any number of octal or hexadecimal digits with it
  induction hlength : t.length using Nat.strong_induction_on generalizing t with
  | _ length ih =>
      have of_token : StartsWithToken t → Scan t := by
        rintro ⟨spelling, next, codes, rfl, token⟩
        refine .token token (ih next.length ?_ next rfl)
        have hpos := List.length_pos_iff.mpr token.ne_nil
        rw [← hlength, List.length_append]
        omega
      match t with
      | [] => exact .done
      | c :: rest =>
          by_cases hc : c = Escape.backslash
          · subst hc
            match rest with
            | [] => exact .backslash
            | e :: after =>
                rcases starts_of_escape e after with htoken | ⟨digits, rest, hne, hlarge, heq⟩
                · exact of_token htoken
                · exact heq ▸ .beyond hne hlarge rest
          · exact of_token ⟨[c], rest, [c], rfl, .raw hc⟩

/-! ## How it ends -/

/-- An escape beyond the last code point is an error about its digits. -/
theorem units_of_beyond (hne : digits ≠ []) (hlarge : lastCodePoint < HexDigit.number digits)
    (after : Text) : unitsFrom 0 (bracedEscape digits ++ after) =
      .error ⟨digits.map HexDigit.spelling⟩ := by
  have hescape : escape 'u'.toNat
      ('{'.toNat :: (digits.map HexDigit.spelling ++ '}'.toNat :: after)) =
        .error ⟨digits.map HexDigit.spelling⟩ := by
    rw [escape_u]
    simp only [unicode, List.head?_cons, if_true, braced_spelling, hex_value_spelling hne]
    exact if_pos hlarge
  have hspelled : bracedEscape digits ++ after = backslash :: 'u'.toNat :: '{'.toNat ::
      (digits.map HexDigit.spelling ++ '}'.toNat :: after) := by
    simp [bracedEscape]
  rw [hspelled, unitsFrom, hescape]
  exact if_pos rfl

/-- An error after some tokens is an error of the whole text. -/
theorem units_of_passed {fault : BeyondRange} (h : Passed rest before)
    (hfault : unitsFrom 0 rest = .error fault) : unitsFrom 0 (before ++ rest) = .error fault := by
  induction h with
  | nil => exact hfault
  | cons token _ ih => rw [List.append_assoc, units_of_token token, ih]; rfl

/-- The first escape beyond the last code point is reported with its digits. -/
theorem Overshoots.decode_eq (h : Overshoots t digits) :
    decode t = .error ⟨digits.map HexDigit.spelling⟩ := by
  obtain ⟨hne, hlarge, before, after, rfl, hpassed⟩ := h
  rw [decode, Escape.units, units_of_passed hpassed (units_of_beyond hne hlarge after)]
  rfl

/-- A token more in front changes nothing about the escape that is come to. -/
theorem Overshoots.token (h : Overshoots next digits) (token : Token next spelling codes) :
    Overshoots (spelling ++ next) digits := by
  obtain ⟨hne, hlarge, before, after, rfl, hpassed⟩ := h
  exact ⟨hne, hlarge, spelling ++ before, after, (List.append_assoc ..).symm, .cons token hpassed⟩

/-! ## What is decoded are code points -/

/-- All are code points. -/
def AreCodePoints (t : Text) : Prop := ∀ c ∈ t, c ≤ lastCodePoint

/-- Two texts consist of code points if each of them does. -/
theorem are_code_points_append {s t : Text} :
    AreCodePoints (s ++ t) ↔ AreCodePoints s ∧ AreCodePoints t := List.forall_mem_append

/-- A single number is a code point up to the last one. -/
theorem are_code_points_singleton {c : CodePoint} : AreCodePoints [c] ↔ c ≤ lastCodePoint :=
  List.forall_mem_singleton

/-- Some digits are less than any number with one more. -/
theorem number_lt (digits : List HexDigit) : HexDigit.number digits < 16 ^ digits.length := by
  have hdigit : ∀ d ∈ digits.reverse.map (·.value.val), d < 16 := by
    intro d hd
    obtain ⟨digit, -, rfl⟩ := List.mem_map.mp hd
    exact digit.value.isLt
  simpa [HexDigit.number] using Nat.ofDigits_lt_base_pow_length (by decide) hdigit

/-- Octal digits are less than eight to their number. -/
theorem octal_number_lt (digits : List (Fin 8)) : octalNumber digits < 8 ^ digits.length := by
  have hdigit : ∀ d ∈ digits.reverse.map Fin.val, d < 8 := by
    intro d hd
    obtain ⟨digit, -, rfl⟩ := List.mem_map.mp hd
    exact digit.isLt
  simpa [octalNumber] using Nat.ofDigits_lt_base_pow_length (by decide) hdigit

/-- A token of code points stands for code points. -/
theorem Token.are_code_points (h : Token next spelling codes) (hspelling : AreCodePoints spelling) :
    AreCodePoints codes := by
  cases h with
  | raw => exact hspelling
  | control h =>
      have hcodes : ∀ row ∈ controls, row.2 ≤ lastCodePoint := by decide
      exact are_code_points_singleton.mpr (hcodes _ h)
  | byte a b =>
      have hle : 16 ^ 2 ≤ lastCodePoint := by decide
      exact are_code_points_singleton.mpr ((number_lt [a, b]).le.trans hle)
  | unit a b c d =>
      have hle : 16 ^ 4 ≤ lastCodePoint := by decide
      exact are_code_points_singleton.mpr ((number_lt [a, b, c, d]).le.trans hle)
  | braced hne hle => exact are_code_points_singleton.mpr hle
  | @octal first digits longest hlongest hle hend =>
      have hthree : longest ≤ 3 := by rw [hlongest]; split <;> decide
      have hpow : 8 ^ (first :: digits).length ≤ 8 ^ 3 :=
        Nat.pow_le_pow_right (by decide) (hle.trans hthree)
      exact are_code_points_singleton.mpr
        ((octal_number_lt (first :: digits)).le.trans (hpow.trans (by decide)))
  | bareByte => exact are_code_points_singleton.mpr (by decide)
  | bareUnit => exact are_code_points_singleton.mpr (by decide)
  | other => exact fun c hc => hspelling c (List.mem_cons_of_mem _ hc)
  | lineEnd => exact fun c hc => absurd hc List.not_mem_nil
  | lineBreak => exact fun c hc => absurd hc List.not_mem_nil

/-- Joined surrogates are code points. -/
theorem Joins.are_code_points (h : Joins units t) (hunits : AreCodePoints units) :
    AreCodePoints t := by
  induction h with
  | nil => exact hunits
  | pair hmin hmax hhigh hlow rest ih =>
      refine List.forall_mem_cons.mpr ⟨hmax, ih fun c hc => hunits c ?_⟩
      exact List.mem_cons_of_mem _ (List.mem_cons_of_mem _ hc)
  | single halone rest ih =>
      obtain ⟨hfirst, hrest⟩ := List.forall_mem_cons.mp hunits
      exact List.forall_mem_cons.mpr ⟨hfirst, ih hrest⟩

/-- Reading a text comes to an escape beyond the last code point, or it yields code points if it is
made of them. -/
theorem Scan.overshoots_or_units (h : Scan t) :
    (∃ digits, Overshoots t digits) ∨
      ∃ units, unitsFrom 0 t = .ok units ∧ (AreCodePoints t → AreCodePoints units) := by
  induction h with
  | done => exact .inr ⟨[], rfl, id⟩
  | backslash => exact .inr ⟨[Escape.backslash], rfl, id⟩
  | @beyond digits hne hlarge after =>
      exact .inl ⟨digits, hne, hlarge, [], after, rfl, .nil⟩
  | @token spelling next codes token rest ih =>
      rcases ih with ⟨digits, hover⟩ | ⟨units, hread, hcodes⟩
      · exact .inl ⟨digits, hover.token token⟩
      · refine .inr ⟨codes ++ units, by rw [units_of_token token, hread]; rfl, fun ht => ?_⟩
        obtain ⟨hspelling, hnext⟩ := are_code_points_append.mp ht
        exact are_code_points_append.mpr ⟨token.are_code_points hspelling, hcodes hnext⟩

/-- Decoding fails exactly if reading the text comes to an escape beyond the last code point, and
what is said quotes that escape. Any other text is decoded, to code points if it is made of them. -/
theorem decode_error_iff (t : Text) :
    (∀ fault : BeyondRange, decode t = .error fault ↔
      ∃ digits, Overshoots t digits ∧ fault = ⟨digits.map HexDigit.spelling⟩ ∧
        fault.message = bracedEscape digits ++ Text.ofString " is beyond U+10FFFF") ∧
    ((∀ digits, ¬ Overshoots t digits) →
      ∃ decoded, decode t = .ok decoded ∧ (AreCodePoints t → AreCodePoints decoded)) := by
  have hread : (∃ digits, Overshoots t digits) ∨
      ∃ decoded, decode t = .ok decoded ∧ (AreCodePoints t → AreCodePoints decoded) := by
    rcases (scan t).overshoots_or_units with hover | ⟨units, hunits, hcodes⟩
    · exact .inl hover
    · have hdecode : decode t = .ok (Text.pairSurrogates units) := by
        rw [decode, Escape.units, hunits]
        rfl
      exact .inr ⟨_, hdecode, fun ht => (joins_pair_surrogates units).are_code_points (hcodes ht)⟩
  refine ⟨fun fault => ⟨fun hfault => ?_, ?_⟩, fun hnone => ?_⟩
  · rcases hread with ⟨digits, hover⟩ | ⟨decoded, hok, -⟩
    · obtain rfl := Except.error.inj (hfault.symm.trans hover.decode_eq)
      exact ⟨digits, hover, rfl, by simp [BeyondRange.message, bracedEscape, Text.ofString,
        backslash]⟩
    · cases hfault.symm.trans hok
  · rintro ⟨digits, hover, rfl, -⟩
    exact hover.decode_eq
  · exact hread.resolve_left (not_exists.mpr hnone)

/-- The brace of an escape that is not well formed is read again, and so is what is behind it. -/
example : decode (Text.ofString "\\u\x7b\\u\x7b110000\x7d") = .error ⟨Text.ofString "110000"⟩ := by
  decide +kernel

end StaticLiteral.Escape
