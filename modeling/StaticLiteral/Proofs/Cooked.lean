import StaticLiteral.Proofs.Text.Utf16

/-!
# What the text of a template means

The text between the substitutions of a template is a sequence of pieces. `Piece` lists those that a
template may have, with the code points that each stands for: fewer escapes are allowed than in a
string, and the end of a line, which a string cannot have, is a line feed however it is written.
`decode_of_cooked` compares that with the one decoder that strings and templates share, which
leaves the ends of lines as they are written.
-/

namespace StaticLiteral.Escape

/-- The decimal digits as they are written. -/
def decimalDigits : List CodePoint := Text.ofString "0123456789"

/-- What a piece of a template may be when `next` follows it: how it is written, and the code points
that it stands for. The ends of lines stand for line feeds, or for themselves if they are `kept`. -/
inductive Piece (kept : Bool) (next : Text) : Text → List CodePoint → Prop where
  | character {c : CodePoint} (hc : c ≠ backslash) (hreturn : c ≠ 0x0D) : Piece kept next [c] [c]
  | lineEnd (hnext : next.head? ≠ some 0x0A) :
      Piece kept next [0x0D] (if kept then [0x0D] else [0x0A])
  | lineBreak : Piece kept next [0x0D, 0x0A] (if kept then [0x0D, 0x0A] else [0x0A])
  | control {letter code : CodePoint} (h : (letter, code) ∈ controls) :
      Piece kept next [backslash, letter] [code]
  /-- a zero with a digit behind it would be an octal escape -/
  | null (hnext : ∀ d ∈ decimalDigits, next.head? ≠ some d) :
      Piece kept next [backslash, '0'.toNat] [0]
  | byte (a b : HexDigit) :
      Piece kept next [backslash, 'x'.toNat, a.spelling, b.spelling] [HexDigit.number [a, b]]
  | unit (a b c d : HexDigit) :
      Piece kept next [backslash, 'u'.toNat, a.spelling, b.spelling, c.spelling, d.spelling]
        [HexDigit.number [a, b, c, d]]
  | braced {digits : List HexDigit} (hne : digits ≠ []) (hle : HexDigit.number digits ≤ 0x10FFFF) :
      Piece kept next
        (backslash :: 'u'.toNat :: '{'.toNat :: (digits.map HexDigit.spelling ++ ['}'.toNat]))
        [HexDigit.number digits]
  | other {c : CodePoint} (hletter : c ∉ controls.map (·.1)) (hline : c ∉ lineEnds)
      (hx : c ≠ 'x'.toNat) (hu : c ≠ 'u'.toNat) (hdigit : c ∉ decimalDigits) :
      Piece kept next [backslash, c] [c]
  /-- a line goes on after its end; a carriage return and a line feed are one end -/
  | continuation {c : CodePoint} (hc : c ∈ lineEnds) (hnext : c = 0x0D → next.head? ≠ some 0x0A) :
      Piece kept next [backslash, c] []
  | longContinuation : Piece kept next [backslash, 0x0D, 0x0A] []

/-- A text that is a sequence of pieces of a template, and the code points that they stand for. -/
inductive Cooked (kept : Bool) : Text → List CodePoint → Prop where
  | nil : Cooked kept [] []
  | cons {spelling rest : Text} {codes units : List CodePoint}
      (piece : Piece kept rest spelling codes) (body : Cooked kept rest units) :
      Cooked kept (spelling ++ rest) (codes ++ units)

/-- How many carriage returns stand in a text without a backslash directly before them; the first
character of the text belongs to a backslash before it if it is `escaped`. -/
def bareReturnsFrom : Bool → Text → Nat
  | _, [] => 0
  | true, _ :: rest => bareReturnsFrom false rest
  | false, c :: rest =>
    (if c = 0x0D then 1 else 0) + bareReturnsFrom (c = backslash) rest

/-- How many carriage returns stand in a text without a backslash directly before them. -/
def bareReturns (t : Text) : Nat := bareReturnsFrom false t

variable {kept : Bool} {next spelling raw : Text} {codes units cooked : List CodePoint}

/-! ## Pieces as tokens -/

/-- The pieces of a template are the tokens of a string, if the ends of lines are kept. -/
theorem Piece.body (h : Piece true next spelling codes) (hnext : Body next units) :
    Body (spelling ++ next) (codes ++ units) := by
  cases h with
  | character hc => exact .cons (.raw hc) hnext
  | lineEnd => exact .cons (.raw (by decide)) hnext
  | lineBreak =>
      -- For a string these are two characters.
      have hfeed : Body ([0x0A] ++ next) ([0x0A] ++ units) := .cons (.raw (by decide)) hnext
      have hreturn : Token ([0x0A] ++ next) [0x0D] [0x0D] := .raw (by decide)
      have hbody : Body ([0x0D] ++ ([0x0A] ++ next)) ([0x0D] ++ ([0x0A] ++ units)) :=
        .cons hreturn hfeed
      exact hbody
  | control h => exact .cons (.control h) hnext
  | null hdigit =>
      have hoctal : ∀ d : Fin 8, octalSpelling d ∈ decimalDigits := by decide
      exact .cons (@Token.octal _ 0 [] _ rfl (by decide) (.inr fun d => hdigit _ (hoctal d))) hnext
  | byte a b => exact .cons (.byte a b) hnext
  | unit a b c d => exact .cons (.unit a b c d) hnext
  | braced hne hle => exact .cons (.braced hne hle) hnext
  | other hletter hline hx hu hdigit =>
      have hoctal : ∀ d : Fin 8, octalSpelling d ∈ decimalDigits := by decide
      exact .cons (.other hletter hline hx hu fun d hd => hdigit (hd ▸ hoctal d)) hnext
  | continuation hc hreturn => exact .cons (.lineEnd hc hreturn) hnext
  | longContinuation => exact .cons .lineBreak hnext

/-- The text of a template is the body of a string, if the ends of lines are kept. -/
theorem Cooked.body (h : Cooked true raw units) : Body raw units := by
  induction h with
  | nil => exact .nil
  | cons piece _ ih => exact piece.body ih

/-! ## The ends of lines -/

/-- Characters that are neither carriage returns nor backslashes are passed over. -/
theorem bare_returns_plain {t : Text} (h : ∀ c ∈ t, c ≠ 0x0D ∧ c ≠ backslash) (next : Text) :
    bareReturns (t ++ next) = bareReturns next := by
  induction t with
  | nil => rfl
  | cons c t ih =>
      obtain ⟨⟨hreturn, hslash⟩, hrest⟩ := List.forall_mem_cons.mp h
      rw [← ih hrest, List.cons_append, bareReturns, bareReturnsFrom, if_neg hreturn,
        decide_eq_false hslash, Nat.zero_add, bareReturns]

/-- An escape is passed over if such characters follow its first one. -/
theorem bare_returns_escape (e : CodePoint) {t : Text}
    (h : ∀ c ∈ t, c ≠ 0x0D ∧ c ≠ backslash) (next : Text) :
    bareReturns (backslash :: e :: (t ++ next)) = bareReturns next := by
  rw [← bare_returns_plain h next]
  simp [bareReturns, bareReturnsFrom, backslash]

/-- A hexadecimal digit is neither a carriage return nor a backslash. -/
theorem spelling_plain (d : HexDigit) : d.spelling ≠ 0x0D ∧ d.spelling ≠ backslash := by
  obtain ⟨value, isUpper⟩ := d
  revert value isUpper
  decide

/-- A piece that is kept as it is written differs from what it means by its bare carriage returns,
and is the same if it has none. -/
theorem Piece.keep (h : Piece false next spelling codes) :
    ∃ written bare, Piece true next spelling written ∧
      bareReturns (spelling ++ next) = bare + bareReturns next ∧
      written.count 0x0D = codes.count 0x0D + bare ∧ (bare = 0 → written = codes) := by
  have hescape : ∀ {e : CodePoint} {t : Text}, (∀ c ∈ t, c ≠ 0x0D ∧ c ≠ backslash) →
      bareReturns (backslash :: e :: (t ++ next)) = 0 + bareReturns next := fun ht => by
    rw [bare_returns_escape _ ht, Nat.zero_add]
  cases h with
  | character hc hreturn =>
      have hplain := bare_returns_plain (List.forall_mem_singleton.mpr ⟨hreturn, hc⟩) next
      exact ⟨_, 0, .character hc hreturn, by rw [hplain, Nat.zero_add], rfl, fun _ => rfl⟩
  | lineEnd hnext => exact ⟨_, 1, .lineEnd hnext, rfl, rfl, by simp⟩
  | lineBreak =>
      refine ⟨_, 1, .lineBreak, ?_, rfl, by simp⟩
      show 1 + bareReturns ([0x0A] ++ next) = _
      rw [bare_returns_plain (by decide) next]
  | control h => exact ⟨_, 0, .control h, hescape (t := []) (by simp), rfl, fun _ => rfl⟩
  | null hnext => exact ⟨_, 0, .null hnext, hescape (t := []) (by simp), rfl, fun _ => rfl⟩
  | byte a b =>
      refine ⟨_, 0, .byte a b, hescape (t := [a.spelling, b.spelling]) ?_, rfl, fun _ => rfl⟩
      simp [spelling_plain]
  | unit a b c d =>
      refine ⟨_, 0, .unit a b c d,
        hescape (t := [a.spelling, b.spelling, c.spelling, d.spelling]) ?_, rfl, fun _ => rfl⟩
      simp [spelling_plain]
  | @braced digits hne hle =>
      refine ⟨_, 0, .braced hne hle,
        hescape (t := '{'.toNat :: (digits.map HexDigit.spelling ++ ['}'.toNat])) ?_, rfl,
        fun _ => rfl⟩
      have hbraces : '{'.toNat ≠ backslash ∧ '}'.toNat ≠ backslash := by decide
      simpa [spelling_plain, or_imp, forall_and] using hbraces
  | other hletter hline hx hu hdigit =>
      exact ⟨_, 0, .other hletter hline hx hu hdigit, hescape (t := []) (by simp), rfl,
        fun _ => rfl⟩
  | continuation hc hnext =>
      exact ⟨_, 0, .continuation hc hnext, hescape (t := []) (by simp), rfl, fun _ => rfl⟩
  | longContinuation =>
      exact ⟨_, 0, .longContinuation, hescape (t := [0x0A]) (by decide), rfl, fun _ => rfl⟩

/-- The text of a template that is kept as it is written differs from what it means by its bare
carriage returns, and is the same if it has none. -/
theorem Cooked.keep (h : Cooked false raw cooked) :
    ∃ units, Cooked true raw units ∧ units.count 0x0D = cooked.count 0x0D + bareReturns raw ∧
      (bareReturns raw = 0 → units = cooked) := by
  induction h with
  | nil => exact ⟨[], .nil, rfl, fun _ => rfl⟩
  | cons piece _ ih =>
      obtain ⟨written, bare, hpiece, hbare, hcount, hsame⟩ := piece.keep
      obtain ⟨units, hbody, hrest, hothers⟩ := ih
      refine ⟨written ++ units, .cons hpiece hbody, ?_, fun hnone => ?_⟩
      · rw [List.count_append, List.count_append, hcount, hrest, hbare]
        omega
      · rw [hsame (by omega), hothers (by omega)]

/-! ## Decoding -/

/-- Joining surrogates makes and loses no carriage return. -/
theorem count_return_pair_surrogates : ∀ t : Text,
    (Text.pairSurrogates t).count 0x0D = t.count 0x0D
  | [] | [_] => rfl
  | high :: low :: rest => by
      rw [Text.pairSurrogates]
      split
      case isTrue hpair =>
        obtain ⟨hhigh, hlow⟩ := (Bool.and_eq_true _ _).mp hpair
        have hlarge := (pair_of_surrogates hhigh hlow).1
        have hnone : Text.pairOf high low ≠ 0x0D ∧ high ≠ 0x0D ∧ low ≠ 0x0D := by
          simp only [Text.isHighSurrogate, Text.isLowSurrogate, Bool.and_eq_true,
            decide_eq_true_eq, CodePoint] at *
          omega
        rw [List.count_cons_of_ne hnone.1, List.count_cons_of_ne hnone.2.1,
          List.count_cons_of_ne hnone.2.2, count_return_pair_surrogates rest]
      case isFalse =>
        rw [List.count_cons, List.count_cons, count_return_pair_surrogates (low :: rest)]

/-- The text of a template is decoded to what it means but for the ends of lines, which are kept as
they are written. It is what it means exactly if it has no bare carriage return. -/
theorem decode_of_cooked (h : Cooked false raw cooked) :
    ∃ units, Cooked true raw units ∧ decode raw = .ok (Text.pairSurrogates units) ∧
      (Text.pairSurrogates units = Text.pairSurrogates cooked ↔ bareReturns raw = 0) := by
  obtain ⟨units, hkept, hcount, hsame⟩ := h.keep
  refine ⟨units, hkept, by rw [decode, units_of_body hkept.body]; rfl, ?_, fun hnone => ?_⟩
  · intro heq
    have hreturns := congrArg (List.count 0x0D) heq
    rw [count_return_pair_surrogates, count_return_pair_surrogates, hcount] at hreturns
    omega
  · rw [hsame hnone]

end StaticLiteral.Escape
