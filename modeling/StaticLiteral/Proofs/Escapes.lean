import Mathlib.Data.List.Basic
import Mathlib.Data.List.Induction
import Mathlib.Data.Nat.Digits.Defs
import StaticLiteral.Text.Escape

/-!
# What the body of a literal spells

The body of a string literal is a sequence of tokens. A character other than the backslash is a
token, and there are several kinds of escapes, of different lengths; some of them end where they do
only because of what follows. `Token` lists the kinds with the code points that each stands for, and
`decode_of_body` says that every body is decoded to these code points, with pairs of surrogates
joined.
-/

namespace StaticLiteral.Escape

/-! ## Digits -/

/-- A hexadecimal digit in upper or lower case. -/
structure HexDigit where
  value : Fin 16
  isUpper : Bool

namespace HexDigit

/-- The digit as it is written. -/
def spelling (d : HexDigit) : CodePoint :=
  if d.value.val < 10 then '0'.toNat + d.value.val
  else (if d.isUpper then 'A'.toNat else 'a'.toNat) + (d.value.val - 10)

/-- The number that some digits are, the first one the most significant. -/
def number (digits : List HexDigit) : Nat := Nat.ofDigits 16 (digits.reverse.map (·.value.val))

end HexDigit

/-- An octal digit as it is written. -/
def octalSpelling (d : Fin 8) : CodePoint := '0'.toNat + d.val

/-- The number that some octal digits are, the first one the most significant. -/
def octalNumber (digits : List (Fin 8)) : Nat := Nat.ofDigits 8 (digits.reverse.map Fin.val)

/-! ## Tokens -/

/-- The backslash. -/
def backslash : CodePoint := '\\'.toNat

/-- The letters that name control characters. -/
def controls : List (CodePoint × CodePoint) :=
  [('b'.toNat, 0x08), ('f'.toNat, 0x0C), ('n'.toNat, 0x0A), ('r'.toNat, 0x0D), ('t'.toNat, 0x09),
    ('v'.toNat, 0x0B)]

/-- The ends of lines that are single characters. -/
def lineEnds : List CodePoint := [0x0A, 0x0D, 0x2028, 0x2029]

/-- What a token may be when `next` follows it: how it is written, and the code points that it
stands for. -/
inductive Token (next : Text) : Text → List CodePoint → Prop where
  | raw {c : CodePoint} (hc : c ≠ backslash) : Token next [c] [c]
  | control {letter code : CodePoint} (h : (letter, code) ∈ controls) :
      Token next [backslash, letter] [code]
  | byte (a b : HexDigit) :
      Token next [backslash, 'x'.toNat, a.spelling, b.spelling] [HexDigit.number [a, b]]
  | unit (a b c d : HexDigit) :
      Token next [backslash, 'u'.toNat, a.spelling, b.spelling, c.spelling, d.spelling]
        [HexDigit.number [a, b, c, d]]
  | braced {digits : List HexDigit} (hne : digits ≠ []) (hle : HexDigit.number digits ≤ 0x10FFFF) :
      Token next
        (backslash :: 'u'.toNat :: '{'.toNat :: (digits.map HexDigit.spelling ++ ['}'.toNat]))
        [HexDigit.number digits]
  /-- the longest octal escapes are followed by anything, the others by no octal digit -/
  | octal {first : Fin 8} {digits : List (Fin 8)} {longest : Nat}
      (hlongest : longest = if first ≤ 3 then 3 else 2) (hle : (first :: digits).length ≤ longest)
      (hend : (first :: digits).length = longest ∨ ∀ d, next.head? ≠ some (octalSpelling d)) :
      Token next (backslash :: (first :: digits).map octalSpelling) [octalNumber (first :: digits)]
  /-- a letter whose digits are missing stands for itself -/
  | bareByte (hbare : ∀ (a b : HexDigit) (rest : Text), next ≠ a.spelling :: b.spelling :: rest) :
      Token next [backslash, 'x'.toNat] ['x'.toNat]
  | bareUnit
      (hbare : ∀ (a b c d : HexDigit) (rest : Text),
        next ≠ a.spelling :: b.spelling :: c.spelling :: d.spelling :: rest)
      (hbraced : ∀ (digits : List HexDigit) (rest : Text), digits ≠ [] →
        next ≠ '{'.toNat :: digits.map HexDigit.spelling ++ '}'.toNat :: rest) :
      Token next [backslash, 'u'.toNat] ['u'.toNat]
  | other {c : CodePoint} (hletter : c ∉ controls.map (·.1)) (hline : c ∉ lineEnds)
      (hx : c ≠ 'x'.toNat) (hu : c ≠ 'u'.toNat) (hoctal : ∀ d, c ≠ octalSpelling d) :
      Token next [backslash, c] [c]
  /-- a line goes on after its end; a carriage return and a line feed are one end -/
  | lineEnd {c : CodePoint} (hc : c ∈ lineEnds) (hnext : c = 0x0D → next.head? ≠ some 0x0A) :
      Token next [backslash, c] []
  | lineBreak : Token next [backslash, 0x0D, 0x0A] []

/-- A text that is a sequence of tokens, and the code points that they stand for. -/
inductive Body : Text → List CodePoint → Prop where
  | nil : Body [] []
  | cons {spelling rest : Text} {codes units : List CodePoint} (token : Token rest spelling codes)
      (body : Body rest units) : Body (spelling ++ rest) (codes ++ units)

/-- The text in which every high surrogate and a low one directly after it, from the left, are one
code point. -/
inductive Joins : List CodePoint → Text → Prop where
  | nil : Joins [] []
  | pair {high low c : CodePoint} {units : List CodePoint} {text : Text} (hmin : 0x10000 ≤ c)
      (hmax : c ≤ 0x10FFFF) (hhigh : high = 0xD800 + (c - 0x10000) / 0x400)
      (hlow : low = 0xDC00 + (c - 0x10000) % 0x400) (rest : Joins units text) :
      Joins (high :: low :: units) (c :: text)
  | single {c : CodePoint} {units : List CodePoint} {text : Text}
      (halone : Text.isHighSurrogate c → ∀ low ∈ units.head?, ¬ Text.isLowSurrogate low)
      (rest : Joins units text) : Joins (c :: units) (c :: text)

/-! ## Reading digits -/

/-- One more hexadecimal digit. -/
theorem number_append (digits : List HexDigit) (d : HexDigit) :
    HexDigit.number (digits ++ [d]) = HexDigit.number digits * 16 + d.value := by
  simp [HexDigit.number, Nat.ofDigits_cons]
  omega

/-- One more octal digit. -/
theorem octal_number_append (digits : List (Fin 8)) (d : Fin 8) :
    octalNumber (digits ++ [d]) = octalNumber digits * 8 + d := by
  simp [octalNumber, Nat.ofDigits_cons]
  omega

/-- A hexadecimal digit is read as its value. -/
theorem hex_digit_spelling (d : HexDigit) : hexDigit? d.spelling = some d.value.val := by
  obtain ⟨value, isUpper⟩ := d
  revert value isUpper
  decide

/-- What is read as a hexadecimal digit is one. -/
theorem exists_hex_digit {c : CodePoint} {value : Nat} (h : hexDigit? c = some value) :
    ∃ d : HexDigit, d.spelling = c := by
  simp only [hexDigit?, CodePoint, Bool.and_eq_true, decide_eq_true_eq, Char.reduceToNat] at h
  split at h
  · exact ⟨⟨⟨c - 48, by omega⟩, false⟩, by simp [HexDigit.spelling]; grind⟩
  split at h
  · exact ⟨⟨⟨c - 97 + 10, by omega⟩, false⟩, by simp [HexDigit.spelling]; grind⟩
  split at h
  · exact ⟨⟨⟨c - 65 + 10, by omega⟩, true⟩, by simp [HexDigit.spelling]; grind⟩
  · cases h

/-- Hexadecimal digits are read as the number that they are. -/
theorem hex_value_spelling {digits : List HexDigit} (hne : digits ≠ []) :
    hexValue? (digits.map HexDigit.spelling) = some (HexDigit.number digits) := by
  have hfold : (digits.map HexDigit.spelling).foldl
      (fun n c => do pure ((← n) * 16 + (← hexDigit? c))) (some 0) =
        some (HexDigit.number digits) := by
    clear hne
    induction digits using List.reverseRecOn with
    | nil => rfl
    | append_singleton digits d ih =>
        rw [List.map_append, List.foldl_append, ih]
        simp [hex_digit_spelling, number_append]
  cases digits with
  | nil => cases hne rfl
  | cons d digits => exact hfold

/-- What is read as digits consists of digits. -/
theorem exists_hex_digits {text : Text} {value : Nat} (h : hexValue? text = some value) :
    ∃ digits : List HexDigit, digits ≠ [] ∧ digits.map HexDigit.spelling = text := by
  have hfold : ∀ value, text.foldl (fun n c => do pure ((← n) * 16 + (← hexDigit? c))) (some 0) =
      some value → ∃ digits : List HexDigit, digits.map HexDigit.spelling = text := by
    clear h
    induction text using List.reverseRecOn with
    | nil => exact fun _ _ => ⟨[], rfl⟩
    | append_singleton text c ih =>
        intro value h
        rw [List.foldl_append, List.foldl_cons, List.foldl_nil] at h
        obtain ⟨n, hn, h⟩ := Option.bind_eq_some_iff.mp h
        obtain ⟨k, hk, -⟩ := Option.bind_eq_some_iff.mp h
        obtain ⟨digits, rfl⟩ := ih n hn
        obtain ⟨d, rfl⟩ := exists_hex_digit hk
        exact ⟨digits ++ [d], by simp⟩
  cases text with
  | nil => cases h
  | cons c text =>
      obtain ⟨digits, hdigits⟩ := hfold value h
      exact ⟨digits, (by rintro rfl; cases hdigits), hdigits⟩

/-- As many digits as are asked for are read at the front. -/
theorem fixed_hex_spelling {digits : List HexDigit} (hne : digits ≠ []) (next : Text) :
    fixedHex? digits.length (digits.map HexDigit.spelling ++ next) =
      some (HexDigit.number digits) := by
  have htake : (digits.map HexDigit.spelling ++ next).take digits.length =
      digits.map HexDigit.spelling := List.take_left' (List.length_map _)
  simp [fixedHex?, htake, hex_value_spelling hne]

/-- What is read at the front are as many digits as are asked for. -/
theorem exists_fixed_hex {count value : Nat} {t : Text} (h : fixedHex? count t = some value) :
    ∃ (digits : List HexDigit) (rest : Text), digits.length = count ∧
      t = digits.map HexDigit.spelling ++ rest := by
  simp only [fixedHex?] at h
  split at h
  · next hlength =>
      obtain ⟨digits, -, hdigits⟩ := exists_hex_digits h
      exact ⟨digits, t.drop count, by rw [← hlength, ← hdigits, List.length_map],
        by rw [hdigits, List.take_append_drop]⟩
  · cases h

/-- No digit is a brace. -/
theorem spelling_ne_brace (d : HexDigit) : d.spelling ≠ '{'.toNat ∧ d.spelling ≠ '}'.toNat := by
  obtain ⟨value, isUpper⟩ := d
  revert value isUpper
  decide

/-- What stands between braces is read up to the first closing one. -/
theorem braced_spelling (digits : List HexDigit) (next : Text) :
    braced? ('{'.toNat :: (digits.map HexDigit.spelling ++ '}'.toNat :: next)) =
      some (digits.map HexDigit.spelling) := by
  have hdigit : ∀ c ∈ digits.map HexDigit.spelling, (c != '}'.toNat) = true := by
    intro c hc
    obtain ⟨d, -, rfl⟩ := List.mem_map.mp hc
    exact bne_iff_ne.mpr (spelling_ne_brace d).2
  have htake : (digits.map HexDigit.spelling ++ '}'.toNat :: next).takeWhile (· != '}'.toNat) =
      digits.map HexDigit.spelling := by
    rw [List.takeWhile_append_of_pos hdigit, List.takeWhile_cons_of_neg (by simp), List.append_nil]
  simp only [braced?, htake]
  exact if_pos (by simp)

/-- Where the run of other characters ends, the character stands. -/
theorem exists_after_take_while {t : Text} {c : CodePoint}
    (h : (t.takeWhile (· != c)).length < t.length) :
    ∃ rest, t = t.takeWhile (· != c) ++ c :: rest := by
  induction t with
  | nil => cases h
  | cons d t ih =>
      by_cases hd : d = c
      · exact ⟨t, by simp [hd]⟩
      · have htake : (d :: t).takeWhile (· != c) = d :: t.takeWhile (· != c) :=
          List.takeWhile_cons_of_pos (bne_iff_ne.mpr hd)
        rw [htake] at h ⊢
        obtain ⟨rest, hrest⟩ := ih (Nat.lt_of_succ_lt_succ h)
        exact ⟨rest, congrArg (d :: ·) hrest⟩

/-- What is read between braces stands there. -/
theorem exists_braced {t digits : Text} (h : braced? ('{'.toNat :: t) = some digits) :
    ∃ rest, t = digits ++ '}'.toNat :: rest := by
  simp only [braced?] at h
  split at h
  · next hlength =>
      cases h
      exact exists_after_take_while hlength
  · cases h

/-- Octal digits are read as the number that they are. -/
theorem octal_value_spelling (digits : List (Fin 8)) :
    octalValue (digits.map octalSpelling) = octalNumber digits := by
  induction digits using List.reverseRecOn with
  | nil => rfl
  | append_singleton digits d ih =>
      rw [octalValue] at ih ⊢
      rw [List.map_append, List.foldl_append, ih, octal_number_append]
      simp [octalSpelling]

/-- A character is read as an octal digit exactly if it is one. -/
theorem is_octal_iff {c : CodePoint} : isOctal c ↔ ∃ d, c = octalSpelling d := by
  simp only [isOctal, octalSpelling, Bool.and_eq_true, decide_eq_true_eq, CodePoint,
    Char.reduceToNat]
  constructor
  · exact fun h => ⟨⟨c - 48, by omega⟩, by simp; omega⟩
  · rintro ⟨d, rfl⟩
    omega

/-- As many octal digits are read at the front as there are, up to a limit. -/
theorem take_octal_spelling {digits : List (Fin 8)} {next : Text} {limit : Nat}
    (hle : digits.length ≤ limit)
    (hend : digits.length = limit ∨ ∀ d, next.head? ≠ some (octalSpelling d)) :
    ((digits.map octalSpelling ++ next).takeWhile isOctal).take limit =
      digits.map octalSpelling := by
  have hdigit : ∀ c ∈ digits.map octalSpelling, isOctal c = true := by
    intro c hc
    obtain ⟨d, -, rfl⟩ := List.mem_map.mp hc
    exact is_octal_iff.mpr ⟨d, rfl⟩
  rw [List.takeWhile_append_of_pos hdigit]
  rcases hend with heq | hnext
  · exact List.take_left' (by rw [List.length_map, heq])
  · have hstop : next.takeWhile isOctal = [] := by
      cases next with
      | nil => rfl
      | cons c next =>
          refine List.takeWhile_cons_of_neg fun hc => ?_
          obtain ⟨d, rfl⟩ := is_octal_iff.mp hc
          exact hnext d rfl
    rw [hstop, List.append_nil, List.take_of_length_le (by rwa [List.length_map])]

/-! ## Reading tokens -/

/-- Of an escape that was read before, the rest is passed over. -/
theorem units_from_eq_drop (skip : Nat) (t : Text) :
    unitsFrom skip t = unitsFrom 0 (t.drop skip) := by
  induction skip generalizing t with
  | zero => rfl
  | succ skip ih =>
      cases t with
      | nil => rfl
      | cons c t => exact ih t

variable {next spelling t : Text} {codes units : List CodePoint} {e : CodePoint} {taken : Nat}

/-- An escape yields its code points and is passed over. -/
theorem units_of_escape (h : escape e t = .ok (codes, taken)) (hnext : (e :: t).drop taken = next) :
    unitsFrom 0 (backslash :: e :: t) = (codes ++ ·) <$> unitsFrom 0 next := by
  subst hnext
  rw [← units_from_eq_drop]
  simp [unitsFrom, backslash, h]

/-- A letter that names a control character is read as it. -/
theorem escape_control {letter code : CodePoint} (h : (letter, code) ∈ controls) :
    escape letter next = .ok ([code], 1) := by
  have hcontrol : ∀ row ∈ controls, control? row.1 = some row.2 := by decide
  rw [escape, hcontrol _ h]

/-- Behind the letter of a byte two digits are read, if there are two. -/
theorem escape_x (t : Text) : escape 'x'.toNat t =
    match fixedHex? 2 t with
    | some code => .ok ([code], 3)
    | none => .ok (['x'.toNat], 1) := rfl

/-- Two hexadecimal digits behind an x are a code unit. -/
theorem escape_byte (a b : HexDigit) (next : Text) :
    escape 'x'.toNat (a.spelling :: b.spelling :: next) = .ok ([HexDigit.number [a, b]], 3) := by
  have hread : fixedHex? 2 (a.spelling :: b.spelling :: next) = some (HexDigit.number [a, b]) :=
    fixed_hex_spelling (List.cons_ne_nil a [b]) next
  rw [escape_x, hread]

/-- A letter without the two digits that it needs is read as itself. -/
theorem escape_bare_byte
    (hbare : ∀ (a b : HexDigit) (rest : Text), next ≠ a.spelling :: b.spelling :: rest) :
    escape 'x'.toNat next = .ok (['x'.toNat], 1) := by
  have hread : fixedHex? 2 next = none := by
    refine Option.eq_none_iff_forall_ne_some.mpr fun value hvalue => ?_
    obtain ⟨digits, rest, hlength, rfl⟩ := exists_fixed_hex hvalue
    obtain ⟨a, b, rfl⟩ := List.length_eq_two.mp hlength
    exact hbare a b rest rfl
  rw [escape_x, hread]

/-- What stands behind a u is read on its own. -/
theorem escape_u (t : Text) : escape 'u'.toNat t = unicode t := rfl

/-- Four digits after the letter are read as their number; none of them is a brace. -/
theorem escape_unit (a b c d : HexDigit) (next : Text) :
    escape 'u'.toNat (a.spelling :: b.spelling :: c.spelling :: d.spelling :: next) =
      .ok ([HexDigit.number [a, b, c, d]], 5) := by
  have hread : fixedHex? 4 (a.spelling :: b.spelling :: c.spelling :: d.spelling :: next) =
      some (HexDigit.number [a, b, c, d]) :=
    fixed_hex_spelling (List.cons_ne_nil a [b, c, d]) next
  have hbrace : ¬ (a.spelling :: b.spelling :: c.spelling :: d.spelling :: next).head? =
      some '{'.toNat := fun h => (spelling_ne_brace a).1 (Option.some.inj h)
  rw [escape_u]
  rw [unicode, if_neg hbrace, hread]

/-- Hexadecimal digits in braces are a code point, if there is one of this number. -/
theorem escape_braced {digits : List HexDigit} (hne : digits ≠ [])
    (hle : HexDigit.number digits ≤ 0x10FFFF) :
    escape 'u'.toNat ('{'.toNat :: (digits.map HexDigit.spelling ++ ['}'.toNat]) ++ next) =
      .ok ([HexDigit.number digits], digits.length + 3) := by
  rw [escape_u, List.cons_append, List.append_assoc]
  simp only [unicode, List.head?_cons, if_true, List.singleton_append, braced_spelling,
    hex_value_spelling hne, if_neg (Nat.not_lt.mpr hle), List.length_map]

/-- A letter without digits, in braces or not, is read as itself. -/
theorem escape_bare_unit
    (hbare : ∀ (a b c d : HexDigit) (rest : Text),
      next ≠ a.spelling :: b.spelling :: c.spelling :: d.spelling :: rest)
    (hbraced : ∀ (digits : List HexDigit) (rest : Text), digits ≠ [] →
      next ≠ '{'.toNat :: digits.map HexDigit.spelling ++ '}'.toNat :: rest) :
    escape 'u'.toNat next = .ok (['u'.toNat], 1) := by
  rw [escape_u]
  by_cases hopen : next.head? = some '{'.toNat
  · obtain ⟨t, rfl⟩ := List.head?_eq_some_iff.mp hopen
    rw [unicode, if_pos hopen]
    cases hbraces : braced? ('{'.toNat :: t) with
    | none => rfl
    | some text =>
        have hread : hexValue? text = none := by
          refine Option.eq_none_iff_forall_ne_some.mpr fun value hvalue => ?_
          obtain ⟨digits, hne, rfl⟩ := exists_hex_digits hvalue
          obtain ⟨rest, rfl⟩ := exists_braced hbraces
          exact hbraced digits rest hne rfl
        simp only [hread]
  · have hread : fixedHex? 4 next = none := by
      refine Option.eq_none_iff_forall_ne_some.mpr fun value hvalue => ?_
      obtain ⟨digits, rest, hlength, rfl⟩ := exists_fixed_hex hvalue
      match digits, hlength with
      | [a, b, c, d], _ => exact hbare a b c d rest rfl
    rw [unicode, if_neg hopen, hread]

/-- Octal digits are read up to the first other character, and up to three of them or two. -/
theorem escape_octal {first : Fin 8} {digits : List (Fin 8)} {longest : Nat}
    (hlongest : longest = if first ≤ 3 then 3 else 2) (hle : (first :: digits).length ≤ longest)
    (hend : (first :: digits).length = longest ∨ ∀ d, next.head? ≠ some (octalSpelling d)) :
    escape (octalSpelling first) (digits.map octalSpelling ++ next) =
      .ok ([octalNumber (first :: digits)], digits.length + 1) := by
  have hdigit : ∀ d : Fin 8, control? (octalSpelling d) = none ∧ octalSpelling d ≠ 0x0D ∧
      isLineEnd (octalSpelling d) = false ∧ octalSpelling d ≠ 'x'.toNat ∧
      octalSpelling d ≠ 'u'.toNat ∧ isOctal (octalSpelling d) = true ∧
      (octalSpelling d ≤ '3'.toNat ↔ d ≤ 3) := by decide
  obtain ⟨hcontrol, hreturn, hline, hx, hu, hoctal, hsmall⟩ := hdigit first
  have htake := take_octal_spelling hle hend
  have hvalue := octal_value_spelling (first :: digits)
  rw [List.map_cons] at htake hvalue
  rw [escape, hcontrol]
  simp only [if_neg hreturn, hline, Bool.false_eq_true, if_false, if_neg hx, if_neg hu, hoctal,
    if_true, hsmall, ← hlongest]
  rw [← List.cons_append, htake, hvalue]
  simp

/-- A character without a meaning of its own denotes itself. -/
theorem escape_other {c : CodePoint} (hletter : c ∉ controls.map (·.1)) (hline : c ∉ lineEnds)
    (hx : c ≠ 'x'.toNat) (hu : c ≠ 'u'.toNat) (hoctal : ∀ d, c ≠ octalSpelling d) :
    escape c next = .ok ([c], 1) := by
  have hcontrol : control? c = none := by
    simp only [controls, List.map_cons, List.map_nil, List.mem_cons, not_or] at hletter
    simp only [control?, hletter, if_false]
  simp only [lineEnds, List.mem_cons, List.not_mem_nil, or_false, not_or] at hline
  have hend : isLineEnd c = false := by simp [isLineEnd, hline]
  have hdigit : isOctal c = false := by
    refine Bool.eq_false_iff.mpr fun h => ?_
    obtain ⟨d, hd⟩ := is_octal_iff.mp h
    exact hoctal d hd
  rw [escape, hcontrol]
  simp only [if_neg hline.2.1, hend, if_neg hx, if_neg hu, hdigit, Bool.false_eq_true, if_false]

/-- After an end of a line nothing is read, or a line feed that belongs to it. -/
theorem escape_line_end {c : CodePoint} (hc : c ∈ lineEnds)
    (hnext : c = 0x0D → next.head? ≠ some 0x0A) : escape c next = .ok ([], 1) := by
  simp only [lineEnds, List.mem_cons, List.not_mem_nil, or_false] at hc
  rcases hc with rfl | rfl | rfl | rfl
  · rfl
  · show Except.ok ([], if next.head? = some 0x0A then 2 else 1) = _
    rw [if_neg (hnext rfl)]
  · rfl
  · rfl

/-- A token is read as the code points that it stands for. -/
theorem units_of_token (h : Token next spelling codes) :
    unitsFrom 0 (spelling ++ next) = (codes ++ ·) <$> unitsFrom 0 next := by
  cases h with
  | @raw c hc =>
      show unitsFrom 0 (c :: next) = _
      rw [unitsFrom.eq_def]
      exact if_neg hc
  | control h => exact units_of_escape (escape_control h) rfl
  | byte a b => exact units_of_escape (escape_byte a b next) rfl
  | unit a b c d => exact units_of_escape (escape_unit a b c d next) rfl
  | braced hne hle => exact units_of_escape (escape_braced hne hle) (List.drop_left' (by simp))
  | octal hlongest hle hend => exact units_of_escape (escape_octal hlongest hle hend) (by simp)
  | bareByte hbare => exact units_of_escape (escape_bare_byte hbare) rfl
  | bareUnit hbare hbraced => exact units_of_escape (escape_bare_unit hbare hbraced) rfl
  | other hletter hline hx hu hoctal =>
      exact units_of_escape (escape_other hletter hline hx hu hoctal) rfl
  | lineEnd hc hnext => exact units_of_escape (escape_line_end hc hnext) rfl
  | lineBreak => exact units_of_escape rfl rfl

/-- A body is read as the code points that its tokens stand for. -/
theorem units_of_body {text : Text} (h : Body text units) : Escape.units text = .ok units := by
  induction h with
  | nil => rfl
  | cons token _ ih => exact (units_of_token token).trans (congrArg _ ih)

/-! ## Joining surrogates -/

/-- A high and a low surrogate are the two halves of the code point that they are read as. -/
theorem pair_of_surrogates {high low : CodePoint} (hhigh : Text.isHighSurrogate high)
    (hlow : Text.isLowSurrogate low) :
    0x10000 ≤ Text.pairOf high low ∧ Text.pairOf high low ≤ 0x10FFFF ∧
      high = 0xD800 + (Text.pairOf high low - 0x10000) / 0x400 ∧
      low = 0xDC00 + (Text.pairOf high low - 0x10000) % 0x400 := by
  simp only [Text.isHighSurrogate, Text.isLowSurrogate, Bool.and_eq_true, decide_eq_true_eq,
    CodePoint] at hhigh hlow
  unfold Text.pairOf CodePoint
  omega

/-- The two halves of a code point are a high and a low surrogate. -/
theorem surrogates_of_pair {c : CodePoint} (hmax : c ≤ 0x10FFFF) :
    Text.isHighSurrogate (0xD800 + (c - 0x10000) / 0x400) ∧
      Text.isLowSurrogate (0xDC00 + (c - 0x10000) % 0x400) := by
  simp only [Text.isHighSurrogate, Text.isLowSurrogate, Bool.and_eq_true, decide_eq_true_eq,
    CodePoint] at *
  omega

/-- What is read as pairs of surrogates is joined. -/
theorem joins_pair_surrogates : ∀ units : List CodePoint, Joins units (Text.pairSurrogates units)
  | [] => .nil
  | [c] => .single (by simp) .nil
  | high :: low :: rest => by
      rw [Text.pairSurrogates]
      split
      case isTrue hpair =>
        obtain ⟨hhigh, hlow⟩ := (Bool.and_eq_true _ _).mp hpair
        obtain ⟨hmin, hmax, hfirst, hsecond⟩ := pair_of_surrogates hhigh hlow
        exact .pair hmin hmax hfirst hsecond (joins_pair_surrogates rest)
      case isFalse hpair =>
        refine .single (fun hhigh c hc hlow => hpair ?_) (joins_pair_surrogates (low :: rest))
        obtain rfl := Option.mem_some.mp hc
        rw [hhigh, hlow]
        rfl

/-- Surrogates are joined in one way. -/
theorem Joins.unique {first second : Text} (h : Joins units first) (h' : Joins units second) :
    first = second := by
  induction h generalizing second with
  | nil => cases h'; rfl
  | @pair high low c _ _ hmin hmax hhigh hlow _ ih =>
      cases h' with
      | @pair _ _ d _ _ hmin' hmax' hhigh' hlow' rest =>
          have hd : c = d := by
            simp only [CodePoint] at *
            omega
          rw [hd, ih rest]
      | single halone rest =>
          obtain ⟨hhalf, hother⟩ := surrogates_of_pair hmax
          exact absurd (hlow ▸ hother) (halone (hhigh ▸ hhalf) low rfl)
  | single halone _ ih =>
      cases h' with
      | @pair _ low c _ _ hmin hmax hhigh hlow rest =>
          obtain ⟨hhalf, hother⟩ := surrogates_of_pair hmax
          exact absurd (hlow ▸ hother) (halone (hhigh ▸ hhalf) low rfl)
      | single _ rest => rw [ih rest]

/-- Every sequence of tokens is decoded: to the code points that the tokens stand for, with pairs of
surrogates joined. -/
theorem decode_of_body {text : Text} (h : Body text units) :
    ∃ decoded, decode text = .ok decoded ∧ ∀ joined, Joins units joined ↔ joined = decoded := by
  refine ⟨Text.pairSurrogates units, ?_, fun joined => ⟨fun hjoined => ?_, ?_⟩⟩
  · rw [decode, units_of_body h]
    rfl
  · exact hjoined.unique (joins_pair_surrogates units)
  · rintro rfl
    exact joins_pair_surrogates units

/-- The two halves of a pair may be written as escapes of different kinds. Before an 8 an octal
escape ends early, and a line that goes on adds nothing. -/
theorem decode_of_body_mixed :
    decode (Text.ofString "\\ud83d\\u\x7b0DE00\x7d\\08\\\r\n") = .ok [0x1F600, 0, '8'.toNat] := by
  have body := Body.cons (.unit ⟨13, false⟩ ⟨8, false⟩ ⟨3, false⟩ ⟨13, false⟩) <|
    Body.cons (.braced
      (List.cons_ne_nil ⟨0, false⟩ [⟨13, true⟩, ⟨14, true⟩, ⟨0, false⟩, ⟨0, false⟩])
      (by decide)) <|
    Body.cons (@Token.octal _ 0 [] _ rfl (by decide) (.inr (by decide))) <|
    Body.cons (.raw (c := '8'.toNat) (by decide)) <| Body.cons .lineBreak .nil
  obtain ⟨decoded, hdecode, hjoins⟩ := decode_of_body body
  have hpairs : Joins _ [0x1F600, 0, '8'.toNat] := .pair (by decide) (by decide) rfl rfl <|
    .single (by decide) <| .single (by decide) .nil
  rw [← (hjoins _).mp hpairs] at hdecode
  exact hdecode

end StaticLiteral.Escape
