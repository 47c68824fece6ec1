import StaticLiteral.Text.Utf16

/-!
# Escapes in string and template text

The body of a string literal is a sequence of characters and escapes. `Escape.decode` reads it from
the left; an escape that is not well formed stands for the character after its backslash. Only
`\u{…}` with a value beyond U+10FFFF denotes nothing, and is the one failure.
-/

namespace StaticLiteral.Escape

/-- A `\u{…}` escape whose hexadecimal digits have a value beyond U+10FFFF. -/
structure BeyondRange where
  digits : Text
  deriving DecidableEq

/-- What is said about such an escape. -/
def BeyondRange.message (e : BeyondRange) : Text :=
  Text.ofString "\\u\x7b" ++ e.digits ++ Text.ofString "\x7d is beyond U+10FFFF"

/-- The value of a digit up to f, in either case. -/
def hexDigit? (c : CodePoint) : Option Nat :=
  if '0'.toNat ≤ c && c ≤ '9'.toNat then some (c - '0'.toNat)
  else if 'a'.toNat ≤ c && c ≤ 'f'.toNat then some (c - 'a'.toNat + 10)
  else if 'A'.toNat ≤ c && c ≤ 'F'.toNat then some (c - 'A'.toNat + 10)
  else none

/-- The value of a non-empty run of hexadecimal digits. -/
def hexValue? : Text → Option Nat
  | [] => none
  | digits => digits.foldl (fun n c => do pure ((← n) * 16 + (← hexDigit? c))) (some 0)

/-- A digit from 0 to 7. -/
def isOctal (c : CodePoint) : Bool := '0'.toNat ≤ c && c ≤ '7'.toNat

/-- The value of a run of octal digits. -/
def octalValue (digits : Text) : Nat := digits.foldl (fun n c => n * 8 + (c - '0'.toNat)) 0

/-- The control character that a one-letter escape names. -/
def control? (c : CodePoint) : Option CodePoint :=
  if c = 'b'.toNat then some 0x08
  else if c = 'f'.toNat then some 0x0C
  else if c = 'n'.toNat then some 0x0A
  else if c = 'r'.toNat then some 0x0D
  else if c = 't'.toNat then some 0x09
  else if c = 'v'.toNat then some 0x0B
  else none

/-- A line feed, U+2028 or U+2029. -/
def isLineEnd (c : CodePoint) : Bool := c == 0x0A || c == 0x2028 || c == 0x2029

/-- The value of the `count` hexadecimal digits at the front. -/
def fixedHex? (count : Nat) (t : Text) : Option Nat :=
  let digits := t.take count
  if digits.length = count then hexValue? digits else none

/-- What stands between the braces of `{…}` at the front of a text that starts with a brace. -/
def braced? : Text → Option Text
  | [] => none
  | _ :: body =>
    let digits := body.takeWhile (· != '}'.toNat)
    if digits.length < body.length then some digits else none

/-- What an escape yields: its code points, and how many characters after the backslash it takes. -/
abbrev Yield := List CodePoint × Nat

/-- The escape `\u`, by what follows the letter. -/
def unicode (after : Text) : Except BeyondRange Yield :=
  if after.head? = some '{'.toNat then
    match braced? after with
    | none => .ok (['u'.toNat], 1)
    | some digits =>
      match hexValue? digits with
      | none => .ok (['u'.toNat], 1)
      | some code =>
        if code > 0x10FFFF then .error ⟨digits⟩ else .ok ([code], digits.length + 3)
  else
    match fixedHex? 4 after with
    | some code => .ok ([code], 5)
    | none => .ok (['u'.toNat], 1)

/-- The escape that begins with `c`, the character after the backslash. -/
def escape (c : CodePoint) (after : Text) : Except BeyondRange Yield :=
  match control? c with
  | some code => .ok ([code], 1)
  | none =>
    if c = 0x0D then .ok ([], if after.head? = some 0x0A then 2 else 1)
    else if isLineEnd c then .ok ([], 1)
    else if c = 'x'.toNat then
      match fixedHex? 2 after with
      | some code => .ok ([code], 3)
      | none => .ok ([c], 1)
    else if c = 'u'.toNat then unicode after
    else if isOctal c then
      let limit := if c ≤ '3'.toNat then 3 else 2
      let digits := ((c :: after).takeWhile isOctal).take limit
      .ok ([octalValue digits], digits.length)
    else .ok ([c], 1)

/-- The code points that a body denotes, pairs of surrogates not yet joined; the first `skip`
characters belong to an escape that was read before. -/
def unitsFrom : Nat → Text → Except BeyondRange (List CodePoint)
  | _, [] => .ok []
  | skip + 1, _ :: rest => unitsFrom skip rest
  | 0, c :: rest =>
    if c = '\\'.toNat then
      match rest with
      | [] => .ok ['\\'.toNat]
      | e :: after =>
        match escape e after with
        | .error fault => .error fault
        | .ok (codes, taken) => (codes ++ ·) <$> unitsFrom taken (e :: after)
    else (c :: ·) <$> unitsFrom 0 rest

/-- The code points that a body denotes, pairs of surrogates not yet joined. -/
def units (t : Text) : Except BeyondRange (List CodePoint) := unitsFrom 0 t

/-- The text that the body of a string literal or template chunk denotes. -/
def decode (t : Text) : Except BeyondRange Text := Text.pairSurrogates <$> units t

end StaticLiteral.Escape
