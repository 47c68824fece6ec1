import StaticLiteral.Pattern.Reader

/-!
# Escapes in patterns

What a backslash means outside and inside a character set.
-/

namespace StaticLiteral.PatternSyntax

/-- What stands in a character set: one character, or a class of characters. -/
inductive SetMember where
  | point (c : CodePoint)
  | category

/-- A decimal digit of ASCII. -/
def isDigit (c : CodePoint) : Bool := '0'.toNat ≤ c && c ≤ '9'.toNat

/-- A letter of ASCII. -/
def isLetter (c : CodePoint) : Bool :=
  'a'.toNat ≤ c && c ≤ 'z'.toNat || 'A'.toNat ≤ c && c ≤ 'Z'.toNat

/-- A hexadecimal digit. -/
def isHex (c : CodePoint) : Bool := (Escape.hexDigit? c).isSome

/-- The letters that stand for a control character everywhere. -/
def control? (c : CodePoint) : Option CodePoint :=
  if c = 'a'.toNat then some 7
  else if c = 'f'.toNat then some 12
  else if c = 'n'.toNat then some 10
  else if c = 'r'.toNat then some 13
  else if c = 't'.toNat then some 9
  else if c = 'v'.toNat then some 11
  else if c = '\\'.toNat then some '\\'.toNat
  else none

/-- The letters that stand for a class of characters. -/
def isCategory (c : CodePoint) : Bool := (Text.ofString "dDsSwW").contains c

/-- The letters that stand for a position. -/
def isAnchor (c : CodePoint) : Bool := (Text.ofString "AbBZ").contains c

/-- The code point of exactly `count` hexadecimal digits. -/
def hexEscape (count : Nat) : Read CodePoint := do
  let digits ← takeChars (some count) isHex
  match Escape.fixedHex? count digits with
  | some c => if c ≤ 0x10FFFF then return c else invalid
  | none => invalid

/-- The code point of the character with a name in braces. -/
def nameEscape : Read CodePoint := do
  if !(← accept '{') then invalid
  let name ← takeName '}'
  match (← get).characterNames name with
  | some c => return c
  | none => invalid

/-- The escapes `\x`, `\u`, `\U` and `\N`, which are the same inside and outside sets. -/
def codeEscape? (c : CodePoint) : Option (Read CodePoint) :=
  if c = 'x'.toNat then some (hexEscape 2)
  else if c = 'u'.toNat then some (hexEscape 4)
  else if c = 'U'.toNat then some (hexEscape 8)
  else if c = 'N'.toNat then some nameEscape
  else none

/-- An escape with no other meaning: a character for itself, but no letter or digit. -/
def selfEscape (c : CodePoint) : Read CodePoint :=
  if isLetter c || isDigit c then invalid else return c

/-- What the escape of `c` means in a character set. -/
def setEscape (c : CodePoint) : Read SetMember := do
  if c = 'b'.toNat then return .point 8
  else if isCategory c then return .category
  else
    match control? c, codeEscape? c with
    | some code, _ => return .point code
    | none, some read => return .point (← read)
    | none, none =>
      if Escape.isOctal c then
        let more ← takeChars (some 2) Escape.isOctal
        let code := Escape.octalValue (c :: more)
        if code ≤ 0o377 then return .point code else invalid
      else return .point (← selfEscape c)

/-- The item that matches one character. -/
def charItem : Item := ⟨.plain, .one⟩

/-- The item that matches what a group matched. -/
def groupReference (group : Nat) : Read Item := do
  match (← get).closed? group with
  | none => invalid
  | some width =>
    checkLookBehind group
    return ⟨.plain, width⟩

/-- An escape that begins with the digit `c`, which is not zero: three octal digits are a
character, otherwise one or two digits are the number of a group. -/
def digitEscape (c : CodePoint) : Read Item := do
  let second ← takeChars (some 1) isDigit
  let octal := Escape.isOctal c && second.all Escape.isOctal
  let third ← if octal && second.length = 1 then takeChars (some 1) Escape.isOctal else pure []
  if third.length = 1 then
    if Escape.octalValue (c :: second ++ third) ≤ 0o377 then return charItem else invalid
  else groupReference (Numeral.value 10 ((c :: second).map (· - '0'.toNat)))

/-- What the escape of `c` means outside character sets. -/
def itemEscape (c : CodePoint) : Read Item := do
  if isAnchor c then return ⟨.anchor, .none⟩
  else if isCategory c || (control? c).isSome then return charItem
  else
    match codeEscape? c with
    | some read =>
      let _ ← read
      return charItem
    | none =>
      if c = '0'.toNat then
        let _ ← takeChars (some 2) Escape.isOctal
        return charItem
      else if isDigit c then digitEscape c
      else
        let _ ← selfEscape c
        return charItem

end StaticLiteral.PatternSyntax
