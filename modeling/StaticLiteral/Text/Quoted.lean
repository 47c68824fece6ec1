import StaticLiteral.Text.Printable

/-!
# Quoted text

How a message shows a text: between single quotes, or between double quotes when it holds a single
quote and no double one. The quote, the backslash and whatever is not printable are escaped.
-/

namespace StaticLiteral.Text

/-- The lower-case hexadecimal digits of `n`, with zeros in front up to `width`. -/
def hexPadded (width n : Nat) : Text :=
  let digits := (Nat.toDigits 16 n).map Char.toNat
  List.replicate (width - digits.length) '0'.toNat ++ digits

/-- One code point inside quotes. -/
def quotedPoint (quote c : CodePoint) : Text :=
  if c == quote || c == '\\'.toNat then ['\\'.toNat, c]
  else if c == 0x09 then ofString "\\t"
  else if c == 0x0A then ofString "\\n"
  else if c == 0x0D then ofString "\\r"
  else if isPrintable c then [c]
  else if c < 0x100 then ofString "\\x" ++ hexPadded 2 c
  else if c < 0x10000 then ofString "\\u" ++ hexPadded 4 c
  else ofString "\\U" ++ hexPadded 8 c

/-- The text between quotes. -/
def quoted (t : Text) : Text :=
  let quote := if t.contains '\''.toNat && !t.contains '"'.toNat then '"'.toNat else '\''.toNat
  quote :: t.flatMap (quotedPoint quote) ++ [quote]

end StaticLiteral.Text
