import StaticLiteral.Text

/-!
# White space

Two classes of code points: those with the property White_Space, which may surround a number, and
these together with the four information separators, which is what trimming a text removes.
-/

namespace StaticLiteral.Text

/-- The property White_Space. -/
def isWhiteSpace (c : CodePoint) : Bool :=
  0x09 ≤ c && c ≤ 0x0D || c == 0x20 || c == 0x85 || c == 0xA0 || c == 0x1680
    || 0x2000 ≤ c && c ≤ 0x200A || c == 0x2028 || c == 0x2029 || c == 0x202F || c == 0x205F
    || c == 0x3000

/-- White space or one of the information separators U+001C to U+001F. -/
def isBlank (c : CodePoint) : Bool := isWhiteSpace c || 0x1C ≤ c && c ≤ 0x1F

end StaticLiteral.Text
