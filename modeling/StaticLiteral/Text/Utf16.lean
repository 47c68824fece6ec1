import StaticLiteral.Text

/-!
# Surrogate pairs

A code point above U+FFFF has two spellings as code units: itself, or a high surrogate followed by
a low one. `Text.pairSurrogates` turns each such pair, read from the left, into its code point.
-/

namespace StaticLiteral.Text

/-- U+D800 to U+DBFF, the first halves of pairs. -/
def isHighSurrogate (c : CodePoint) : Bool := 0xD800 ≤ c && c ≤ 0xDBFF

/-- U+DC00 to U+DFFF, the second halves of pairs. -/
def isLowSurrogate (c : CodePoint) : Bool := 0xDC00 ≤ c && c ≤ 0xDFFF

/-- U+D800 to U+DFFF. -/
def isSurrogate (c : CodePoint) : Bool := 0xD800 ≤ c && c ≤ 0xDFFF

/-- The code point that a high and a low surrogate spell together. -/
def pairOf (high low : CodePoint) : CodePoint :=
  0x10000 + (high - 0xD800) * 0x400 + (low - 0xDC00)

/-- The text with every high surrogate and the low surrogate directly after it made one code
point, from the left. -/
def pairSurrogates : Text → Text
  | high :: low :: rest =>
    if isHighSurrogate high && isLowSurrogate low then pairOf high low :: pairSurrogates rest
    else high :: pairSurrogates (low :: rest)
  | t => t

end StaticLiteral.Text
