import StaticLiteral.Number.Numeral
import StaticLiteral.Text.Quoted

/-!
# Number literals

The value of a numeric literal is a double, that of a bigint literal an integer. Underscores are
ignored wherever they stand.
-/

namespace StaticLiteral

/-- The text without underscores. -/
def Text.withoutSeparators (t : Text) : Text := t.filter (· != '_'.toNat)

namespace NumericLiteral

/-- The radix of a literal that starts with a zero and a lower-case radix letter. -/
def radix? (t : Text) : Option Nat :=
  if t.startsWith (Text.ofString "0x") then some 16
  else if t.startsWith (Text.ofString "0o") then some 8
  else if t.startsWith (Text.ofString "0b") then some 2
  else none

/-- A leading zero and further octal digits, the old form of an octal literal. -/
def isLegacyOctal (t : Text) : Bool :=
  1 < t.length && t.head? == some '0'.toNat && t.all fun c => '0'.toNat ≤ c && c ≤ '7'.toNat

/-- The value of a numeric literal, or `none` if the text is none. -/
def value? (text : Text) : Option Double :=
  let t := text.withoutSeparators.lowerAscii
  match radix? t with
  | some radix => Rounding.integer <$> Numeral.integer? radix (t.drop 2)
  | none =>
    if isLegacyOctal t then Rounding.integer <$> Numeral.integer? 8 t else Numeral.double? t

end NumericLiteral

namespace BigintLiteral

/-- Why a text is no bigint literal. -/
inductive Fault where
  | noSuffix (text : Text)
  | malformed

/-- What is said about a missing suffix; a malformed number has no message of its own. -/
def Fault.message? : Fault → Option Text
  | .noSuffix text => some (Text.ofString "not a bigint literal: " ++ text.quoted)
  | .malformed => none

/-- The value of a bigint literal. -/
def value (text : Text) : Except Fault Int :=
  let t := text.withoutSeparators
  if t.endsWith (Text.ofString "n") then
    match Numeral.markedInteger? t.dropLast with
    | some n => .ok n
    | none => .error .malformed
  else .error (.noSuffix text)

end BigintLiteral

/-- The decimal text of an integer, or `none` if it has more digits than are ever written. -/
def Numeral.text? (n : Int) : Option Text :=
  if Rounding.digitCount n.natAbs ≤ digitLimit then some (Text.ofInt n) else none

end StaticLiteral
