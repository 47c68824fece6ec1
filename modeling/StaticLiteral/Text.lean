/-!
# Text

Text is a list of Unicode code points. Unlike a string of scalar values it may hold surrogate code
points, because a program can spell one half of a surrogate pair and leave the other half out.
This module has the few operations on text that the rest of the library shares.
-/

namespace StaticLiteral

/-- A Unicode code point, surrogates included. -/
abbrev CodePoint := Nat

/-- A sequence of code points. -/
abbrev Text := List CodePoint

namespace Text

/-- The code points of a string. -/
def ofString (s : String) : Text := s.toList.map Char.toNat

/-- The decimal digits of a natural number. -/
def ofNat (n : Nat) : Text := (Nat.toDigits 10 n).map Char.toNat

/-- The decimal digits of an integer after its sign, which is written only when it is negative. -/
def ofInt : Int → Text
  | .ofNat n => ofNat n
  | .negSucc n => '-'.toNat :: ofNat (n + 1)

/-- Whether `t` begins with `start`. -/
def startsWith (t start : Text) : Bool := start.isPrefixOf t

/-- Whether `t` stops with `stop`. -/
def endsWith (t stop : Text) : Bool := stop.isSuffixOf t

/-- The pieces of `t` between the occurrences of `separator`; there is always at least one. -/
def split (separator : CodePoint) : Text → List Text
  | [] => [[]]
  | c :: rest =>
    match split separator rest with
    | [] => [[c]]
    | piece :: pieces =>
      if c == separator then [] :: piece :: pieces else (c :: piece) :: pieces

/-- The pieces one after the other with `separator` between neighbours. -/
def join (separator : Text) : List Text → Text
  | [] => []
  | [piece] => piece
  | piece :: pieces => piece ++ separator ++ join separator pieces

/-- The text without the code points of `drop` at its two ends. -/
def trim (drop : CodePoint → Bool) (t : Text) : Text :=
  ((t.dropWhile drop).reverse.dropWhile drop).reverse

/-- The text without the code points of `drop` at its end. -/
def trimEnd (drop : CodePoint → Bool) (t : Text) : Text := (t.reverse.dropWhile drop).reverse

/-- What stands before and after the last `c`, or `none` if `c` does not occur. -/
def splitLast? (c : CodePoint) (t : Text) : Option (Text × Text) :=
  let after := (t.reverse.takeWhile (· != c)).reverse
  if after.length < t.length then some (t.take (t.length - after.length - 1), after) else none

/-- Order by code points, a text before its extensions. -/
def le : Text → Text → Bool
  | [], _ => true
  | _ :: _, [] => false
  | a :: as, b :: bs => if a == b then le as bs else a < b

/-- Lower case of the letters A to Z; every other code point stays. -/
def lowerAscii (t : Text) : Text :=
  t.map fun c => if 'A'.toNat ≤ c && c ≤ 'Z'.toNat then c + 32 else c

end Text

end StaticLiteral
