import StaticLiteral.Number.Shortest
import StaticLiteral.Text

/-!
# Writing numbers

A decimal is written positionally while its point is near its digits, and with an exponent
otherwise. What "near" means, and how an exponent looks, is one `Layout` for each kind of output.
-/

namespace StaticLiteral

/-- How decimals are written. The point is said to be at `n` if the value is the digits behind a
point, times `10 ^ n`. -/
structure Layout where
  /-- positional notation needs the point above this -/
  above : Int
  /-- and at most here -/
  upTo : Int
  /-- whether an integer is followed by a point and a zero -/
  pointZero : Bool
  /-- the least number of digits of an exponent -/
  exponentWidth : Nat

namespace Layout

/-- Up to twenty-one digits before the point and six after it; exponents without padding. -/
def constant : Layout := ⟨-6, 21, false, 1⟩

/-- Up to sixteen digits before the point; integers keep a fraction; exponents of two digits. -/
def report : Layout := ⟨-4, 16, true, 2⟩

/-- `n` zeros. -/
def zeros (n : Nat) : Text := List.replicate n '0'.toNat

/-- The exponent part for a point at `n`. -/
def exponent (l : Layout) (n : Int) : Text :=
  let e := n - 1
  let digits := Text.ofNat e.natAbs
  'e'.toNat :: (if 0 ≤ e then '+'.toNat else '-'.toNat) ::
    (zeros (l.exponentWidth - digits.length) ++ digits)

/-- The digits of a decimal with a point at `n`. -/
def place (l : Layout) (digits : Text) (n : Int) : Text :=
  let k := digits.length
  if l.above < n && n ≤ l.upTo then
    if k ≤ n then digits ++ zeros (n.toNat - k) ++ if l.pointZero then Text.ofString ".0" else []
    else if 0 < n then digits.take n.toNat ++ '.'.toNat :: digits.drop n.toNat
    else Text.ofString "0." ++ zeros n.natAbs ++ digits
  else
    match digits with
    | [] => []
    | [d] => d :: l.exponent n
    | d :: rest => d :: '.'.toNat :: rest ++ l.exponent n

/-- The text of a magnitude. -/
def magnitude (l : Layout) (m : Magnitude) : Text :=
  if m.mantissa = 0 then Text.ofString (if l.pointZero then "0.0" else "0")
  else
    let d := m.shortest
    let digits := Text.ofNat d.digits
    l.place digits (d.exponent + digits.length)

end Layout

/-- The text of a number as a constant coerced to text has it; zero has no sign. -/
def Double.toText : Double → Text
  | .nan => Text.ofString "NaN"
  | .infinite negative => Text.ofString (if negative then "-Infinity" else "Infinity")
  | .finite negative m =>
    if negative && m.mantissa != 0 then '-'.toNat :: Layout.constant.magnitude m
    else Layout.constant.magnitude m

end StaticLiteral
