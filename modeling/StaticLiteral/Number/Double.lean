/-!
# Double precision numbers

A double is not a number, an infinity, or a sign with a magnitude. All magnitudes are whole
multiples of 2^-1074, so a magnitude is a natural number of such units: a mantissa below 2^53
shifted by a scale. The canonical form makes the mantissa and the scale unique.
-/

namespace StaticLiteral

/-- The size of a finite double: `mantissa * 2 ^ scale` units of 2^-1074, in canonical form. -/
structure Magnitude where
  mantissa : Nat
  scale : Nat
  canonical : mantissa < 0x20000000000000 ∧ scale ≤ 2045 ∧
    (0x10000000000000 ≤ mantissa ∨ scale = 0)
  deriving DecidableEq

namespace Magnitude

/-- The magnitude zero. -/
def zero : Magnitude := ⟨0, 0, by decide⟩

/-- The magnitude with this mantissa and scale, if they are canonical. -/
def make? (mantissa scale : Nat) : Option Magnitude :=
  if h : mantissa < 0x20000000000000 ∧ scale ≤ 2045 ∧
      (0x10000000000000 ≤ mantissa ∨ scale = 0) then
    some ⟨mantissa, scale, h⟩
  else none

/-- How many units the number one is. -/
def unitsOfOne : Nat := Nat.pow 2 1074

/-- How many units of 2^-1074 the magnitude is. -/
def units (m : Magnitude) : Nat := m.mantissa * Nat.pow 2 m.scale

/-- The eleven bits of the exponent and the fifty-two of the fraction, as one number. -/
def toBits (m : Magnitude) : Nat :=
  if m.mantissa < 0x10000000000000 then m.mantissa
  else (m.scale + 1) * 0x10000000000000 + (m.mantissa - 0x10000000000000)

end Magnitude

/-- A double precision number. -/
inductive Double where
  | nan
  | infinite (negative : Bool)
  | finite (negative : Bool) (magnitude : Magnitude)
  deriving DecidableEq

namespace Double

/-- Positive zero. -/
def zero : Double := .finite false .zero

/-- The number with the other sign; zero and the infinities have one, too. -/
def negate : Double → Double
  | .nan => .nan
  | .infinite negative => .infinite !negative
  | .finite negative magnitude => .finite (!negative) magnitude

/-- Equality of numbers: the two zeros are equal, and what is not a number equals nothing. -/
def equals : Double → Double → Bool
  | .infinite a, .infinite b => a == b
  | .finite a m, .finite b n => m == n && (a == b || m.mantissa == 0)
  | _, _ => false

/-- The sign as the highest of sixty-four bits. -/
def signBit (negative : Bool) : Nat := if negative then 0x8000000000000000 else 0

/-- The interchange format: sign, exponent and fraction in sixty-four bits. -/
def toBits : Double → Nat
  | .nan => 0x7FF8000000000000
  | .infinite negative => signBit negative + 0x7FF0000000000000
  | .finite negative magnitude => signBit negative + magnitude.toBits

/-- The double that sixty-four bits stand for. -/
def ofBits (bits : Nat) : Double :=
  let negative := decide (0x8000000000000000 ≤ bits)
  let exponent := bits / 0x10000000000000 % 2048
  let fraction := bits % 0x10000000000000
  if exponent = 2047 then
    if fraction = 0 then .infinite negative else .nan
  else
    let magnitude :=
      if exponent = 0 then Magnitude.make? fraction 0
      else Magnitude.make? (0x10000000000000 + fraction) (exponent - 1)
    match magnitude with
    | some m => .finite negative m
    | none => .nan

/-- The integer that the number is, if it is one. -/
def toInt? : Double → Option Int
  | .finite negative m =>
    if m.units % Magnitude.unitsOfOne = 0 then
      let n : Int := m.units / Magnitude.unitsOfOne
      some (if negative then -n else n)
    else none
  | _ => none

end Double

end StaticLiteral
