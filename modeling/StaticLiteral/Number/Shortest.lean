import StaticLiteral.Number.Rounding

/-!
# Shortest decimals

The shortest decimal of a double has the fewest digits among the decimals that read back as that
double, and is the nearest to it of those; of two equally near ones it is the one with an even last
digit. On the grid of all decimals with a given number of digits only the two neighbours of the
exact value can be that decimal.
-/

namespace StaticLiteral

/-- The number `digits * 10 ^ exponent`. -/
structure Decimal where
  digits : Nat
  exponent : Int
  deriving DecidableEq

namespace Decimal

/-- The same number without zeros at the end of its digits; at most `fuel` of them are removed. -/
def normalize : Nat → Decimal → Decimal
  | 0, d => d
  | fuel + 1, d =>
    if d.digits % 10 = 0 && d.digits != 0 then normalize fuel ⟨d.digits / 10, d.exponent + 1⟩ else d

/-- Whether the decimal is read as the magnitude `m`. -/
def readsBack (d : Decimal) (m : Magnitude) : Bool :=
  Rounding.decimal? d.digits d.exponent == some m

end Decimal

namespace Magnitude

/-- The exponent `p` with `10 ^ (p - 1) ≤ m < 10 ^ p`, for a magnitude other than zero. -/
def decimalPoint (m : Magnitude) : Int :=
  if unitsOfOne ≤ m.units then (Rounding.digitCount (m.units / unitsOfOne) : Int)
  else 1 - (Rounding.digitCount ((unitsOfOne - 1) / m.units) : Int)

/-- The magnitude divided by `10 ^ exponent`, as a numerator and a denominator. -/
def scaledDown (m : Magnitude) : Int → Nat × Nat
  | .ofNat e => (m.units, unitsOfOne * Nat.pow 10 e)
  | .negSucc e => (m.units * Nat.pow 10 (e + 1), unitsOfOne)

/-- The nearest decimal of `count` digits that reads back as `m`, if one does. -/
def ofCount? (m : Magnitude) (count : Nat) : Option Decimal :=
  let exponent := m.decimalPoint - count
  let (num, den) := m.scaledDown exponent
  let below : Decimal := ⟨num / den, exponent⟩
  let above : Decimal := ⟨num / den + 1, exponent⟩
  let rest := num % den
  let preferAbove := den < 2 * rest || 2 * rest == den && below.digits % 2 == 1
  match below.readsBack m, above.readsBack m with
  | true, true => some (if preferAbove then above else below)
  | true, false => some below
  | false, true => some above
  | false, false => none

/-- The shortest decimal of a magnitude, without zeros at the end. Seventeen digits always read
back. -/
def shortest (m : Magnitude) : Decimal :=
  match (List.range 17).findSome? fun n => m.ofCount? (n + 1) with
  | some d => d.normalize 20
  | none => ⟨0, 0⟩

end Magnitude

end StaticLiteral
