import StaticLiteral.Number.Double

/-!
# Rounding to double precision

An exact ratio becomes the nearest double, and of two nearest ones the double with the even
mantissa. A value beyond the largest double becomes infinity.
-/

namespace StaticLiteral.Rounding

/-- The magnitude nearest to `num / den` units of 2^-1074, or `none` if that is beyond the largest;
`den` is positive. -/
def nearest? (num den : Nat) : Option Magnitude :=
  let scale := Nat.log2 (num / den) + 1 - 53
  let step := den * Nat.pow 2 scale
  let below := num / step
  let rest := num % step
  let up := step < 2 * rest || 2 * rest == step && below % 2 == 1
  let mantissa := if up then below + 1 else below
  if mantissa = 0x20000000000000 then Magnitude.make? 0x10000000000000 (scale + 1)
  else Magnitude.make? mantissa scale

/-- The magnitude nearest to a natural number. -/
def natural? (n : Nat) : Option Magnitude := nearest? (n * Magnitude.unitsOfOne) 1

/-- How many decimal digits a number has. -/
def digitCount (n : Nat) : Nat := (Nat.toDigits 10 n).length

/-- The magnitude nearest to `digits * 10 ^ exponent`. Values of at least 10^400 or below 10^-400
are out of reach whatever their digits, and are settled without forming the power. -/
def decimal? (digits : Nat) (exponent : Int) : Option Magnitude :=
  if digits = 0 then some .zero
  else
    let size : Int := digitCount digits + exponent
    if 400 < size then none
    else if size < -400 then some .zero
    else
      match exponent with
      | .ofNat e => nearest? (digits * Nat.pow 10 e * Magnitude.unitsOfOne) 1
      | .negSucc e => nearest? (digits * Magnitude.unitsOfOne) (Nat.pow 10 (e + 1))

/-- The double with this sign and magnitude, infinite if there is no magnitude. -/
def signed (negative : Bool) : Option Magnitude → Double
  | some m => .finite negative m
  | none => .infinite negative

/-- The double nearest to an integer; every integer out of range gives positive infinity. -/
def integer (n : Int) : Double :=
  match natural? n.natAbs with
  | some m => .finite (n < 0) m
  | none => .infinite false

end StaticLiteral.Rounding
