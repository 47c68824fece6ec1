import StaticLiteral.Number.Rounding
import StaticLiteral.Text.Blank
import StaticLiteral.Text.DecimalDigit

/-!
# Numerals

Reading of integers in a radix and of decimal numbers. Both allow white space around the numeral, a
sign, and digits of every script; a decimal integer has at most `digitLimit` digits.
-/

namespace StaticLiteral.Numeral

/-- The number of digits from which on decimal integers are neither read nor written. -/
def digitLimit : Nat := 4300

/-- The value of a digit or of a letter of the Latin alphabet, up to 35. -/
def digit? (c : CodePoint) : Option Nat :=
  match Text.decimalDigit? c with
  | some d => some d
  | none =>
    if 'a'.toNat ≤ c && c ≤ 'z'.toNat then some (c - 'a'.toNat + 10)
    else if 'A'.toNat ≤ c && c ≤ 'Z'.toNat then some (c - 'A'.toNat + 10)
    else none

/-- The digits of one group, none of them left out; a group is not empty. -/
def group? (radix : Nat) (t : Text) : Option (List Nat) :=
  if t.isEmpty then none
  else t.mapM fun c => (digit? c).filter (· < radix)

/-- The digits of groups with a single underscore between neighbours. -/
def digits? (radix : Nat) (t : Text) : Option (List Nat) :=
  List.flatten <$> (Text.split '_'.toNat t).mapM (group? radix)

/-- The value of a list of digits, the highest first. -/
def value (radix : Nat) (digits : List Nat) : Nat := digits.foldl (fun n d => n * radix + d) 0

/-- A natural number in a radix; decimal ones are limited in length. -/
def natural? (radix : Nat) (t : Text) : Option Nat := do
  let digits ← digits? radix t
  if radix = 10 && digitLimit < digits.length then none else some (value radix digits)

/-- The radix that the letter after a leading zero stands for. -/
def radixLetter? (c : CodePoint) : Option Nat :=
  if c = 'x'.toNat || c = 'X'.toNat then some 16
  else if c = 'o'.toNat || c = 'O'.toNat then some 8
  else if c = 'b'.toNat || c = 'B'.toNat then some 2
  else none

/-- A zero and a radix letter at the front, and what follows them and one underscore. -/
def radixMark? : Text → Option (Nat × Text)
  | z :: c :: rest =>
    if Text.decimalDigit? z = some 0 then
      (radixLetter? c).map fun radix =>
        (radix, if rest.head? = some '_'.toNat then rest.tail else rest)
    else none
  | _ => none

/-- The white space around a numeral removed, and its sign apart. -/
def signed (t : Text) : Bool × Text :=
  match t.trim Text.isWhiteSpace with
  | c :: rest =>
    if c = '-'.toNat then (true, rest)
    else if c = '+'.toNat then (false, rest)
    else (false, c :: rest)
  | [] => (false, [])

/-- The integer with this sign. -/
def withSign (negative : Bool) (n : Nat) : Int := if negative then -n else n

/-- An integer in the given radix; a mark of that same radix may precede its digits. -/
def integer? (radix : Nat) (t : Text) : Option Int :=
  let (negative, body) := signed t
  let digits :=
    match radixMark? body with
    | some (marked, rest) => if marked = radix then rest else body
    | none => body
  withSign negative <$> natural? radix digits

/-- An integer whose mark tells its radix. Without a mark it is decimal, and starts with a zero
only if it is zero. -/
def markedInteger? (t : Text) : Option Int :=
  let (negative, body) := signed t
  match radixMark? body with
  | some (radix, rest) => withSign negative <$> natural? radix rest
  | none => do
    let n ← natural? 10 body
    if (body.head?.bind Text.decimalDigit?) = some 0 && n != 0 then none
    else some (withSign negative n)

/-- The digits at the front, and what follows them. -/
def leadingDigits : Text → List Nat × Text
  | [] => ([], [])
  | c :: rest =>
    match Text.decimalDigit? c with
    | some d => (d :: (leadingDigits rest).1, (leadingDigits rest).2)
    | none => ([], c :: rest)

/-- An exponent part, which may be missing. -/
def exponent? : Text → Option Int
  | [] => some 0
  | c :: rest =>
    if c = 'e'.toNat then
      let (negative, body) : Bool × Text :=
        match rest with
        | s :: more =>
          if s = '-'.toNat then (true, more)
          else if s = '+'.toNat then (false, more)
          else (false, rest)
        | [] => (false, [])
      match leadingDigits body with
      | ([], _) => none
      | (digits, []) => some (withSign negative (value 10 digits))
      | _ => none
    else none

/-- An unsigned decimal number with an optional point and exponent. -/
def unsigned? (t : Text) : Option (Option Magnitude) :=
  let (whole, rest) := leadingDigits t
  let (fraction, rest) :=
    match rest with
    | c :: more => if c = '.'.toNat then leadingDigits more else ([], rest)
    | [] => ([], [])
  if whole.isEmpty && fraction.isEmpty then none
  else do
    let e ← exponent? rest
    some (Rounding.decimal? (value 10 (whole ++ fraction)) (e - fraction.length))

/-- A decimal number in lower case, or one of the words for infinity and not-a-number. -/
def double? (t : Text) : Option Double :=
  let (negative, body) := signed t
  if body = Text.ofString "inf" || body = Text.ofString "infinity" then some (.infinite negative)
  else if body = Text.ofString "nan" then some .nan
  else Rounding.signed negative <$> unsigned? body

end StaticLiteral.Numeral
