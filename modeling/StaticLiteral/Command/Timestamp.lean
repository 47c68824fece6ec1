import StaticLiteral.Number.Notation

/-!
# Timestamps

The moment of a report as a date and a time of day in universal time, with microseconds unless
there are none.
-/

namespace StaticLiteral.Timestamp

/-- Decimal digits with zeros in front up to a width. -/
def padded (width n : Nat) : Text :=
  let digits := Text.ofNat n
  Layout.zeros (width - digits.length) ++ digits

/-- Year, month and day of a number of days since the start of 1970. Years are counted from March,
so that the day that leap years add is the last one; 400 years have 146097 days. -/
def dateOfDays (days : Nat) : Nat × Nat × Nat :=
  let fromMarch := days + 719468
  let era := fromMarch / 146097
  let day := fromMarch % 146097
  let year := (day - day / 1460 + day / 36524 - day / 146096) / 365
  let dayOfYear := day - (365 * year + year / 4 - year / 100)
  let month := (5 * dayOfYear + 2) / 153
  let calendarMonth := if month < 10 then month + 3 else month - 9
  (year + era * 400 + (if calendarMonth ≤ 2 then 1 else 0), calendarMonth,
    dayOfYear - (153 * month + 2) / 5 + 1)

/-- The text of a moment given in microseconds since the start of 1970. -/
def ofMicroseconds (moment : Nat) : Text :=
  let seconds := moment / 1000000
  let (year, month, day) := dateOfDays (seconds / 86400)
  let date := Text.join ['-'.toNat] [padded 4 year, padded 2 month, padded 2 day]
  let time := Text.join [':'.toNat]
    [padded 2 (seconds / 3600 % 24), padded 2 (seconds / 60 % 60), padded 2 (seconds % 60)]
  let fraction := moment % 1000000
  date ++ 'T'.toNat :: time
    ++ (if fraction = 0 then [] else '.'.toNat :: padded 6 fraction)
    ++ Text.ofString "+00:00"

end StaticLiteral.Timestamp
