import StaticLiteral.Value

/-!
# Reports

What a report says about a value: only what a JSON document can hold. A pattern is reported by its
body, a bigint by its decimal digits, and a number that is none or infinite by its name; an integral
number that a double tells from its neighbours is reported as an integer.
-/

namespace StaticLiteral

/-- A value in a report. -/
inductive ReportValue where
  | null
  | boolean (b : Bool)
  | text (t : Text)
  | integer (n : Int)
  | number (x : Double)
  | array (items : List ReportValue)
  | object (entries : List (Text × ReportValue))

namespace ReportValue

/-- From here on an integral double is not told from its neighbours. -/
def integerLimit : Nat := 0x20000000000000

/-- What is reported of a number. -/
def ofDouble (x : Double) : ReportValue :=
  match x with
  | .finite .. =>
    match x.toInt? with
    | some n => if n.natAbs < integerLimit then integer n else number x
    | none => number x
  | _ => text x.toText

mutual

/-- What is reported of a value, unless an integer in it has too many digits. -/
def ofValue : Value → Except Value.TooManyDigits ReportValue
  | .number x => .ok (ofDouble x)
  | .bigint n =>
    match Numeral.text? n with
    | some t => .ok (text t)
    | none => .error .mk
  | .text t => .ok (text t)
  | .boolean b => .ok (boolean b)
  | .pattern p => .ok (text p.source)
  | .array items => array <$> ofItems items
  | .object entries => object <$> ofEntries entries

/-- What is reported of a value that may be missing. -/
def ofOption : Option Value → Except Value.TooManyDigits ReportValue
  | none => .ok null
  | some v => ofValue v

/-- What is reported of the items of an array. -/
def ofItems : List (Option Value) → Except Value.TooManyDigits (List ReportValue)
  | [] => .ok []
  | item :: items => do
    let first ← ofOption item
    return first :: (← ofItems items)

/-- What is reported of the properties of an object. -/
def ofEntries : List (Text × Option Value) →
    Except Value.TooManyDigits (List (Text × ReportValue))
  | [] => .ok []
  | (key, value) :: entries => do
    let first ← ofOption value
    return (key, first) :: (← ofEntries entries)

end

end ReportValue

end StaticLiteral
