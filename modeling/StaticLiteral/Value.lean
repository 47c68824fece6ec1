import StaticLiteral.Number.Literal
import StaticLiteral.Number.Notation

/-!
# Values

The values that an expression can be found to have without running it. An element of an array or a
property of an object that has no such value is left out as `none`, so "some value or none" is the
outcome of resolving anything.
-/

namespace StaticLiteral

/-- A regular expression: its body as written, and its flags as a sum of powers of two. -/
structure Pattern where
  source : Text
  flags : Nat
  deriving DecidableEq

/-- A value known statically. -/
inductive Value where
  | number (x : Double)
  | bigint (n : Int)
  | text (t : Text)
  | boolean (b : Bool)
  | pattern (p : Pattern)
  | array (items : List (Option Value))
  | object (entries : List (Text × Option Value))

/-- The kinds of values, named after the syntax that writes them. -/
inductive ValueType where
  | numericLiteral
  | bigintLiteral
  | stringLiteral
  | regularExpressionLiteral
  | trueKeyword
  | falseKeyword
  | arrayLiteral
  | objectLiteral
  deriving DecidableEq

namespace ValueType

/-- The name of a kind in reports. -/
def name : ValueType → String
  | .numericLiteral => "NumericLiteral"
  | .bigintLiteral => "BigIntLiteral"
  | .stringLiteral => "StringLiteral"
  | .regularExpressionLiteral => "RegularExpressionLiteral"
  | .trueKeyword => "TrueKeyword"
  | .falseKeyword => "FalseKeyword"
  | .arrayLiteral => "ArrayLiteralExpression"
  | .objectLiteral => "ObjectLiteralExpression"

end ValueType

namespace Value

/-- The kind of a value; the two truth values have a kind each. -/
def type : Value → ValueType
  | .number _ => .numericLiteral
  | .bigint _ => .bigintLiteral
  | .text _ => .stringLiteral
  | .boolean true => .trueKeyword
  | .boolean false => .falseKeyword
  | .pattern _ => .regularExpressionLiteral
  | .array _ => .arrayLiteral
  | .object _ => .objectLiteral

/-- An integer with more digits than are ever written was to be written. -/
inductive TooManyDigits where
  | mk

/-- What is said about such an integer. -/
def TooManyDigits.message : Text :=
  Text.ofString ("Exceeds the limit (4300 digits) for integer string conversion; "
    ++ "use sys.set_int_max_str_digits() to increase the limit")

/-- The text that a primitive value is coerced to; other values have none. -/
def coerce? : Value → Except TooManyDigits (Option Text)
  | .text t => .ok (some t)
  | .number x => .ok (some x.toText)
  | .bigint n =>
    match Numeral.text? n with
    | some t => .ok (some t)
    | none => .error .mk
  | .boolean b => .ok (some (Text.ofString (if b then "true" else "false")))
  | .pattern _ | .array _ | .object _ => .ok none

end Value

/-- Properties with `value` under `key`: in the place of that key if it is there, or else at the
end. -/
def putEntry {α : Type} (key : Text) (value : α) : List (Text × α) → List (Text × α)
  | [] => [(key, value)]
  | (k, v) :: rest => if k = key then (k, value) :: rest else (k, v) :: putEntry key value rest

end StaticLiteral
