import StaticLiteral.Number.Double
import StaticLiteral.Semantic.Symbol
import StaticLiteral.Semantic.Union

/-!
# Types

The part of the type system that tells whether an expression has one value: literal types, the
primitives they widen to, arrays and tuples, objects, and unions of all these.
-/

namespace StaticLiteral

/-- The value of a literal type. -/
inductive LiteralValue where
  | text (t : Text)
  | number (x : Double)
  | bigint (n : Int)
  | boolean (b : Bool)
  deriving DecidableEq

/-- Whether two literal types have the same value; numbers are compared as numbers. -/
def LiteralValue.same : LiteralValue → LiteralValue → Bool
  | .text a, .text b => a == b
  | .number a, .number b => a.equals b
  | .bigint a, .bigint b => a == b
  | .boolean a, .boolean b => a == b
  | _, _ => false

/-- What an object type was made for. -/
inductive ObjectShape where
  | none
  | anonymous
  | interface
  | classDefinition
  deriving DecidableEq

/-- The name of a shape. -/
def ObjectShape.name : ObjectShape → String
  | .none => "NONE"
  | .anonymous => "ANONYMOUS"
  | .interface => "INTERFACE"
  | .classDefinition => "CLASS"

/-- The generic types that are known. -/
inductive ReferenceTarget where
  | array
  | readonlyArray
  | tuple
  deriving DecidableEq

/-- The name of a generic type. -/
def ReferenceTarget.name : ReferenceTarget → String
  | .array => "Array"
  | .readonlyArray => "ReadonlyArray"
  | .tuple => "tuple"

/-- A type over symbols with identities in `ι`. -/
inductive Ty (ι : Type) where
  | any
  | unknown
  | never
  | string
  | number
  | bigint
  | boolean
  | null
  | undefined
  | literal (value : LiteralValue)
  | object (shape : ObjectShape) (symbol : Option (Symbol ι))
  | reference (target : ReferenceTarget) (arguments : List (Ty ι)) (readonly : Bool)
  | union (members : List (Ty ι))

namespace Ty

variable {ι : Type}

/-- The name of the kind of a type. -/
def name : Ty ι → String
  | any => "ANY"
  | unknown => "UNKNOWN"
  | never => "NEVER"
  | string => "STRING"
  | number => "NUMBER"
  | bigint => "BIGINT"
  | boolean => "BOOLEAN"
  | null => "NULL"
  | undefined => "UNDEFINED"
  | literal (.text _) => "STRING_LITERAL"
  | literal (.number _) => "NUMBER_LITERAL"
  | literal (.bigint _) => "BIGINT_LITERAL"
  | literal (.boolean _) => "BOOLEAN_LITERAL"
  | object .. => "OBJECT"
  | reference .. => "OBJECT"
  | union _ => "UNION"

/-- The base primitive of a literal type; other types stay as they are. -/
def widened : Ty ι → Ty ι
  | literal (.text _) => string
  | literal (.number _) => number
  | literal (.bigint _) => bigint
  | literal (.boolean _) => boolean
  | t => t

/-- Whether two types are one constituent of a union: the same primitive or literal. Object types
are told apart by their identity, and no two that are built have the same one. -/
def coincides : Ty ι → Ty ι → Bool
  | any, any | unknown, unknown | never, never | string, string | number, number
  | bigint, bigint | boolean, boolean | null, null | undefined, undefined => true
  | literal a, literal b => a.same b
  | _, _ => false

/-- The members of a union, or the type itself. -/
def constituents : Ty ι → List (Ty ι)
  | union members => members
  | t => [t]

/-- The type with these constituents. -/
def ofConstituents : List (Ty ι) → Ty ι
  | [t] => t
  | ts => union ts

/-- The union of types. -/
def unionOf (members : List (Ty ι)) : Ty ι :=
  ofConstituents (Union.join coincides never (members.map constituents))

/-- The type that `readonly` makes of an array or tuple type. -/
def asReadonly : Ty ι → Ty ι
  | reference .array arguments _ => reference .readonlyArray arguments true
  | reference target arguments _ => reference target arguments true
  | t => t

end Ty

/-- A type with a label; two types with the same label are one and the same. -/
structure LabelledTy (ι : Type) where
  label : Option Nat
  type : Ty ι

namespace LabelledTy

variable {ι : Type}

/-- Whether two labelled types are one constituent of a union. -/
def coincides (a b : LabelledTy ι) : Bool :=
  a.label.isSome && a.label == b.label || a.type.coincides b.type

/-- The constituents of the union of members, each given by its constituents. -/
def join (members : List (List (LabelledTy ι))) : List (LabelledTy ι) :=
  Union.join coincides ⟨none, .never⟩ members

end LabelledTy

end StaticLiteral
