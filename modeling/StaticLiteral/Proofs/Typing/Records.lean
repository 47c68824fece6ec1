import StaticLiteral.Resolution.Model
import StaticLiteral.Semantic.Type

/-!
# Types as records

A type tells its kind by the way it is built, and a literal type has a value of its kind. As a
record a type has its kind in one field and a payload in another one, and nothing says that the two
fit. `Ty.loose` is the record of a type, and what is made of types can be made of their records
alike. A record is `WellFormed` if every payload in it fits.
-/

namespace StaticLiteral

/-- Of elements that are changed to ones that are the same alike, the changed ones are kept. -/
theorem Union.distinct_from_map {α β : Type} {same : α → α → Bool} {alike : β → β → Bool}
    {f : α → β} (h : ∀ x y, alike (f x) (f y) = same x y) (seen xs : List α) :
    distinctFrom alike (seen.map f) (xs.map f) = (distinctFrom same seen xs).map f := by
  induction xs generalizing seen with
  | nil => rfl
  | cons x xs ih =>
      have hany : (seen.map f).any (alike · (f x)) = seen.any (same · x) := by
        simp only [List.any_map, Function.comp_def, h]
      rw [List.map_cons, distinctFrom, distinctFrom, hany]
      split
      · exact ih seen
      · rw [List.map_cons, ← ih (x :: seen), List.map_cons]

/-! ## Payloads -/

/-- What can stand in the place of a value. -/
inductive Payload where
  | missing
  | number (x : Double)
  | integer (n : Int)
  | text (t : Text)
  | boolean (b : Bool)
  | pattern (p : Pattern)
  | list (items : List Payload)
  | table (entries : List (Payload × Payload))

namespace Payload

/-- Whether two payloads without parts are the same; numbers are compared as numbers. -/
def same : Payload → Payload → Bool
  | missing, missing => true
  | number x, number y => x.equals y
  | integer m, integer n => m == n
  | text s, text t => s == t
  | boolean b, boolean c => b == c
  | _, _ => false

/-- The failure of an operation on a payload that it is not for. -/
def misfit : Failure := .raised (Text.ofString "a payload is not of its kind")

/-- What a minus sign makes of a payload. -/
def negated : Payload → Except Failure Payload
  | number x => .ok (number x.negate)
  | integer n => .ok (integer (-n))
  | _ => .error misfit

end Payload

/-! ## Types as records -/

/-- The kinds of types. -/
inductive TypeKind where
  | any
  | unknown
  | never
  | string
  | number
  | bigint
  | boolean
  | stringLiteral
  | numberLiteral
  | bigintLiteral
  | booleanLiteral
  | null
  | undefined
  | object
  | union
  deriving DecidableEq

namespace TypeKind

/-- The primitive that a kind of literal types widens to. -/
def base? : TypeKind → Option TypeKind
  | stringLiteral => some string
  | numberLiteral => some number
  | bigintLiteral => some bigint
  | booleanLiteral => some boolean
  | _ => none

/-- The payload is one of the kind: a literal type carries a value of its kind, other types none. -/
def Carries : TypeKind → Payload → Prop
  | stringLiteral, v => ∃ t, v = .text t
  | numberLiteral, v => ∃ x, v = .number x
  | bigintLiteral, v => ∃ n, v = .integer n
  | booleanLiteral, v => ∃ b, v = .boolean b
  | _, v => v = .missing

end TypeKind

namespace LiteralValue

/-- The kind of the literal types with a value. -/
def kind : LiteralValue → TypeKind
  | text _ => .stringLiteral
  | number _ => .numberLiteral
  | bigint _ => .bigintLiteral
  | boolean _ => .booleanLiteral

/-- A value as the payload of its literal type. -/
def payload : LiteralValue → Payload
  | text t => .text t
  | number x => .number x
  | bigint n => .integer n
  | boolean b => .boolean b

/-- The payload of a value is of its kind. -/
theorem carries_payload (v : LiteralValue) : v.kind.Carries v.payload := by
  cases v <;> exact ⟨_, rfl⟩

/-- Values are the same exactly if they agree in kind and payload. -/
theorem same_eq (v w : LiteralValue) :
    v.same w = (v.kind == w.kind && v.payload.same w.payload) := by
  cases v <;> cases w <;> rfl

end LiteralValue

/-- A type as a record. Its kind does not restrict the other fields. -/
structure LooseTy (ι : Type) where
  kind : TypeKind
  payload : Payload := .missing
  shape : ObjectShape := .none
  symbol : Option (Symbol ι) := none
  /-- the generic type that the type refers to, if it is such a reference -/
  target : Option ReferenceTarget := none
  arguments : List (LooseTy ι) := []
  members : List (LooseTy ι) := []
  readonly : Bool := false

namespace LooseTy

variable {ι : Type}

/-- Every payload in the type is of the kind beside it. -/
inductive WellFormed : LooseTy ι → Prop where
  | intro {t : LooseTy ι} (payload : t.kind.Carries t.payload)
      (arguments : ∀ a ∈ t.arguments, WellFormed a) (members : ∀ m ∈ t.members, WellFormed m) :
      WellFormed t

/-- The type of a kind with a payload. -/
def literal (kind : TypeKind) (payload : Payload) : LooseTy ι :=
  { kind := kind, payload := payload }

/-- The type of an object. -/
def object (shape : ObjectShape) (symbol : Option (Symbol ι)) : LooseTy ι :=
  { kind := .object, shape := shape, symbol := symbol }

/-- A generic type with arguments. -/
def reference (target : ReferenceTarget) (arguments : List (LooseTy ι)) (readonly : Bool) :
    LooseTy ι :=
  { kind := .object, target := some target, arguments := arguments, readonly := readonly }

/-- The base primitive of a literal type; other types stay as they are. -/
def widened (t : LooseTy ι) : LooseTy ι :=
  match t.kind.base? with
  | some base => { kind := base }
  | none => t

/-- The type that `readonly` makes of an array or tuple type. -/
def asReadonly (t : LooseTy ι) : LooseTy ι :=
  match t.target with
  | some .array => reference .readonlyArray t.arguments true
  | some target => reference target t.arguments true
  | none => t

/-- Whether two types are one constituent of a union: they agree in kind and payload. -/
def coincides (t u : LooseTy ι) : Bool :=
  t.kind != .object && t.kind != .union && t.kind == u.kind && t.payload.same u.payload

/-- The members of a union, or the type itself. -/
def constituents (t : LooseTy ι) : List (LooseTy ι) :=
  if t.kind = .union then t.members else [t]

/-- The type with these constituents. -/
def ofConstituents : List (LooseTy ι) → LooseTy ι
  | [t] => t
  | ts => { kind := .union, members := ts }

/-- The union of types. -/
def unionOf (members : List (LooseTy ι)) : LooseTy ι :=
  ofConstituents (Union.join coincides { kind := .never } (members.map constituents))

end LooseTy

namespace Ty

variable {ι : Type}

mutual

/-- The record of a type. -/
def loose : Ty ι → LooseTy ι
  | any => { kind := .any }
  | unknown => { kind := .unknown }
  | never => { kind := .never }
  | string => { kind := .string }
  | number => { kind := .number }
  | bigint => { kind := .bigint }
  | boolean => { kind := .boolean }
  | null => { kind := .null }
  | undefined => { kind := .undefined }
  | literal v => .literal v.kind v.payload
  | object shape symbol => .object shape symbol
  | reference target arguments readonly => .reference target (looseAll arguments) readonly
  | union members => { kind := .union, members := looseAll members }

/-- The records of types. -/
def looseAll : List (Ty ι) → List (LooseTy ι)
  | [] => []
  | t :: ts => loose t :: looseAll ts

end

/-- Types are made into records one by one. -/
@[simp]
theorem loose_all_eq (ts : List (Ty ι)) : looseAll ts = ts.map loose := by
  induction ts with
  | nil => rfl
  | cons t ts ih => simp [looseAll, ih]

mutual

/-- The record of a type is well formed. -/
theorem well_formed_loose : ∀ t : Ty ι, t.loose.WellFormed
  | literal v => .intro v.carries_payload nofun nofun
  | reference _ arguments _ =>
      .intro rfl (fun a ha => well_formed_all arguments a (loose_all_eq arguments ▸ ha)) nofun
  | union members =>
      .intro rfl nofun fun m hm => well_formed_all members m (loose_all_eq members ▸ hm)
  | object .. | any | unknown | never | string | number | bigint | boolean | null | undefined =>
      .intro rfl nofun nofun

/-- The records of types are well formed. -/
theorem well_formed_all : ∀ ts : List (Ty ι), ∀ r ∈ ts.map loose, r.WellFormed
  | [] => nofun
  | t :: ts => by
      rw [List.map_cons, List.forall_mem_cons]
      exact ⟨well_formed_loose t, well_formed_all ts⟩

end

/-- The record of the widened type is the widened record. -/
theorem loose_widened (t : Ty ι) : t.widened.loose = t.loose.widened := by
  cases t with
  | literal v => cases v <;> rfl
  | _ => rfl

/-- The record of the readonly type is the readonly record. -/
theorem loose_as_readonly (t : Ty ι) : t.asReadonly.loose = t.loose.asReadonly := by
  cases t with
  | literal v => cases v <;> rfl
  | reference target arguments readonly => cases target <;> rfl
  | _ => rfl

/-- The constituents of a record are the records of the constituents. -/
theorem constituents_loose (t : Ty ι) : t.loose.constituents = t.constituents.map loose := by
  cases t with
  | literal v => cases v <;> rfl
  | union members => exact loose_all_eq members
  | _ => rfl

/-- Records coincide exactly if their types do. -/
theorem coincides_loose (t u : Ty ι) : t.loose.coincides u.loose = t.coincides u := by
  cases t with
  | literal v =>
      cases u with
      | literal w =>
          rw [coincides, v.same_eq w]
          cases v <;> rfl
      | _ => cases v <;> rfl
  | _ =>
      cases u with
      | literal w => cases w <;> rfl
      | _ => rfl

/-- The record of a union is the union of the records. -/
theorem loose_union_of (ts : List (Ty ι)) :
    (unionOf ts).loose = LooseTy.unionOf (ts.map loose) := by
  have hparts : ((ts.map loose).map LooseTy.constituents).flatten =
      (ts.map constituents).flatten.map loose := by
    rw [List.map_flatten, List.map_map, List.map_map]
    exact congrArg List.flatten (List.map_congr_left fun t _ => constituents_loose t)
  have hdistinct : Union.distinct LooseTy.coincides ((ts.map constituents).flatten.map loose) =
      (Union.distinct coincides (ts.map constituents).flatten).map loose :=
    Union.distinct_from_map coincides_loose [] _
  unfold unionOf LooseTy.unionOf Union.join
  rw [hparts, hdistinct]
  match Union.distinct coincides (ts.map constituents).flatten with
  | [] | [t] => rfl
  | t :: u :: rest =>
      show (union (t :: u :: rest)).loose =
        { kind := .union, members := (t :: u :: rest).map loose }
      rw [loose, loose_all_eq]

end Ty

end StaticLiteral
