import Mathlib.Data.List.Forall2
import StaticLiteral.Value

/-!
# Comparing values

Values can be told apart, and one outcome can say less than another one: `Below` says where entries
of arrays are missing.
-/

namespace StaticLiteral

namespace Value

mutual

/-- Whether two values are the same. -/
def same : Value → Value → Bool
  | .number x, .number y => x = y
  | .bigint m, .bigint n => m = n
  | .text s, .text t => s = t
  | .boolean b, .boolean c => b = c
  | .pattern p, .pattern q => p = q
  | .array vs, .array ws => sameItems vs ws
  | .object es, .object fs => sameEntries es fs
  | _, _ => false

/-- Whether two arrays have the same items. -/
def sameItems : List (Option Value) → List (Option Value) → Bool
  | [], [] => true
  | none :: vs, none :: ws => sameItems vs ws
  | some v :: vs, some w :: ws => same v w && sameItems vs ws
  | _, _ => false

/-- Whether two objects have the same entries in the same order. -/
def sameEntries : List (Text × Option Value) → List (Text × Option Value) → Bool
  | [], [] => true
  | (k, none) :: es, (l, none) :: fs => k = l && sameEntries es fs
  | (k, some v) :: es, (l, some w) :: fs => k = l && same v w && sameEntries es fs
  | _, _ => false

end

mutual

/-- The test tells whether values are equal. -/
theorem same_iff : ∀ v w : Value, same v w ↔ v = w := by
  intro v w
  cases v with
  | array vs => cases w <;> simp [same, same_items_iff vs]
  | object es => cases w <;> simp [same, same_entries_iff es]
  | _ => cases w <;> simp [same]

/-- The test tells whether items are equal. -/
theorem same_items_iff : ∀ vs ws : List (Option Value), sameItems vs ws ↔ vs = ws
  | [], ws => by cases ws <;> simp [sameItems]
  | none :: vs, ws => by
      cases ws with
      | nil => simp [sameItems]
      | cons w ws => cases w <;> simp [sameItems, same_items_iff vs]
  | some v :: vs, ws => by
      cases ws with
      | nil => simp [sameItems]
      | cons w ws => cases w <;> simp [sameItems, same_iff v, same_items_iff vs]

/-- The test tells whether entries are equal. -/
theorem same_entries_iff : ∀ es fs : List (Text × Option Value), sameEntries es fs ↔ es = fs
  | [], fs => by cases fs <;> simp [sameEntries]
  | (k, none) :: es, fs => by
      cases fs with
      | nil => simp [sameEntries]
      | cons f fs =>
          obtain ⟨l, w⟩ := f
          cases w <;> simp [sameEntries, same_entries_iff es]
  | (k, some v) :: es, fs => by
      cases fs with
      | nil => simp [sameEntries]
      | cons f fs =>
          obtain ⟨l, w⟩ := f
          cases w <;> simp [sameEntries, same_iff v, same_entries_iff es]

end

instance : DecidableEq Value := fun v w => decidable_of_iff _ (same_iff v w)

end Value

/-- The first outcome says what the second one says, or less: it is no value, or an array as long
that says less in some places. If it may be `blunt`, it can also be an array with one entry, which
is missing, in the place of any array. -/
inductive Below (blunt : Bool) : Option Value → Option Value → Prop where
  | missing (v : Option Value) : Below blunt none v
  | same (v : Value) : Below blunt (some v) (some v)
  | array {vs ws : List (Option Value)} (h : List.Forall₂ (Below blunt) vs ws) :
      Below blunt (some (.array vs)) (some (.array ws))
  | blunt (h : blunt) (ws : List (Option Value)) :
      Below blunt (some (.array [none])) (some (.array ws))

namespace Below

variable {blunt : Bool}

/-- An outcome says what it says. -/
theorem refl (v : Option Value) : Below blunt v v := by
  cases v with
  | none => exact .missing _
  | some v => exact .same v

/-- No value, or the same outcome, says at most as much. -/
theorem of_eq {v w : Option Value} (h : v = none ∨ v = w) : Below blunt v w := by
  rcases h with rfl | rfl
  · exact .missing w
  · exact .refl v

/-- Nothing says less than an outcome that is no value. -/
theorem eq_none {v : Option Value} (h : Below blunt v none) : v = none := by
  cases h
  rfl

/-- A value that says less is of the same kind. -/
theorem type_eq {v w : Value} (h : Below blunt (some v) (some w)) : v.type = w.type := by
  cases h <;> rfl

/-- A value says less than some value only. -/
theorem exists_eq_some {v : Value} {w : Option Value} (h : Below blunt (some v) w) :
    ∃ w', w = some w' ∧ v.type = w'.type := by
  cases w with
  | none => exact absurd h.eq_none (by simp)
  | some w => exact ⟨w, rfl, h.type_eq⟩

end Below

end StaticLiteral
