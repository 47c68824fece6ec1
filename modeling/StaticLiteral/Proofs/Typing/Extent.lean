import StaticLiteral.Proofs.Typing.Answers

/-!
# The extent of types

A type that is told at some depth is nested no deeper than twice that depth, and the symbols in it
are symbols of the program. `of_symbol_within` is what the resolver needs in order to go down a
type.
-/

namespace StaticLiteral

namespace Ty

variable {ι : Type}

/-- `Within symbols height t` says that the type `t` is nested at most `height` levels deep and
that the objects in it belong to `symbols`. -/
inductive Within (symbols : List (Symbol ι)) : Nat → Ty ι → Prop where
  | plain {height : Nat} {t : Ty ι} : t.isPlain → Within symbols height t
  | object {height : Nat} {shape : ObjectShape} {symbol : Option (Symbol ι)} :
      (∀ s, symbol = some s → s ∈ symbols) → Within symbols height (.object shape symbol)
  | reference {height : Nat} {target : ReferenceTarget} {arguments : List (Ty ι)}
      {readonly : Bool} : (∀ t ∈ arguments, Within symbols height t) →
      Within symbols (height + 1) (.reference target arguments readonly)
  | union {height : Nat} {members : List (Ty ι)} : (∀ t ∈ members, Within symbols height t) →
      Within symbols (height + 1) (.union members)

namespace Within

variable {symbols : List (Symbol ι)} {height : Nat} {t : Ty ι}

/-- A type is also nested within any greater height. -/
theorem mono (h : Within symbols height t) {greater : Nat} (hle : height ≤ greater) :
    Within symbols greater t := by
  induction h generalizing greater with
  | plain h => exact .plain h
  | object h => exact .object h
  | reference _ ih =>
      obtain ⟨greater, rfl⟩ : ∃ k, greater = k + 1 := ⟨greater - 1, by omega⟩
      exact .reference fun t ht => ih t ht (by omega)
  | union _ ih =>
      obtain ⟨greater, rfl⟩ : ∃ k, greater = k + 1 := ⟨greater - 1, by omega⟩
      exact .union fun t ht => ih t ht (by omega)

/-- The constituents of a type are nested no deeper than it. -/
theorem constituents (h : Within symbols height t) :
    ∀ m ∈ t.constituents, Within symbols height m := by
  unfold Ty.constituents
  split
  · cases h with
    | plain h => simp [isPlain] at h
    | union h => exact fun m hm => (h m hm).mono (Nat.le_succ _)
  · simpa using h

end Within

/-- No element is kept that was not there. -/
theorem mem_of_mem_distinct_from {α : Type} {same : α → α → Bool} {seen xs : List α} {x : α}
    (h : x ∈ Union.distinctFrom same seen xs) : x ∈ xs := by
  induction xs generalizing seen with
  | nil => simp [Union.distinctFrom] at h
  | cons y ys ih =>
      simp only [Union.distinctFrom] at h
      split at h
      · exact List.mem_cons_of_mem _ (ih h)
      · rcases List.mem_cons.mp h with rfl | h
        · exact List.mem_cons_self
        · exact List.mem_cons_of_mem _ (ih h)

/-- A union is nested at most one level deeper than its members. -/
theorem within_union_of {symbols : List (Symbol ι)} {height : Nat} {members : List (Ty ι)}
    (h : ∀ t ∈ members, Within symbols height t) :
    Within symbols (height + 1) (unionOf members) := by
  have hjoin : ∀ t ∈ Union.join coincides never (members.map constituents),
      Within symbols height t := by
    intro t ht
    unfold Union.join at ht
    split at ht
    · rw [List.mem_singleton.mp ht]
      exact .plain rfl
    · have hmem := mem_of_mem_distinct_from ht
      obtain ⟨parts, hparts, ht⟩ := List.mem_flatten.mp hmem
      obtain ⟨m, hm, rfl⟩ := List.mem_map.mp hparts
      exact (h m hm).constituents t ht
  unfold unionOf ofConstituents
  split
  case h_1 t heq => exact (hjoin t (by simp [heq])).mono (Nat.le_succ _)
  case h_2 => exact .union hjoin

end Ty

namespace Typing

variable {p : Program} {guarded : Bool}

/-- How far types extend is preserved by the ways of building them. -/
theorem preserved_within (p : Program) :
    Preserved p fun height t => t.Within p.symbols height where
  higher h := h.mono (Nat.le_succ _)
  plain := .plain
  object := .object
  reference := .reference
  arguments h := by
    cases h with
    | plain h => simp [Ty.isPlain] at h
    | reference h => exact fun t ht => (h t ht).mono (Nat.le_succ _)
  unionOf := Ty.within_union_of

/-- The type of a symbol of the program is nested at most twice as deep as the question went and
has symbols of the program. -/
theorem of_symbol_within {depth : Nat} {busy : List SymbolId} {s : BoundSymbol} {t : BoundTy}
    (hs : s ∈ p.symbols) (h : ofSymbol p guarded depth busy s = .ok t) :
    t.Within p.symbols (2 * depth) := by
  have hsame := ((preserved_within p).of_answer guarded depth busy).symbol hs
  simp only [answers, h] at hsame
  exact hsame.2

end Typing

end StaticLiteral
