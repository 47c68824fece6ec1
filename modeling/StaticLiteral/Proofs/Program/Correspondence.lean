import StaticLiteral.Proofs.Program.Search
import StaticLiteral.Proofs.Syntax.Similar

/-!
# Programs that correspond

Typing and resolving see a program through four questions: the symbol of a node, what a name is
looked up as, the symbol of a literal, and what stands behind an alias. Two programs correspond on
some of their nodes and symbols if these questions, asked about corresponding nodes and symbols,
have corresponding answers.
-/

namespace StaticLiteral

/-- Options are related if both are missing, or both are there and related. -/
theorem rel_cases {α β : Type} {R : α → β → Prop} {a : Option α} {b : Option β}
    (h : Option.Rel R a b) : a = none ∧ b = none ∨ ∃ x y, a = some x ∧ b = some y ∧ R x y := by
  cases h with
  | none => exact .inl ⟨rfl, rfl⟩
  | some h => exact .inr ⟨_, _, rfl, rfl, h⟩

/-- An option is related to what it is changed to if its value is. -/
theorem rel_map {α β : Type} {R : α → β → Prop} {f : α → β} {a : Option α}
    (h : ∀ x, a = some x → R x (f x)) : Option.Rel R a (a.map f) := by
  cases a with
  | none => exact .none
  | some x => exact .some (h x rfl)

/-- An option is related to itself if its value is. -/
theorem rel_self {α : Type} {R : α → α → Prop} {a : Option α} (h : ∀ x, a = some x → R x x) :
    Option.Rel R a a := by simpa using rel_map (f := id) h

namespace Program

section

variable {p q : Program} {R : BoundSymbol → BoundSymbol → Prop} {s t : BoundSymbol}

/-- Related aliases that lead to related symbols do so after any number of steps. -/
theorem alias_end_from_related (hkind : ∀ {s t}, R s t → t.kind = s.kind)
    (hid : ∀ {s t}, R s t → t.id = s.id)
    (haliased : ∀ {s t}, R s t → R (p.aliased s) (q.aliased t)) (steps : Nat)
    (seen : List SymbolId) (hst : R s t) :
    R (p.aliasEndFrom steps seen s) (q.aliasEndFrom steps seen t) := by
  induction steps generalizing seen s t with
  | zero => exact hst
  | succ steps ih =>
      simp only [aliasEndFrom, hkind hst, hid hst]
      split
      · exact ih _ (haliased hst)
      · exact hst

/-- Chains of related aliases have related ends, however many facts there are. -/
theorem alias_end_related (hkind : ∀ {s t}, R s t → t.kind = s.kind)
    (hid : ∀ {s t}, R s t → t.id = s.id)
    (haliased : ∀ {s t}, R s t → R (p.aliased s) (q.aliased t)) (hst : R s t) :
    R (p.aliasEnd s) (q.aliasEnd t) := by
  have hp : p.factCount + 2 ≤ p.factCount + q.factCount + 2 := by omega
  have hq : q.factCount + 2 ≤ p.factCount + q.factCount + 2 := by omega
  rw [← alias_end_from_eq hp, ← alias_end_from_eq hq]
  exact alias_end_from_related hkind hid haliased _ _ hst

end

/-- The programs answer the questions of typing and resolving by corresponding symbols, for nodes
that are related by `N` and symbols that are related by `R`. -/
structure Matches (p q : Program) (N : Node → Node → Prop) (R : BoundSymbol → BoundSymbol → Prop) :
    Prop where
  similar : ∀ {n m}, N n m → Node.Similar N n m
  id : ∀ {s t}, R s t → t.id = s.id
  name : ∀ {s t}, R s t → t.name = s.name
  kind : ∀ {s t}, R s t → t.kind = s.kind
  isConst : ∀ {s t}, R s t → t.isConst = s.isConst
  declaration : ∀ {s t}, R s t → Option.Rel N s.declaration t.declaration
  symbolAt : ∀ {n m}, N n m → Option.Rel R (p.symbolAt? n) (q.symbolAt? m)
  lookup : ∀ {n m}, N n m → ∀ space name, n.identifier? = some name →
    Option.Rel R (p.lookup? space name n) (q.lookup? space name m)
  literalSymbol : ∀ {n m}, N n m → Option.Rel R (p.literalSymbol? n) (q.literalSymbol? m)
  aliased : ∀ {s t}, R s t → R (p.aliased s) (q.aliased t)
  characterNames : q.config.characterNames = p.config.characterNames

namespace Matches

variable {p q : Program} {N : Node → Node → Prop} {R : BoundSymbol → BoundSymbol → Prop}
  {n m : Node} {s t : BoundSymbol}

/-- Chains of corresponding aliases have corresponding ends, however many facts there are. -/
theorem alias_end (h : Matches p q N R) (hst : R s t) : R (p.aliasEnd s) (q.aliasEnd t) :=
  alias_end_related h.kind h.id h.aliased hst

/-- A name that stands as an operand is looked up as corresponding symbols. -/
theorem lookup_name (h : Matches p q N R) (hnm : N n m) (space : Space) :
    Option.Rel R (n.identifier?.bind fun name => p.lookup? space name n)
      (m.identifier?.bind fun name => q.lookup? space name m) := by
  rw [(h.similar hnm).identifier_eq]
  cases hname : n.identifier? with
  | none => exact .none
  | some name => exact h.lookup hnm space name hname

end Matches

end Program

end StaticLiteral
