import Mathlib.Data.List.Forall2
import StaticLiteral.Proofs.Program.Imports
import StaticLiteral.Proofs.Typing.Guards
import StaticLiteral.Proofs.Typing.Unions

/-!
# Types without guards

Without guards a type does not depend on the depth that it is found at. `HasType` and `Infers` speak
of no depth: they say the one type of a symbol or an expression from the types of its parts. Behind
an alias a symbol has the type of the symbol a step on, or an unknown one: `HasType.of_alias`.
-/

namespace StaticLiteral

/-- Asking about each element of a list ends with the answers of the elements. -/
theorem forall_of_map_m {α β : Type} {f : α → Except Failure β} {xs : List α} {ys : List β}
    (h : xs.mapM f = .ok ys) : List.Forall₂ (fun x y => f x = .ok y) xs ys := by
  induction xs generalizing ys with
  | nil =>
      obtain rfl := Except.ok.inj h
      exact .nil
  | cons x xs ih =>
      rw [List.mapM_cons] at h
      obtain ⟨y, hy, h⟩ := bind_eq_ok_iff.mp h
      obtain ⟨ys, hys, h⟩ := bind_eq_ok_iff.mp h
      obtain rfl := Except.ok.inj h
      exact .cons hy (ih hys)

/-- Of two lists side by side, what is in the second one stands beside something in the first. -/
theorem exists_beside {α β : Type} {R : α → β → Prop} {xs : List α} {ys : List β} {y : β}
    (h : List.Forall₂ R xs ys) (hy : y ∈ ys) : ∃ x ∈ xs, R x y := by
  induction h with
  | nil => cases hy
  | @cons x z xs ys hx _ ih =>
      rcases List.mem_cons.mp hy with rfl | hy
      · exact ⟨x, List.mem_cons_self, hx⟩
      · obtain ⟨w, hw, hbeside⟩ := ih hy
        exact ⟨w, List.mem_cons_of_mem x hw, hbeside⟩

/-- Two values found at different depths are the same if a third depth finds both. -/
theorem Deepened.ok_unique {α : Type} {a b c : Except Failure α} {x y : α} (ha : Deepened a c)
    (hb : Deepened b c) (hx : a = .ok x) (hy : b = .ok y) : x = y :=
  Except.ok.inj ((ha.eq_ok hx).symm.trans (hb.eq_ok hy))

/-- Whether the node declares something without saying what it is: a variable that has neither a
type nor an initial value, or a name in a pattern. -/
def Node.isBlankDeclaration : Node → Bool
  | .variableDeclaration _ _ none none | .bindingElement .. => true
  | _ => false

/-- Whether the node can declare a variable otherwise than by being its value. -/
def Node.isDeclaration : Node → Bool
  | .variableDeclaration .. | .parameter .. | .bindingElement .. => true
  | _ => false

namespace Program

variable (p : Program)

/-- Without guards, the symbol has the type. -/
def HasType (s : BoundSymbol) (t : BoundTy) : Prop :=
  ∃ depth, Typing.ofSymbol p false depth [] s = .ok t

/-- Without guards, the expression has the type, asserted to be constant or not. -/
def Infers (isConst : Bool) (n : Node) (t : BoundTy) : Prop :=
  ∃ depth, Typing.ofExpression p false depth [] isConst n = .ok t

variable {p} {isConst : Bool} {n e : Node} {s : BoundSymbol} {t u : BoundTy}

/-! ## Expressions -/

/-- No type is inferred at depth zero. -/
theorem Infers.exists_depth (h : p.Infers isConst n t) :
    ∃ depth, Typing.ofExpression p false (depth + 1) [] isConst n = .ok t := by
  obtain ⟨depth, h⟩ := h
  cases depth with
  | zero => cases h
  | succ depth => exact ⟨depth, h⟩

/-- An expression that only wraps another one has the type that this one has, asserted to be
constant or not. -/
theorem Infers.of_wrapper {asserted : Bool} (h : p.Infers isConst n t)
    (hn : ∀ depth, Typing.ofExpression p false (depth + 1) [] isConst n =
      Typing.ofExpression p false depth [] asserted e) : p.Infers asserted e t := by
  obtain ⟨depth, h⟩ := h.exists_depth
  exact ⟨depth, hn depth ▸ h⟩

/-- An expression of which one type is known without looking into it has this type. -/
theorem Infers.eq_of_known (h : p.Infers isConst n t)
    (hn : ∀ depth, Typing.ofExpression p false (depth + 1) [] isConst n = .ok u) : t = u := by
  obtain ⟨depth, h⟩ := h.exists_depth
  exact Except.ok.inj (h.symm.trans (hn depth))

/-- A name of a symbol has the type of the symbol. -/
theorem Infers.of_name {i : Info} {text : Text} (h : p.Infers isConst (.identifier i text) t)
    (hat : p.symbolAt? (.identifier i text) = some s) : p.HasType s t := by
  obtain ⟨depth, h⟩ := h.exists_depth
  simp only [Typing.ofExpression, hat] at h
  exact ⟨depth, h⟩

/-- What an operator makes of an operand tells nothing, unless it is a sign that makes it of the
type of the operand. -/
theorem Infers.of_prefix {i : Info} {operator : Text} {operand : Node}
    (h : p.Infers isConst (.prefixUnaryExpression i operator operand) t) :
    Typing.view t = .other ∨
      ∃ u, p.Infers false operand u ∧ t = Typing.ofSigned operator operand u := by
  obtain ⟨depth, h⟩ := h.exists_depth
  simp only [Typing.ofExpression] at h
  split at h
  case isTrue =>
    obtain rfl := Except.ok.inj h
    exact .inl rfl
  case isFalse =>
    split at h
    case isTrue =>
      obtain ⟨u, hu, rfl⟩ := map_eq_ok_iff.mp h
      exact .inr ⟨u, ⟨depth, hu⟩, rfl⟩
    case isFalse =>
      obtain rfl := Except.ok.inj h
      exact .inl rfl

/-- The element adds just the type to an array: its own type, or that of a hole. -/
def InfersElement (p : Program) (isConst : Bool) (n : Node) (t : BoundTy) : Prop :=
  t = .undefined ∨ p.Infers isConst n t

/-- An element that is not spread adds one type. -/
theorem infers_element_of_answer {depth : Nat} {ts : List BoundTy}
    (h : Typing.ofElement p false depth [] isConst n = .ok ts)
    (hspread : ∀ i e, n ≠ .spreadElement i e) : ∃ t, ts = [t] ∧ p.InfersElement isConst n t := by
  cases depth with
  | zero => cases h
  | succ depth =>
      simp only [Typing.ofElement] at h
      split at h
      case h_1 => exact ⟨.undefined, (Except.ok.inj h).symm, .inl rfl⟩
      case h_2 i e => exact absurd rfl (hspread i e)
      case h_3 =>
        obtain ⟨t, ht, rfl⟩ := map_eq_ok_iff.mp h
        exact ⟨t, rfl, .inr ⟨depth, ht⟩⟩

/-- An array without spread elements has the type of an array of what its elements add. -/
theorem Infers.of_array {i : Info} {elements : List Node}
    (h : p.Infers isConst (.arrayLiteral i elements) t)
    (hspread : ∀ n ∈ elements, ∀ i e, n ≠ .spreadElement i e) :
    ∃ ts, t = Typing.ofArray isConst ts ∧
      List.Forall₂ (p.InfersElement isConst) elements ts := by
  obtain ⟨depth, hanswer⟩ := h.exists_depth
  obtain ⟨lists, hlists, rfl⟩ := map_eq_ok_iff.mp hanswer
  refine ⟨lists.flatten, rfl, ?_⟩
  have hall := forall_of_map_m hlists
  clear h hanswer hlists
  induction hall with
  | nil => exact .nil
  | @cons n ts elements lists hn _ ih =>
      obtain ⟨t, rfl, ht⟩ := infers_element_of_answer hn (hspread n List.mem_cons_self)
      exact .cons ht (ih fun m hm => hspread m (List.mem_cons_of_mem _ hm))

/-- What elements add to an array is in normal form. -/
theorem normal_of_elements {elements : List Node} {ts : List BoundTy}
    (h : List.Forall₂ (p.InfersElement isConst) elements ts) : ∀ t ∈ ts, t.Normal := by
  intro t ht
  obtain ⟨n, _, rfl | ⟨depth, hn⟩⟩ := exists_beside h ht
  · exact .plain rfl
  · exact Typing.normal_of_expression hn

/-! ## Symbols -/

/-- No symbol has a type at depth zero. -/
theorem HasType.exists_depth (h : p.HasType s t) :
    ∃ depth, Typing.ofSymbol p false (depth + 1) [] s = .ok t := by
  obtain ⟨depth, h⟩ := h
  cases depth with
  | zero => cases h
  | succ depth => exact ⟨depth, h⟩

/-- A symbol has one type. -/
theorem HasType.unique (ht : p.HasType s t) (hu : p.HasType s u) : t = u := by
  obtain ⟨depth, ht⟩ := ht
  obtain ⟨deep, hu⟩ := hu
  exact Deepened.ok_unique (Typing.of_symbol_deepened (Nat.le_max_left depth deep) [] s)
    (Typing.of_symbol_deepened (Nat.le_max_right depth deep) [] s) ht hu

/-- A variable has the type that its declaration tells. -/
theorem HasType.of_variable {d : Node} (h : p.HasType s t)
    (hkind : s.kind = .blockScopedVariable ∨ s.kind = .functionScopedVariable)
    (hd : s.declaration = some d) :
    ∃ depth, Typing.ofVariable p false (depth + 1) [] s.isConst d = .ok t := by
  obtain ⟨depth, h⟩ := h.exists_depth
  have hanswer : Typing.ofVariable p false depth [] s.isConst d = .ok t := by
    rcases hkind with hkind | hkind <;>
      simpa only [Typing.ofSymbol, Bool.false_eq_true, false_and, if_false, hkind, hd,
        Typing.of_variable_free depth [s.id]] using h
  cases depth with
  | zero => cases hanswer
  | succ depth => exact ⟨depth, hanswer⟩

/-- A variable that has no type written has that of its initial value, widened unless it is
constant or its initial value is asserted to be. -/
theorem HasType.of_initial {i : Info} {name init : Node} (h : p.HasType s t)
    (hkind : s.kind = .blockScopedVariable ∨ s.kind = .functionScopedVariable)
    (hd : s.declaration = some (.variableDeclaration i name none (some init))) :
    ∃ u, p.Infers false init u ∧
      t = if s.isConst || Typing.isConstContext init then u else u.widened := by
  obtain ⟨depth, h⟩ := h.of_variable hkind hd
  obtain ⟨u, hu, h⟩ := bind_eq_ok_iff.mp h
  exact ⟨u, ⟨depth, hu⟩, (Except.ok.inj h).symm⟩

/-- A variable that is declared blankly has a type that tells nothing. -/
theorem HasType.of_blank {d : Node} (h : p.HasType s t)
    (hkind : s.kind = .blockScopedVariable ∨ s.kind = .functionScopedVariable)
    (hd : s.declaration = some d) (hblank : d.isBlankDeclaration) : t = .any := by
  obtain ⟨depth, h⟩ := h.of_variable hkind hd
  unfold Node.isBlankDeclaration at hblank
  split at hblank
  · exact (Except.ok.inj h).symm
  · exact (Except.ok.inj h).symm
  · cases hblank

/-- A variable that is declared by its value has the type of the value. -/
theorem HasType.of_expression {d : Node} (h : p.HasType s t)
    (hkind : s.kind = .blockScopedVariable ∨ s.kind = .functionScopedVariable)
    (hd : s.declaration = some d) (hvalue : ¬ d.isDeclaration) : p.Infers false d t := by
  obtain ⟨depth, h⟩ := h.of_variable hkind hd
  refine ⟨depth, ?_⟩
  cases d <;> simp only [Node.isDeclaration, not_true_eq_false] at hvalue
  all_goals simpa only [Typing.ofVariable] using h

/-- An alias that ends nowhere has a type that tells nothing. -/
theorem HasType.of_endless (h : p.HasType s t) (halias : s.kind.isAlias)
    (hend : (p.aliasEnd s).kind.isAlias) : t = .unknown := by
  obtain ⟨depth, h⟩ := h.exists_depth
  cases hkind : s.kind <;> simp only [hkind, SymbolKind.isAlias, Bool.false_eq_true] at halias
  simp only [Typing.ofSymbol, Bool.false_eq_true, false_and, if_false, hkind] at h
  rw [if_pos (.inl hend)] at h
  exact (Except.ok.inj h).symm

/-- An alias has the type of the symbol at the end of its chain. -/
theorem HasType.of_end (h : p.HasType s t) (halias : s.kind.isAlias)
    (hend : (p.aliasEnd s).kind.isAlias = false) : p.HasType (p.aliasEnd s) t := by
  obtain ⟨depth, h⟩ := h.exists_depth
  cases hkind : s.kind <;> simp only [hkind, SymbolKind.isAlias, Bool.false_eq_true] at halias
  simp only [Typing.ofSymbol, Bool.false_eq_true, false_and, if_false, hkind,
    Typing.of_symbol_free depth [s.id]] at h
  split at h
  case isTrue hunknown =>
    have hend : (p.aliasEnd s).kind = .unknown := by simpa [hend] using hunknown
    exact ⟨1, by simp only [Typing.ofSymbol, hend, ← h, Bool.false_eq_true, false_and, if_false]⟩
  case isFalse => exact ⟨depth, h⟩

/-- A symbol has the type of the symbol a step behind it if that is no alias. -/
theorem HasType.of_step (h : p.HasType s t) (hstep : (p.aliased s).kind.isAlias = false) :
    p.HasType (p.aliased s) t := by
  cases halias : s.kind.isAlias with
  | false => exact (aliased_of_not_alias halias).symm ▸ h
  | true =>
      have hend := alias_end_of_step halias hstep
      exact hend ▸ h.of_end halias (hend.symm ▸ hstep)

/-- A symbol has the type of the symbol a step behind it, or one that tells nothing. -/
theorem HasType.of_aliased (hp : ∀ s ∈ p.symbols, ∀ t ∈ p.symbols, s.id = t.id → s = t)
    (h : p.HasType s t) (hnext : p.HasType (p.aliased s) u) : t = .unknown ∨ t = u := by
  cases hstep : (p.aliased s).kind.isAlias with
  | false => exact .inr ((h.of_step hstep).unique hnext)
  | true =>
      have halias : s.kind.isAlias := by
        by_contra hnot
        rw [aliased_of_not_alias (Bool.not_eq_true _ ▸ hnot)] at hstep
        exact hnot hstep
      cases hend : (p.aliasEnd s).kind.isAlias with
      | true => exact .inl (h.of_endless halias hend)
      | false =>
          have hsame := alias_end_aliased hp halias hend
          have hlast := hnext.of_end hstep (hsame ▸ hend)
          exact .inr ((h.of_end halias hend).unique (hsame ▸ hlast))

end Program

end StaticLiteral
