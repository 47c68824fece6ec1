import StaticLiteral.Proofs.Resolution.Acyclic
import StaticLiteral.Proofs.Typing.Inference

/-!
# What is found without cycles

Without guards an outcome does not depend on the depth that it is found at. `NodeFinds`,
`SymbolFinds` and `TypeFinds` speak of no depth: they say the one outcome that is found freely for a
node, a symbol or a type, from those of its parts.
-/

namespace StaticLiteral

/-- The declaration of a symbol that is resolved in the place of its type. -/
def Symbol.resolved? {ι : Type} (s : Symbol ι) : Option Node :=
  match s.kind with
  | .objectLiteral | .blockScopedVariable => s.declaration
  | _ => none

/-- The declaration of a variable that is scoped to a block is resolved. -/
theorem Symbol.resolved_of_variable {ι : Type} {s : Symbol ι} {d : Node}
    (hkind : s.kind = .blockScopedVariable) (hd : s.declaration = some d) :
    s.resolved? = some d := by
  simp only [resolved?, hkind, hd]

namespace Program

variable (p : Program)

/-- Freely, the node resolves to the outcome. -/
def NodeFinds (n : Node) (v : Option Value) : Prop :=
  ∃ typing depth, Resolution.ofNode (p.freely typing) depth [] n = .ok v

/-- Freely, the symbol stands for the outcome. -/
def SymbolFinds (s : BoundSymbol) (v : Option Value) : Prop :=
  ∃ typing depth, Resolution.ofSymbol (p.freely typing) depth [] s = .ok v

/-- Freely, the type leaves no choice but the outcome. -/
def TypeFinds (t : BoundTy) (v : Option Value) : Prop :=
  ∃ typing depth, Resolution.ofType (p.freely typing) depth [] t = .ok v

variable {p}

/-- A node finds one outcome. -/
theorem NodeFinds.unique {n : Node} {v w : Option Value} (hv : p.NodeFinds n v)
    (hw : p.NodeFinds n w) : v = w := by
  obtain ⟨typing, depth, hv⟩ := hv
  obtain ⟨types, deep, hw⟩ := hw
  have hleft := Resolution.freely_deepened p (Nat.le_max_left typing types)
    (Nat.le_max_left depth deep) []
  have hright := Resolution.freely_deepened p (Nat.le_max_right typing types)
    (Nat.le_max_right depth deep) []
  exact Deepened.ok_unique (deepened_iff.mpr (hleft.node trivial))
    (deepened_iff.mpr (hright.node trivial)) hv hw

/-- A type finds one outcome. -/
theorem TypeFinds.unique {t : BoundTy} {v w : Option Value} (hv : p.TypeFinds t v)
    (hw : p.TypeFinds t w) : v = w := by
  obtain ⟨typing, depth, hv⟩ := hv
  obtain ⟨types, deep, hw⟩ := hw
  have hleft := Resolution.freely_deepened p (Nat.le_max_left typing types)
    (Nat.le_max_left depth deep) []
  have hright := Resolution.freely_deepened p (Nat.le_max_right typing types)
    (Nat.le_max_right depth deep) []
  exact Deepened.ok_unique (deepened_iff.mpr (hleft.type trivial))
    (deepened_iff.mpr (hright.type trivial)) hv hw

/-! ## Nodes -/

/-- No node finds anything at depth zero. -/
theorem NodeFinds.exists_depth {n : Node} {v : Option Value} (h : p.NodeFinds n v) :
    ∃ typing depth, Resolution.ofNode (p.freely typing) (depth + 1) [] n = .ok v := by
  obtain ⟨typing, depth, h⟩ := h
  cases depth with
  | zero => cases h
  | succ depth => exact ⟨typing, depth, h⟩

/-- A node that only wraps another one finds what that one finds. -/
theorem NodeFinds.of_wrapper {n e : Node} {v : Option Value} (h : p.NodeFinds n v)
    (hn : ∀ typing depth, Resolution.ofNode (p.freely typing) (depth + 1) [] n =
      Resolution.ofNode (p.freely typing) depth [] e) : p.NodeFinds e v := by
  obtain ⟨typing, depth, h⟩ := h.exists_depth
  exact ⟨typing, depth, hn typing depth ▸ h⟩

/-- An array literal finds an array of what its elements find. -/
theorem NodeFinds.of_array {i : Info} {elements : List Node} {v : Option Value}
    (h : p.NodeFinds (.arrayLiteral i elements) v) :
    ∃ vs, v = some (.array vs) ∧ List.Forall₂ p.NodeFinds elements vs := by
  obtain ⟨typing, depth, h⟩ := h.exists_depth
  obtain ⟨vs, hvs, h⟩ := bind_eq_ok_iff.mp h
  obtain rfl := Except.ok.inj h
  exact ⟨vs, rfl, (forall_of_map_m hvs).imp fun _ _ h => ⟨typing, depth, h⟩⟩

/-- A name of a symbol finds what the symbol stands for. -/
theorem NodeFinds.of_name {i : Info} {text : Text} {s : BoundSymbol} {v : Option Value}
    (h : p.NodeFinds (.identifier i text) v) (hat : p.symbolAt? (.identifier i text) = some s) :
    p.SymbolFinds s v := by
  obtain ⟨typing, depth, h⟩ := h.exists_depth
  have hsymbol : (p.freely typing).symbolAt (.identifier i text) = .ok (some s) :=
    congrArg Except.ok hat
  simp only [Resolution.ofNode, hsymbol] at h
  exact ⟨typing, depth, h⟩

/-- A minus sign finds what it makes of what its operand finds. -/
theorem NodeFinds.of_minus {i : Info} {operand : Node} {v : Option Value}
    (h : p.NodeFinds (.prefixUnaryExpression i (Text.ofString "-") operand) v) :
    ∃ w, p.NodeFinds operand w ∧ v = Resolution.negated w := by
  obtain ⟨typing, depth, h⟩ := h.exists_depth
  rw [Resolution.ofNode, if_pos rfl] at h
  obtain ⟨w, hw, rfl⟩ := map_eq_ok_iff.mp h
  exact ⟨w, ⟨typing, depth, hw⟩, rfl⟩

/-- A node of which an outcome is known without looking into it finds this outcome. -/
theorem NodeFinds.eq_of_known {n : Node} {v w : Option Value} (h : p.NodeFinds n v)
    (hn : ∀ typing depth, Resolution.ofNode (p.freely typing) (depth + 1) [] n = .ok w) :
    v = w := by
  obtain ⟨typing, depth, h⟩ := h.exists_depth
  exact Except.ok.inj (h.symm.trans (hn typing depth))

/-! ## Symbols -/

/-- A symbol finds what the symbol a step behind it is the value of. -/
theorem SymbolFinds.value {s : BoundSymbol} {v : Option Value} (h : p.SymbolFinds s v) :
    ∃ typing depth, Resolution.symbolValue (p.freely typing)
      (Resolution.ofNode (p.freely typing) depth [])
      (Resolution.ofType (p.freely typing) depth []) (p.aliased s) = .ok v := by
  obtain ⟨typing, depth, h⟩ := h
  cases depth with
  | zero => cases h
  | succ depth =>
      have hfollowed : Resolution.followed (p.freely typing) s = .ok (p.aliased s) := by
        rw [Resolution.followed]
        split
        case isTrue => rfl
        case isFalse halias =>
          rw [aliased_of_not_alias (Bool.not_eq_true _ ▸ halias)]
      exact ⟨typing, depth, (Resolution.of_symbol_eq_stands_for (depth + 1) hfollowed).symm.trans h⟩

/-- A symbol whose declaration is resolved finds what that finds. -/
theorem SymbolFinds.of_declaration {s : BoundSymbol} {d : Node} {v : Option Value}
    (h : p.SymbolFinds s v) (hd : (p.aliased s).resolved? = some d) : p.NodeFinds d v := by
  obtain ⟨typing, depth, h⟩ := h.value
  refine ⟨typing, depth, ?_⟩
  rw [← h, Resolution.symbolValue]
  cases hkind : (p.aliased s).kind <;> simp [Symbol.resolved?, hkind] at hd ⊢
  all_goals rw [hd]

/-- A symbol whose declaration is not resolved finds what its type finds. -/
theorem SymbolFinds.of_type {s : BoundSymbol} {v : Option Value} (h : p.SymbolFinds s v)
    (hproperty : (p.aliased s).kind ≠ .property) (hd : (p.aliased s).resolved? = none) :
    ∃ t, p.HasType (p.aliased s) t ∧ p.TypeFinds t v := by
  obtain ⟨typing, depth, h⟩ := h.value
  have hvalue : Resolution.symbolValue (p.freely typing)
      (Resolution.ofNode (p.freely typing) depth [])
      (Resolution.ofType (p.freely typing) depth []) (p.aliased s) =
        (do Resolution.ofType (p.freely typing) depth [] (← (p.freely typing).typeOf
          (p.aliased s))) := by
    rw [Resolution.symbolValue]
    cases hkind : (p.aliased s).kind <;> simp_all [Symbol.resolved?]
  rw [hvalue] at h
  obtain ⟨t, ht, h⟩ := bind_eq_ok_iff.mp h
  exact ⟨t, ⟨typing, ht⟩, ⟨typing, depth, h⟩⟩

/-! ## Types -/

/-- No type finds anything at depth zero. -/
theorem TypeFinds.exists_depth {t : BoundTy} {v : Option Value} (h : p.TypeFinds t v) :
    ∃ typing depth, Resolution.ofType (p.freely typing) (depth + 1) [] t = .ok v := by
  obtain ⟨typing, depth, h⟩ := h
  cases depth with
  | zero => cases h
  | succ depth => exact ⟨typing, depth, h⟩

/-- A type that tells nothing finds nothing. -/
theorem TypeFinds.eq_none {t : BoundTy} {v : Option Value} (h : p.TypeFinds t v)
    (hview : Typing.view t = .other) : v = none := by
  obtain ⟨typing, depth, h⟩ := h.exists_depth
  have hbrief : (p.freely typing).view t = .other := Typing.view_briefly_of_other hview
  simp only [Resolution.ofType, hbrief] at h
  exact (Except.ok.inj h).symm

/-- The type of a literal finds the literal. -/
theorem TypeFinds.eq_literal {literal : LiteralValue} {v : Option Value}
    (h : p.TypeFinds (.literal literal) v) :
    v = none ∨ (∃ t, literal = .text t ∧ v = some (.text t)) ∨
      ∃ x, literal = .number x ∧ v = some (.number x) := by
  cases literal with
  | bigint n => exact .inl (h.eq_none rfl)
  | boolean b => exact .inl (h.eq_none rfl)
  | text t =>
      obtain ⟨typing, depth, h⟩ := h.exists_depth
      exact .inr (.inl ⟨t, rfl, (Except.ok.inj h).symm⟩)
  | number x =>
      obtain ⟨typing, depth, h⟩ := h.exists_depth
      exact .inr (.inr ⟨x, rfl, (Except.ok.inj h).symm⟩)

/-- An array or tuple type finds an array of what its arguments find. -/
theorem TypeFinds.of_reference {target : ReferenceTarget} {arguments : List BoundTy}
    {readonly : Bool} {v : Option Value}
    (h : p.TypeFinds (.reference target arguments readonly) v) :
    ∃ vs, v = some (.array vs) ∧ List.Forall₂ p.TypeFinds arguments vs := by
  obtain ⟨typing, depth, h⟩ := h.exists_depth
  obtain ⟨vs, hvs, h⟩ := bind_eq_ok_iff.mp h
  obtain rfl := Except.ok.inj h
  exact ⟨vs, rfl, (forall_of_map_m hvs).imp fun _ _ h => ⟨typing, depth, h⟩⟩

/-- The type of an object finds what its symbol stands for, or nothing. -/
theorem TypeFinds.of_object {shape : ObjectShape} {s : BoundSymbol} {v : Option Value}
    (h : p.TypeFinds (.object shape (some s)) v) : v = none ∨ p.SymbolFinds s v := by
  obtain ⟨typing, depth, h⟩ := h.exists_depth
  rcases Typing.view_briefly_cases (.object shape (some s)) with hview | ⟨hview, _⟩
  · have hbrief : (p.freely typing).view (.object shape (some s)) = .object s := hview
    simp only [Resolution.ofType, hbrief] at h
    exact .inr ⟨typing, depth, h⟩
  · have hbrief : (p.freely typing).view (.object shape (some s)) = .other := hview
    simp only [Resolution.ofType, hbrief] at h
    exact .inl (Except.ok.inj h).symm

end Program

end StaticLiteral
