import StaticLiteral.Proofs.Typing.Steps

/-!
# Typing at different depths

`of_symbol_deepened` says that a symbol whose type is told without stopping has the same type at
every greater depth; so have expressions and annotations.
-/

namespace StaticLiteral.Typing

variable {p : Program}

/-- Every question about types has the same answer at a greater depth. -/
theorem deepened_of_le (guarded : Bool) (shallow : Nat) :
    ∀ deep, shallow ≤ deep → ∀ busy,
      Related .unlessStopped Eq .all (answers p guarded shallow busy)
        (answers p guarded deep busy) := by
  induction shallow with
  | zero =>
      intro deep _ busy
      constructor
      all_goals intros; exact .inl rfl
  | succ shallow ih =>
      intro deep hle busy
      obtain ⟨deep, rfl⟩ : ∃ e, deep = e + 1 := ⟨deep - 1, by omega⟩
      have hbelow := ih deep (by omega)
      rw [answers_succ, answers_succ]
      refine (hbelow busy).step builds_eq descends_all (fun s _ => ?_) fun s _ =>
        ⟨trivial, fun _ => ?_⟩
      · refine entered_related _ rfl .rfl fun _ => ?_
        exact (hbelow _).of_symbol builds_eq trivial (fun _ _ => ⟨trivial, trivial⟩)
          fun _ => trivial
      · refine entered_related _ rfl .rfl fun _ => ?_
        exact (hbelow _).of_type_alias builds_eq fun _ _ _ _ => trivial

variable {guarded : Bool}

/-- A symbol has the same type at a greater depth. -/
theorem of_symbol_deepened {shallow deep : Nat} (hle : shallow ≤ deep) (busy : List SymbolId)
    (s : BoundSymbol) :
    Deepened (ofSymbol p guarded shallow busy s) (ofSymbol p guarded deep busy s) :=
  deepened_iff.mpr ((deepened_of_le guarded shallow deep hle busy).symbol trivial)

/-- An expression has the same type at a greater depth. -/
theorem of_expression_deepened {shallow deep : Nat} (hle : shallow ≤ deep)
    (busy : List SymbolId) (isConst : Bool) (n : Node) :
    Deepened (ofExpression p guarded shallow busy isConst n)
      (ofExpression p guarded deep busy isConst n) :=
  deepened_iff.mpr ((deepened_of_le guarded shallow deep hle busy).expression trivial isConst)

/-- An annotation means the same type at a greater depth. -/
theorem of_type_node_deepened {shallow deep : Nat} (hle : shallow ≤ deep)
    (busy : List SymbolId) (n : Node) :
    Deepened (ofTypeNode p guarded shallow busy n) (ofTypeNode p guarded deep busy n) :=
  deepened_iff.mpr ((deepened_of_le guarded shallow deep hle busy).typeNode trivial)

end StaticLiteral.Typing
