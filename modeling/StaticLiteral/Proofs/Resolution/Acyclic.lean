import StaticLiteral.Proofs.Program.Declarations
import StaticLiteral.Proofs.Resolution.Guards

/-!
# Resolving without cycles

Functions, classes, enumerations and namespaces have a type that leads back to them, so they have
no value. A request is free of other cycles if it ends without guards as soon as these types tell
nothing: `answer_of_free` says that it has the same answer with guards, and all that types tell.
-/

namespace StaticLiteral

/-- Whether the type of the symbol is an object type that leads back to the symbol. -/
def SymbolKind.isOwnType : SymbolKind → Bool
  | function | classDefinition | enum | namespaceBlock => true
  | _ => false

namespace Typing

/-- What a type tells, unless it leads back to the symbol that it is the type of. -/
def viewBriefly (t : BoundTy) : TypeView SymbolId :=
  match view t with
  | .object symbol => if symbol.kind.isOwnType then .other else .object symbol
  | told => told

/-- A type tells briefly what it tells, or nothing because it leads back to its own symbol. -/
theorem view_briefly_cases (t : BoundTy) :
    viewBriefly t = view t ∨
      viewBriefly t = .other ∧ ∃ symbol, view t = .object symbol ∧ symbol.kind.isOwnType := by
  unfold viewBriefly
  split
  case h_1 symbol hview =>
    split
    case isTrue hkind => exact .inr ⟨rfl, symbol, hview, hkind⟩
    case isFalse => exact .inl hview.symm
  case h_2 => exact .inl rfl

/-- A type that tells nothing tells nothing briefly. -/
theorem view_briefly_of_other {t : BoundTy} (h : view t = .other) : viewBriefly t = .other := by
  rw [viewBriefly, h]

end Typing

namespace Resolution

/-- What types tell briefly. -/
def Sight.brief : Sight where
  view := Typing.viewBriefly
  blurred t := by rw [Typing.viewBriefly, Typing.viewBriefly, Typing.view_blurred]
  reference := by
    intro t h
    rcases Typing.view_briefly_cases t with heq | ⟨hother, _⟩
    · exact eq_reference_of_view (heq ▸ h)
    · simp [hother] at h
  object := by
    intro t symbol h
    rcases Typing.view_briefly_cases t with heq | ⟨hother, _⟩
    · exact eq_object_of_view (heq ▸ h)
    · simp [hother] at h

end Resolution

/-- The program as a resolver sees it that neither guards against cycles nor follows types that lead
back to their own symbol. -/
def Program.freely (p : Program) (typing : Nat) : SemanticModel SymbolId BoundTy :=
  p.modelSeeing .brief typing false

namespace Resolution

variable {p : Program}

/-- The type of a function or the like is an object type of it. -/
theorem type_of_own_type {symbol : BoundSymbol} (h : symbol.kind.isOwnType) (typing : Nat) :
    ∃ shape, (p.modelWithin (typing + 1)).typeOf symbol = .ok (.object shape (some symbol)) := by
  show ∃ shape, Typing.ofSymbol p true (typing + 1) [] symbol = _
  cases hkind : symbol.kind <;> simp only [hkind, SymbolKind.isOwnType, Bool.false_eq_true] at h
  all_goals
    simp only [Typing.ofSymbol, hkind]
    exact ⟨_, rfl⟩

/-- A function or the like stands for what its type resolves to. -/
theorem symbol_value_of_own_type {symbol : BoundSymbol} (h : symbol.kind.isOwnType) (typing : Nat)
    (ofDeclaration : Node → Answer) (ofType : BoundTy → Answer) :
    ∃ shape, symbolValue (p.modelWithin (typing + 1)) ofDeclaration ofType symbol =
      ofType (.object shape (some symbol)) := by
  obtain ⟨shape, htype⟩ := type_of_own_type (p := p) h typing
  refine ⟨shape, ?_⟩
  cases hkind : symbol.kind <;> simp only [hkind, SymbolKind.isOwnType, Bool.false_eq_true] at h
  all_goals
    simp only [symbolValue, hkind, htype]
    rfl

/-- With guards, a type that leads back to its own symbol resolves to nothing. -/
theorem of_type_of_own_type {t : BoundTy} {symbol : BoundSymbol}
    (hview : Typing.view t = .object symbol) (h : symbol.kind.isOwnType) (typing depth : Nat)
    (busy : List SymbolId) :
    ofType (p.modelWithin (typing + 1)) (depth + 4) busy t = .ok none := by
  have hfollowed : followed (p.modelWithin (typing + 1)) symbol = .ok symbol := by
    rw [followed, if_neg]
    cases hkind : symbol.kind <;> simp_all [SymbolKind.isOwnType, SymbolKind.isAlias]
  -- Asked about while it is in flight, the symbol stands for nothing.
  have hagain : ∀ (busy : List SymbolId) (t : BoundTy) depth, symbol.id ∈ busy →
      Typing.view t = .object symbol →
      ofType (p.modelWithin (typing + 1)) (depth + 2) busy t = .ok none := by
    intro busy t depth hbusy hview
    have hsight : (p.modelWithin (typing + 1)).view t = .object symbol := hview
    simp only [ofType, hsight, ofSymbol, hfollowed, bind, Except.bind]
    rw [if_pos ⟨rfl, hbusy⟩]
    rfl
  by_cases hbusy : symbol.id ∈ busy
  · exact hagain busy t (depth + 2) hbusy hview
  · have hsight : (p.modelWithin (typing + 1)).view t = .object symbol := hview
    obtain ⟨shape, hvalue⟩ := symbol_value_of_own_type (p := p) h typing
      (ofNode (p.modelWithin (typing + 1)) (depth + 2) (symbol.id :: busy))
      (ofType (p.modelWithin (typing + 1)) (depth + 2) (symbol.id :: busy))
    rw [ofType, hsight]
    dsimp only
    rw [ofSymbol, hfollowed]
    simp only [bind, Except.bind]
    rw [if_neg (by simp [hbusy]), hvalue]
    exact hagain _ _ depth List.mem_cons_self rfl

/-- What a resolver finds that is told briefly, one finds that is told all, if it may go some more
levels and its questions about types at least one level. -/
theorem refines_brief (p : Program) {typing types : Nat} (htypes : typing < types) :
    Refines (p.modelWithin types) (p.modelSeeing .brief typing) 4 where
  symbolAt := rfl
  aliased := rfl
  guarded := rfl
  arguments := rfl
  characterNames := rfl
  typeOf s := Typing.of_symbol_deepened (Nat.le_of_lt htypes) [] s
  view t := by
    rcases Typing.view_briefly_cases t with heq | ⟨hother, symbol, hview, hkind⟩
    · exact .inl heq.symm
    · refine .inr ⟨hother, fun depth hdepth busy => ?_⟩
      obtain ⟨types, rfl⟩ := Nat.exists_eq_add_one_of_ne_zero (Nat.ne_zero_of_lt htypes)
      obtain ⟨depth, rfl⟩ := Nat.exists_eq_add_of_le' hdepth
      exact of_type_of_own_type hview hkind types depth busy

/-- A request that ends freely, whatever it ends with, ends with the same answer with guards and all
that types tell, a few levels deeper. -/
theorem answer_of_free (hp : ∀ s ∈ p.symbols, ∀ t ∈ p.symbols, s.id = t.id → s = t) {node : Node}
    {typing depth : Nat} {answer : Answer} (h : ofNode (p.freely typing) depth [] node = answer)
    (hreached : answer ≠ .error .tooDeep) :
    ∀ types > typing, ∀ deep ≥ depth + 4, ofNode (p.modelWithin types) deep [] node = answer := by
  intro types htypes deep hdeep
  have hstuck : Deepened (ofNode (p.freely typing) depth [] node)
      (ofNode (p.modelSeeing .brief typing) depth [] node) :=
    deepened_iff.mpr ((deepened_of_stuck .brief hp depth [] (by simp)).node trivial)
  have hguarded := hstuck.eq (h ▸ hreached)
  have hfull : Deepened (ofNode (p.modelSeeing .brief typing) depth [] node)
      (ofNode (p.modelWithin types) deep [] node) :=
    deepened_iff.mpr (((refines_brief p htypes).deepened depth deep hdeep []).node trivial)
  rw [hfull.eq (hguarded ▸ h ▸ hreached)]
  exact hguarded.trans h

/-- Freely, nodes, symbols and types resolve to the same at every depth at which they do. -/
theorem freely_deepened (p : Program) {typing types depth deep : Nat} (htypes : typing ≤ types)
    (hdeep : depth ≤ deep) (busy : List SymbolId) :
    Related .unlessStopped (.all SymbolId BoundTy) (answers (p.freely typing) depth busy)
      (answers (p.freely types) deep busy) := by
  have h : Refines (p.freely types) (p.freely typing) 0 :=
    ⟨rfl, rfl, rfl, rfl, rfl, fun s => Typing.of_symbol_deepened htypes [] s, fun t => .inl rfl⟩
  exact h.deepened depth deep hdeep busy

end Resolution

end StaticLiteral
