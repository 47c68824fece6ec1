import StaticLiteral.Proofs.Program.Search
import StaticLiteral.Proofs.Syntax.Height
import StaticLiteral.Proofs.Typing.Depth

/-!
# Questions about types terminate

A question about types leaves the tree it started in only through a symbol that is not being worked
out yet, and comes back to no such symbol. `typingDepth` turns this into a bound on its depth: as
often as there are symbols left, a declaration may be gone down. `of_symbol_terminates` says that
within the bound every question has an answer.
-/

namespace StaticLiteral

/-- The number of levels of the declaration of a symbol. -/
def Symbol.height {ι : Type} (s : Symbol ι) : Nat := Node.heightOfOption s.declaration

namespace Program

/-- The number of levels of the highest declaration of a program. -/
def declarationHeight (p : Program) : Nat := (p.symbols.map Symbol.height).foldr max 0

/-- A depth at which every question about a symbol of the program is answered while the symbols in
`busy` are being worked out: for each of the other symbols, twice the levels of a declaration. -/
def typingDepth (p : Program) (busy : List SymbolId) : Nat :=
  openAmong p.symbols busy * (2 * p.declarationHeight + 4) + 1

variable {p : Program}

/-- The declaration of a symbol of the program is at most as high as the highest. -/
theorem height_le_declaration_height {s : BoundSymbol} (h : s ∈ p.symbols) :
    s.height ≤ p.declarationHeight :=
  le_foldr_max (List.mem_map_of_mem h)

/-- Entering a symbol leaves room for going down its declaration. -/
theorem typing_depth_cons {busy : List SymbolId} {s : BoundSymbol} (hs : s ∈ p.symbols)
    (hbusy : s.id ∉ busy) :
    p.typingDepth (s.id :: busy) + 2 * s.height + 4 ≤ p.typingDepth busy := by
  have hopen := open_among_cons_lt hs hbusy
  have hheight := height_le_declaration_height hs
  have hmul := Nat.mul_le_mul_right (2 * p.declarationHeight + 4) hopen
  rw [Nat.succ_mul] at hmul
  unfold typingDepth
  omega

/-- Entering any symbol leaves at least as much to do as before. -/
theorem typing_depth_cons_le (busy : List SymbolId) (id : SymbolId) :
    p.typingDepth (id :: busy) ≤ p.typingDepth busy := by
  refine Nat.succ_le_succ (Nat.mul_le_mul_right _ (List.Sublist.length_le ?_))
  refine List.monotone_filter_right _ fun s hs => ?_
  simp_all

end Program

namespace Typing

variable {p : Program}

/-- The answer is a value. -/
abbrev Told {α : Type} : Except Failure α → Prop := Ends (fun _ => True) fun _ => False

/-- An answer that is a value has one. -/
theorem exists_of_told {α : Type} {answer : Except Failure α} (h : Told answer) :
    ∃ value, answer = .ok value := by
  cases answer with
  | ok value => exact ⟨value, rfl⟩
  | error failure => exact h.elim

/-- Answers both of which are values have values. -/
theorem exists_of_values {α β : Type} {R : α → β → Prop} {a : Except Failure α}
    {b : Except Failure β} (h : Lifting.values.rel R a b) : ∃ value, a = .ok value := by
  obtain ⟨value, _, ha, _⟩ := h
  exact ⟨value, ha⟩

/-- The questions that are answered within a depth. The room for the declaration of a symbol is
counted apart, unless it is one of the program. -/
def Domain.within (p : Program) (depth : Nat) (busy : List SymbolId) : Domain where
  symbol s := s ∈ p.symbols ∧ p.typingDepth busy ≤ depth ∨
    p.typingDepth busy + 2 * s.height + 4 ≤ depth
  declaration n := p.typingDepth busy + 2 * n.height + 2 ≤ depth
  property _ n := p.typingDepth busy + 2 * n.height + 2 ≤ depth
  expression n := p.typingDepth busy + 2 * n.height + 1 ≤ depth
  element n := p.typingDepth busy + 2 * n.height + 2 ≤ depth
  typeNode n := p.typingDepth busy + 2 * n.height + 1 ≤ depth
  namedType s := s ∈ p.symbols ∧ p.typingDepth busy ≤ depth

/-- What typing a node may go on to is lower than the node. -/
theorem height_lt_of_mem_subjects {n c : Node} (h : c ∈ n.subjects) : c.height < n.height := by
  refine Node.height_lt_of_mem_children ?_
  cases n with
  | propertyAssignment i name init =>
      obtain rfl := List.mem_singleton.mp h
      exact Node.operands_subset_children _ (by simp [Node.operands])
  | _ => exact Node.operands_subset_children _ h

/-- Questions that are answered within a depth lead to such questions one level down. -/
theorem descends_within {depth : Nat} {busy : List SymbolId} :
    Descends p (fun _ => True) (.within p (depth + 1) busy) (.within p depth busy) := by
  have hlower : ∀ {n c : Node}, c ∈ n.subjects → 2 * c.height + 2 ≤ 2 * n.height := by
    intro n c hc
    have hheight := height_lt_of_mem_subjects hc
    omega
  refine ⟨fun h => ?_, fun h => ?_, fun h hlookup => ?_, fun h c hc => ?_, fun h hat => ?_,
    fun _ => trivial, fun h => ?_, fun h c hc => ?_, fun h hlookup => ?_⟩
  all_goals simp only [Domain.within] at *
  · refine ⟨by omega, fun c hc => ?_⟩
    have hheight := hlower hc
    omega
  · refine ⟨trivial, fun c hc => ?_⟩
    have hheight := hlower hc
    omega
  · exact .inl ⟨Program.lookup_mem_symbols hlookup, by omega⟩
  · have hheight := hlower hc
    omega
  · exact .inl ⟨Program.symbol_at_mem_symbols hat, by omega⟩
  · refine ⟨by omega, fun c hc => ?_⟩
    have hheight := hlower hc
    omega
  · have hheight := hlower hc
    omega
  · exact ⟨Program.alias_end_mem_symbols (Program.lookup_mem_symbols hlookup), by omega⟩

/-- Every question about types has an answer within its depth. -/
theorem told_of_le (depth : Nat) :
    ∀ busy, Related .values Eq (.within p depth busy) (answers p true depth busy)
      (answers p true depth busy) := by
  induction depth with
  | zero =>
      intro busy
      have hpos : 0 < p.typingDepth busy := Nat.succ_pos _
      constructor
      all_goals intros; simp only [Domain.within] at *; omega
  | succ depth ih =>
      intro busy
      rw [answers_succ]
      refine (ih busy).step builds_eq descends_within (fun s hs => ?_) fun s hs =>
        ⟨trivial, fun _ => ?_⟩
      · refine entered_related _ rfl .rfl fun hfree => ?_
        have hbusy : s.id ∉ busy := fun hmem => hfree ⟨rfl, hmem⟩
        -- A symbol newly worked out sets free the room that the depth counts for its declaration.
        have hle := p.typing_depth_cons_le busy s.id
        have hroom : p.typingDepth (s.id :: busy) + 2 * s.height + 4 ≤ depth + 1 := by
          rcases hs with ⟨hs, h⟩ | h
          · exact Nat.le_trans (Program.typing_depth_cons hs hbusy) h
          · omega
        refine (ih _).of_symbol builds_eq trivial (fun d hd => ?_) fun halias => ?_
        · simp only [Symbol.height, hd, Node.heightOfOption] at hroom
          simp only [Domain.within]
          omega
        -- No height is left for the end of an alias, but it is one of the symbols counted.
        · exact .inl ⟨Program.alias_end_mem_symbols_of_alias halias, by omega⟩
      · refine entered_related _ rfl .rfl fun hfree => ?_
        have hbusy : s.id ∉ busy := fun hmem => hfree ⟨rfl, hmem⟩
        have hroom := Nat.le_trans (Program.typing_depth_cons hs.1 hbusy) hs.2
        refine (ih _).of_type_alias builds_eq fun d hd c hc => ?_
        have hheight := height_lt_of_mem_subjects hc
        simp only [Symbol.height, hd, Node.heightOfOption] at hroom
        simp only [Domain.within]
        omega

/-- The type of a symbol is told within its depth. -/
theorem of_symbol_terminates {depth : Nat} {busy : List SymbolId} {s : BoundSymbol}
    (h : p.typingDepth busy + 2 * s.height + 4 ≤ depth) :
    ∃ type, ofSymbol p true depth busy s = .ok type :=
  exists_of_values ((told_of_le depth busy).symbol (.inr h))

/-- The type of a symbol of the program is told within the depth that is left. -/
theorem of_program_symbol_terminates {depth : Nat} {busy : List SymbolId} {s : BoundSymbol}
    (hs : s ∈ p.symbols) (h : p.typingDepth busy ≤ depth) :
    ∃ type, ofSymbol p true depth busy s = .ok type :=
  exists_of_values ((told_of_le depth busy).symbol (.inl ⟨hs, h⟩))

/-- The type of an expression is told within its depth. -/
theorem of_expression_terminates {depth : Nat} {busy : List SymbolId} {n : Node}
    (h : p.typingDepth busy + 2 * n.height + 1 ≤ depth) (isConst : Bool) :
    ∃ type, ofExpression p true depth busy isConst n = .ok type :=
  exists_of_values ((told_of_le depth busy).expression h isConst)

/-- The type that an annotation means is told within its depth. -/
theorem of_type_node_terminates {depth : Nat} {busy : List SymbolId} {n : Node}
    (h : p.typingDepth busy + 2 * n.height + 1 ≤ depth) :
    ∃ type, ofTypeNode p true depth busy n = .ok type :=
  exists_of_values ((told_of_le depth busy).typeNode h)

end Typing

end StaticLiteral
