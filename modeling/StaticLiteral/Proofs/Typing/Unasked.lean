import StaticLiteral.Proofs.Typing.Correspondence

/-!
# Symbols that are never asked for

Whether a symbol is being worked out matters only to a question that comes to this symbol. Nodes and
symbols are enclosed if they lead to no others; a question about them has the same answer whatever
else is being worked out: `busy_congr`.
-/

namespace StaticLiteral

/-- The nodes and symbols lead to no others: whatever typing goes on to from them is among them. -/
structure Program.Enclosed (p : Program) (N : Node → Prop) (S : BoundSymbol → Prop) : Prop where
  subject : ∀ {n c}, N n → c ∈ n.subjects → N c
  symbolAt : ∀ {i text s}, N (.identifier i text) → p.symbolAt? (.identifier i text) = some s → S s
  lookup : ∀ {space name n s}, p.lookup? space name n = some s → S s
  aliased : ∀ {s}, S s → S (p.aliased s)
  declaration : ∀ {s d}, S s → s.declaration = some d → N d

namespace Program.Enclosed

variable {p : Program} {N : Node → Prop} {S : BoundSymbol → Prop} {s : BoundSymbol}

/-- The end of a chain of aliases is among the symbols if its start is. -/
theorem alias_end (h : p.Enclosed N S) (hs : S s) : S (p.aliasEnd s) := by
  have hend : p.aliasEnd s = p.aliasEnd s ∧ S (p.aliasEnd s) :=
    alias_end_related (R := fun s t => t = s ∧ S t) (fun h => h.1 ▸ rfl) (fun h => h.1 ▸ rfl)
      (fun ht => ⟨ht.1 ▸ rfl, h.aliased ht.2⟩) ⟨rfl, hs⟩
  exact hend.2

end Program.Enclosed

namespace Typing

variable {p : Program} {N : Node → Prop} {S : BoundSymbol → Prop}

/-- The questions about some nodes and symbols. -/
def Domain.among (N : Node → Prop) (S : BoundSymbol → Prop) : Domain where
  symbol := S
  declaration := N
  property _ := N
  expression := N
  element := N
  typeNode := N
  namedType := S

/-- Questions about nodes and symbols that lead to no others lead to such questions. -/
theorem descends_among (h : p.Enclosed N S) :
    Descends p (fun _ => True) (.among N S) (.among N S) where
  declaration hn := ⟨hn, fun _ hc => ⟨h.subject hn hc, h.subject hn hc⟩⟩
  property hn := ⟨trivial, fun _ hc => ⟨h.subject hn hc, h.subject hn hc⟩⟩
  propertyName _ hlookup := h.lookup hlookup
  expression hn _ hc := ⟨h.subject hn hc, h.subject hn hc, h.subject hn hc⟩
  identifier hn hat := h.symbolAt hn hat
  literal _ := trivial
  element hn := ⟨hn, fun _ hc => h.subject hn hc⟩
  typeNode hn _ hc := ⟨h.subject hn hc, h.subject hn hc⟩
  typeName _ hlookup := h.alias_end (h.lookup hlookup)

/-- If the symbols that are being worked out are the same but for some that are not among those a
question may come to, so is the answer. -/
theorem busy_congr (h : p.Enclosed N S) (depth : Nat) :
    ∀ busy other, (∀ s, S s → (s.id ∈ busy ↔ s.id ∈ other)) →
      Related .parallel Eq (.among N S) (answers p true depth busy)
        (answers p true depth other) := by
  induction depth with
  | zero =>
      intro busy other _
      constructor
      all_goals intros; exact rfl
  | succ depth ih =>
      intro busy other hbusy
      have hentered : ∀ s : BoundSymbol, Related .parallel Eq (.among N S)
          (answers p true depth (s.id :: busy)) (answers p true depth (s.id :: other)) := by
        intro s
        refine ih _ _ fun t ht => ?_
        rw [List.mem_cons, List.mem_cons, hbusy t ht]
      rw [answers_succ, answers_succ]
      refine (ih busy other hbusy).step builds_eq (descends_among h) (fun s hs => ?_) fun s hs =>
        ⟨trivial, fun _ => ?_⟩
      · refine entered_related _ rfl (hbusy s hs) fun _ => ?_
        exact (hentered s).of_symbol builds_eq trivial
          (fun d hd => ⟨h.declaration hs hd, h.declaration hs hd⟩) fun _ => h.alias_end hs
      · refine entered_related _ rfl (hbusy s hs) fun _ => ?_
        exact (hentered s).of_type_alias builds_eq fun d hd _ hc =>
          h.subject (h.declaration hs hd) hc

end Typing

end StaticLiteral
