import StaticLiteral.Proofs.Binding.Notes
import StaticLiteral.Proofs.Program.Identity

/-!
# The declarations of symbols

Every symbol that binding a tree establishes has a node of the tree as its declaration, and the
symbol of an object literal of the tree has the literal itself: `declarer_of_mem`, `literal_of_mem`.
In the program of some files this holds of all symbols and literals.
-/

namespace StaticLiteral

/-- The symbol that binding makes for an object or type literal. -/
def Node.ownSymbol? : Node → Option BoundSymbol
  | n@(.objectLiteral ..) => some (literalSymbol .objectLiteral "__object" n)
  | n@(.typeLiteral ..) => some (literalSymbol .typeLiteral "__type" n)
  | _ => none

namespace Binding

open Node

variable {site : Site} {n d : Node} {fact : Fact} {s : BoundSymbol}

/-- The declaration of a symbol is a part of the tree that establishes it, and no mere name. -/
theorem declarer_of_mem (h : fact ∈ ofNode site n) (hs : fact.symbol? = some s)
    (hd : s.declaration = some d) : DeclarerIn n d := by
  have hself : ∀ {n : Node}, (∃ q, DeclarerIn n q ∧ s.declaration = some q) → DeclarerIn n d :=
    fun ⟨q, hq, hdeclaration⟩ => Option.some.inj (hd.symm.trans hdeclaration) ▸ hq
  refine fact_induction (fun site n h => hself (symbol_of_own h hs).2)
    (fun site n _ part facts hstep _ _ h =>
      hself (symbol_of_noted (noted_of_mem_steps hstep) h hs).2)
    (fun site n _ part hstep _ _ ih => ⟨parts_subset_parts hstep ih.1, ih.2⟩) site n h

/-- What a node says about itself to be a literal is the node. -/
theorem literal_own {id : NodeId} (h : .isLiteral id s ∈ ownFacts site n) :
    n.id = id ∧ n.ownSymbol? = some s := by
  cases n with
  | objectLiteral i properties =>
      obtain ⟨rfl, rfl⟩ : id = i.id ∧ s = literalSymbol .objectLiteral "__object" _ := by
        simpa [ownFacts] using h
      exact ⟨rfl, rfl⟩
  | typeLiteral i members =>
      obtain ⟨rfl, rfl⟩ : id = i.id ∧ s = literalSymbol .typeLiteral "__type" _ := by
        simpa [ownFacts] using h
      exact ⟨rfl, rfl⟩
  | exportDeclaration i specifiers module isStar =>
      cases isStar <;> cases module <;> simp [ownFacts, starFacts] at h
  | exportAssignment => simp [ownFacts, defaultFacts, Site.exporting] at h
  | _ => simp [ownFacts] at h

/-- No step notes that something is a literal. -/
theorem literal_not_taken {id : NodeId} {part : Node} {facts : List Fact}
    (htaken : Taken site (.note part facts)) : .isLiteral id s ∉ facts := by
  intro h
  cases htaken with
  | declare spaces exported symbolOf hid =>
      cases part <;> cases exported <;> simp [Site.declare, Site.exporting] at h
  | member hmember =>
      cases part <;> simp only [memberFacts, reduceCtorEq, Option.some.injEq] at hmember <;>
        simp [← hmember] at h
  | shorthand => simp at h
  | exporting => simp [Site.exporting] at h

/-- A literal symbol is that of a literal of the tree. -/
theorem literal_of_mem {id : NodeId} (h : .isLiteral id s ∈ ofNode site n) :
    ∃ m ∈ n.parts, m.id = id ∧ m.ownSymbol? = some s := by
  refine fact_induction (fun site n h => ⟨n, mem_parts_self n, literal_own h⟩)
    (fun site n _ part facts _ _ htaken h => absurd h (literal_not_taken htaken))
    (fun site n _ part hstep _ _ ih => ?_) site n h
  obtain ⟨m, hm, hliteral⟩ := ih
  exact ⟨m, parts_subset_parts hstep hm, hliteral⟩

end Binding

end StaticLiteral
