import StaticLiteral.Proofs.Binding.Exports
import StaticLiteral.Proofs.Binding.Notes

/-!
# The origins of exports

Nothing gets into the table of a file but what a statement of the file exports:
`exists_exported_of_enters`. Parameters, variables of loops, members, imports and the names of
function expressions are declared without being exported.
-/

namespace StaticLiteral.Binding

open Node

variable {site : Site} {n part name : Node} {facts : List Fact} {key : Text} {s : BoundSymbol}

/-- What is declared without being exported is entered nowhere. -/
theorem not_entered_of_declare {spaces : List Space} {symbolOf : SymbolId → Text → BoundSymbol} :
    .enters .exports key s ∉ site.declare spaces false symbolOf name := by
  cases name <;> simp [Site.declare]

/-- A member is entered in the table of its owner only. -/
theorem not_entered_of_member {owner : SymbolId} {kind : SymbolKind} {member : Node}
    (h : memberFacts owner kind member name = some facts) : .enters .exports key s ∉ facts := by
  cases name with
  | identifier i text | stringLiteral i text | numericLiteral i text =>
      obtain rfl := Option.some.inj h
      simp
  | _ => cases h

/-- What a statement notes in the table of a file is exported by the statement. -/
theorem exported_of_noted (h : Noted site n part facts) (henters : .enters .exports key s ∈ facts) :
    part ∈ n.exported := by
  cases h with
  | @declared _ _ exported _ _ _ _ _ _ hexported _ =>
      cases exported with
      | false => exact absurd henters not_entered_of_declare
      | true => exact hexported rfl
  | member _ _ _ h => exact absurd henters (not_entered_of_member h)
  | shorthand => simp at henters
  | specifier _ hexported => exact hexported

/-- What a node enters about itself in the table of a file is its default. -/
theorem exported_of_own (h : .enters .exports key s ∈ ownFacts site n) : n ∈ n.exported := by
  cases n with
  | exportAssignment i e => exact List.mem_singleton_self _
  | exportDeclaration i specifiers module isStar =>
      cases isStar <;> cases module <;> simp [ownFacts, starFacts] at h
  | _ => simp [ownFacts] at h

/-- What is entered in the table of a file is exported by a statement of the file that is bound with
this table, and under its own name. -/
theorem exists_exported_of_enters (hlaid : Laid n) (hwell : n.WellFormed)
    (h : .enters .exports key s ∈ ofNode site n) : ∃ target m, Visits site n target m ∧
      target.exports = some .exports ∧
        ∃ x ∈ m.exported, s.id = .node x.id ∧ x.exportKey? = some key := by
  have hvisits : ∃ target m, Visits site n target m ∧ ∃ x ∈ m.exported, s.id = .node x.id := by
    refine fact_induction (fun site n h => ?_) (fun site n _ part facts hstep _ htaken hfact => ?_)
      (fun site n target part hstep _ _ ih => ?_) site n h
    · refine ⟨site, n, .here site n, n, exported_of_own h, ?_⟩
      exact (are_about_own_facts site n).id _ h s rfl
    · refine ⟨site, n, .here site n, part, exported_of_noted (noted_of_mem_steps hstep) hfact, ?_⟩
      exact (are_about_of_taken htaken).id _ hfact s rfl
    · obtain ⟨last, m, hvisits, hm⟩ := ih
      exact ⟨last, m, .step hstep hvisits, hm⟩
  obtain ⟨target, m, hvisits, x, hx, hid⟩ := hvisits
  obtain ⟨htable, hkey⟩ :=
    (exports_to_of_visits hlaid hwell hvisits hx .exports key).mp ⟨s, hid, h⟩
  exact ⟨target, m, hvisits, htable, x, hx, hid, hkey⟩

end StaticLiteral.Binding
