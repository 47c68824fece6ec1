import StaticLiteral.Proofs.Binding.Notes

/-!
# What names something

Binding makes a node the name of a symbol only where the node stands in the place of a name:
`exists_name_of_names`. So an identifier in any other place has no symbol of its own.
-/

namespace StaticLiteral.Binding

open Node

variable {site target : Site} {n part : Node} {facts : List Fact} {x : NodeId} {s : BoundSymbol}

/-- What is noted is about a name in the tree, or it names nothing. -/
theorem name_of_noted (h : Noted site n part facts) (hnames : .names x s ∈ facts) :
    IsNameIn n part := by
  cases h with
  | declared hname | member hname => exact hname
  | shorthand | specifier => simp [Site.exporting] at hnames

/-- A step makes only the node it is about the name of a symbol. -/
theorem id_of_taken (h : Taken target (.note part facts)) (hmem : .names x s ∈ facts) :
    x = part.id := by
  cases h with
  | declare spaces exported symbolOf hid =>
      cases part with
      | identifier i text =>
          cases exported <;> simp [Site.declare, Site.exporting] at hmem <;> exact hmem.1
      | _ => simp [Site.declare] at hmem
  | member h =>
      cases part with
      | identifier i text =>
          obtain rfl := Option.some.inj h
          simp only [List.mem_cons, reduceCtorEq, List.not_mem_nil, or_false, false_or,
            Fact.names.injEq] at hmem
          exact hmem.1
      | stringLiteral i text | numericLiteral i text =>
          obtain rfl := Option.some.inj h
          simp at hmem
      | _ => simp [memberFacts] at h
  | shorthand => simp at hmem
  | exporting => simp [Site.exporting] at hmem

/-- A node establishes no names about itself. -/
theorem not_names_of_own : .names x s ∉ ownFacts site n := by
  intro h
  cases n with
  | exportDeclaration i specifiers module isStar =>
      cases isStar <;> cases module <;> simp [ownFacts, starFacts] at h
  | exportAssignment i e => simp [ownFacts, defaultFacts, Site.exporting] at h
  | _ => simp [ownFacts] at h

/-- What is made the name of a symbol stands in the place of a name. -/
theorem exists_name_of_names (h : .names x s ∈ ofNode site n) :
    ∃ part, part.id = x ∧ IsNameIn n part := by
  refine fact_induction (fun site n h => absurd h not_names_of_own)
    (fun site n _ part facts hstep _ htaken h => ?_) (fun site n _ part hstep _ _ ih => ?_) site n h
  · exact ⟨part, (id_of_taken htaken h).symm, name_of_noted (noted_of_mem_steps hstep) h⟩
  · obtain ⟨name, hid, q, hq, hname⟩ := ih
    exact ⟨name, hid, q, parts_subset_parts hstep hq, hname⟩

end StaticLiteral.Binding
