import StaticLiteral.Proofs.Binding.Notes

/-!
# The origins of aliases

Only imports and exports make aliases. `origin_of_mem` says where the aliases of a tree point: they
stand in the file that is bound, and a module that they name is named by the tree, in an import or
an export.
-/

namespace StaticLiteral.Binding

open Node

variable {site target : Site} {n part : Node} {fact : Fact} {s : BoundSymbol}

/-- What is visited is bound in the same file. -/
theorem file_name_of_visit (h : .visit target part ∈ steps site n) :
    target.fileName = site.fileName := by
  obtain ⟨_, _, htaken, hfile⟩ := taken_in_file_of_mem_steps h
  cases htaken
  exact hfile

/-- An alias that a tree makes points from the file that is bound; a module that it names is named
by a node of the tree. -/
theorem origin_of_mem {origin : AliasOrigin} (h : fact ∈ ofNode site n)
    (hs : fact.symbol? = some s) (hkind : s.kind = .aliasOf origin) :
    origin.sourceFile = some site.fileName ∧ ∀ module, origin.module = some module →
      ∃ part ∈ n.parts, part.moduleSpecifier? = some module := by
  have hself : ∀ {site : Site} {n : Node}, PointsFrom site n s.kind →
      origin.sourceFile = some site.fileName ∧ ∀ module, origin.module = some module →
        ∃ part ∈ n.parts, part.moduleSpecifier? = some module := fun hpoints =>
    ⟨(hpoints origin hkind).1, fun module hmodule =>
      ⟨_, mem_parts_self _, (hpoints origin hkind).2 module hmodule⟩⟩
  refine fact_induction (fun site n h => hself (symbol_of_own h hs).1)
    (fun site n _ part facts hstep _ _ h =>
      hself (symbol_of_noted (noted_of_mem_steps hstep) h hs).1)
    (fun site n target part hstep _ _ ih => ?_) site n h
  refine ⟨file_name_of_visit hstep ▸ ih.1, fun module hmodule => ?_⟩
  obtain ⟨m, hm, hspecifier⟩ := ih.2 module hmodule
  exact ⟨m, parts_subset_parts hstep hm, hspecifier⟩

end StaticLiteral.Binding
