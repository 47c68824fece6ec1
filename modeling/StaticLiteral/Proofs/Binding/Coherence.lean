import StaticLiteral.Proofs.Binding.Sites
import StaticLiteral.Proofs.Program.Symbols
import StaticLiteral.Proofs.Syntax.Layout

/-!
# One symbol for each identity

A symbol has the identity of the node that names it. In a tree that is laid out no two nodes share
an identity, so no two symbols do: `symbol_eq_of_id_eq` says that facts about symbols with the same
identity are about the same symbol.
-/

namespace StaticLiteral.Binding

open Node

/-- The facts are about one symbol, whose identity is that of the node. -/
structure AreAbout (part : Node) (facts : List Fact) : Prop where
  id : ∀ fact ∈ facts, ∀ symbol, fact.symbol? = some symbol → symbol.id = .node part.id
  unique : ∀ fact ∈ facts, ∀ other ∈ facts, ∀ symbol same, fact.symbol? = some symbol →
    other.symbol? = some same → symbol = same

namespace AreAbout

variable {part : Node} {facts : List Fact}

/-- Facts about a given symbol are about one symbol. -/
theorem of_symbol (symbol : BoundSymbol) (hid : symbol.id = .node part.id)
    (h : ∀ fact ∈ facts, ∀ s, fact.symbol? = some s → s = symbol) : AreAbout part facts where
  id fact hfact s hs := h fact hfact s hs ▸ hid
  unique fact hfact other hother s t hs ht :=
    (h fact hfact s hs).trans (h other hother t ht).symm

/-- No facts are about any node. -/
theorem nil : AreAbout part [] := ⟨by simp, by simp⟩

end AreAbout

/-! ## The symbols of facts -/

section Symbols

variable {site : Site} {spaces : List Space} {exported : Bool}
  {symbolOf : SymbolId → Text → BoundSymbol} {owner : SymbolId} {kind : SymbolKind}
  {part member name : Node} {text : Text} {facts : List Fact} {fact : Fact} {s symbol : BoundSymbol}

/-- What is declared under a name is the symbol that is made for it. -/
theorem symbol_of_declare (h : fact ∈ site.declare spaces exported symbolOf name)
    (hs : fact.symbol? = some s) :
    ∃ i text, name = .identifier i text ∧ s = symbolOf (.node i.id) text := by
  cases name with
  | identifier i text =>
      refine ⟨i, text, rfl, ?_⟩
      simp only [Site.declare, List.mem_append, List.mem_flatMap, List.mem_map,
        List.mem_cons] at h
      rcases h with ⟨frame, _, space, _, rfl⟩ | rfl | h
      · exact (Option.some.inj hs).symm
      · exact (Option.some.inj hs).symm
      · split at h
        · obtain ⟨table, _, rfl⟩ := List.mem_map.mp h
          exact (Option.some.inj hs).symm
        · simp at h
  | _ => simp [Site.declare] at h

/-- What is entered for a member is the symbol of its name. -/
theorem symbol_of_member (h : memberFacts owner kind member name = some facts) :
    ∃ text, ∀ fact ∈ facts, ∀ s, fact.symbol? = some s →
      s = .declaredBy kind member false (.node name.id) text := by
  cases name with
  | identifier i text | stringLiteral i text | numericLiteral i text =>
      obtain rfl := Option.some.inj h
      refine ⟨text, fun fact hfact s hs => ?_⟩
      simp only [List.mem_cons, List.not_mem_nil, or_false] at hfact
      rcases hfact with rfl | rfl <;> exact (Option.some.inj hs).symm
  | _ => cases h

/-- What is exported is the symbol. -/
theorem symbol_of_exporting (h : fact ∈ site.exporting text symbol) (hs : fact.symbol? = some s) :
    s = symbol := by
  obtain ⟨table, _, rfl⟩ := List.mem_map.mp h
  exact (Option.some.inj hs).symm

/-- What is declared is the symbol of the name. -/
theorem are_about_declare (hid : ∀ id text, (symbolOf id text).id = id) :
    AreAbout name (site.declare spaces exported symbolOf name) := by
  cases name with
  | identifier i text =>
      refine .of_symbol (symbolOf (.node i.id) text) (hid _ _) fun fact hfact s hs => ?_
      obtain ⟨_, _, heq, rfl⟩ := symbol_of_declare hfact hs
      obtain ⟨rfl, rfl⟩ := Node.identifier.inj heq
      rfl
  | _ => exact .nil

/-- The entry of a member is about the symbol of its name. -/
theorem are_about_member_facts (h : memberFacts owner kind member name = some facts) :
    AreAbout name facts := by
  obtain ⟨text, h⟩ := symbol_of_member h
  exact .of_symbol _ rfl h

/-- What is exported is one symbol. -/
theorem are_about_exporting (hid : symbol.id = .node part.id) :
    AreAbout part (site.exporting text symbol) :=
  .of_symbol symbol hid fun _ hfact _ hs => symbol_of_exporting hfact hs

end Symbols

/-- The facts of a node about itself are about its own symbol. -/
theorem are_about_own_facts (site : Site) (n : Node) : AreAbout n (ownFacts site n) := by
  cases n with
  | identifier i text | typeReference i name arguments =>
      exact ⟨by simp [ownFacts, Fact.symbol?], by simp [ownFacts, Fact.symbol?]⟩
  | exportDeclaration i specifiers module isStar =>
      cases isStar with
      | false => exact .nil
      | true =>
          cases module with
          | none => exact .nil
          | some module =>
              simp only [ownFacts, starFacts]
              split
              · exact ⟨by simp [Fact.symbol?], by simp [Fact.symbol?]⟩
              · exact .nil
  | exportAssignment i e =>
      refine are_about_exporting ?_
      split <;> rfl
  | objectLiteral i properties | typeLiteral i members =>
      exact ⟨by simp [ownFacts, Fact.symbol?, literalSymbol, Symbol.declaredBy],
        by simp [ownFacts, Fact.symbol?]⟩
  | _ => exact .nil

/-- The facts of a step about a node are about its symbol. -/
theorem are_about_of_taken {site : Site} {part : Node} {facts : List Fact}
    (h : Taken site (.note part facts)) : AreAbout part facts := by
  cases h with
  | declare spaces exported symbolOf hid => exact are_about_declare hid
  | member h => exact are_about_member_facts h
  | shorthand i name => exact ⟨by simp [Fact.symbol?], by simp [Fact.symbol?]⟩
  | exporting _ name hid => exact are_about_exporting hid

variable {site : Site} {n m : Node} {step next : Step} {fact other : Fact}
  {symbol same : BoundSymbol}

/-- A fact about a symbol has it from one of the parts. -/
theorem exists_part_of_mem (h : fact ∈ ofNode site n) (hsymbol : fact.symbol? = some symbol) :
    ∃ part ∈ n.parts, symbol.id = .node part.id := by
  refine fact_induction (fun site n h => ?_) (fun site n _ part _ hstep _ htaken h => ?_)
    (fun site n _ part hstep _ _ ih => ?_) site n h
  · exact ⟨n, mem_parts_self n, (are_about_own_facts site n).id fact h symbol hsymbol⟩
  · exact ⟨part, parts_subset_parts hstep (by simp),
      (are_about_of_taken htaken).id fact h symbol hsymbol⟩
  · obtain ⟨m, hm, hid⟩ := ih
    exact ⟨m, parts_subset_parts hstep hm, hid⟩

/-- A fact about a symbol has it from one of the nodes that the step meets. -/
theorem exists_part_of_taken (htaken : Taken site step) (h : fact ∈ step.facts)
    (hsymbol : fact.symbol? = some symbol) : ∃ part ∈ step.parts, symbol.id = .node part.id := by
  cases step with
  | note part facts => exact ⟨part, by simp, (are_about_of_taken htaken).id fact h symbol hsymbol⟩
  | visit target part => exact exists_part_of_mem h hsymbol

/-- A fact that a step establishes about a symbol has it from one of the nodes that the step
meets. -/
theorem exists_part_of_step (hstep : step ∈ steps site n) (h : fact ∈ step.facts)
    (hsymbol : fact.symbol? = some symbol) : ∃ part ∈ step.parts, symbol.id = .node part.id := by
  obtain ⟨_, _, htaken⟩ := taken_of_mem_steps hstep
  exact exists_part_of_taken htaken h hsymbol

/-- The steps of a node that is laid out meet no node twice. -/
theorem nodup_parts_of_steps (site : Site) (h : Laid n) :
    (((steps site n).flatMap Step.parts).map Node.id).Nodup := by
  have hnodup := h.nodup
  rw [parts_eq n, List.map_cons, List.nodup_cons] at hnodup
  obtain ⟨l, hperm, hsub⟩ := steps_subperm site n
  exact (hperm.map Node.id).nodup_iff.mp (hnodup.2.sublist (hsub.map Node.id))

/-- Two steps of a node that is laid out have no node in common. -/
theorem steps_eq_of_common (h : Laid n) (hstep : step ∈ steps site n)
    (hnext : next ∈ steps site n) {part common : Node} (hpart : part ∈ step.parts)
    (hcommon : common ∈ next.parts) (hid : part.id = common.id) : step = next := by
  have hsteps := nodup_parts_of_steps site h
  rw [List.map_flatMap, List.nodup_flatMap] at hsteps
  by_contra hne
  have hsymm : Std.Symm (Function.onFun List.Disjoint fun step : Step => step.parts.map Node.id) :=
    ⟨fun _ _ h _ hx hy => h hy hx⟩
  refine hsteps.2.forall hstep hnext hne (List.mem_map_of_mem hpart) ?_
  exact hid ▸ List.mem_map_of_mem hcommon

/-- A fact about the symbol of a node below comes from the step that meets that node. -/
theorem mem_facts_of_common (hlaid : Laid n) (hstep : step ∈ steps site n) (hm : m ∈ step.parts)
    (h : fact ∈ ofNode site n) (hsymbol : fact.symbol? = some symbol)
    (hid : symbol.id = .node m.id) : fact ∈ step.facts := by
  rw [of_node_eq] at h
  rcases List.mem_append.mp h with h | h
  · have hown := (are_about_own_facts site n).id fact h symbol hsymbol
    exact absurd (SymbolId.node.inj (hid.symm.trans hown))
      (hlaid.id_ne_of_mem_below (parts_subset_below hstep hm))
  · obtain ⟨next, hnext, h⟩ := List.mem_flatMap.mp h
    obtain ⟨part, hpart, hpartid⟩ := exists_part_of_step hnext h hsymbol
    have hsame := SymbolId.node.inj (hid.symm.trans hpartid)
    exact steps_eq_of_common hlaid hstep hnext hm hpart hsame ▸ h

/-- A fact about the symbol of a node is one of the node about itself. -/
theorem mem_own_facts (hlaid : Laid n) (h : fact ∈ ofNode site n)
    (hsymbol : fact.symbol? = some symbol) (hid : symbol.id = .node n.id) :
    fact ∈ ownFacts site n := by
  rw [of_node_eq] at h
  rcases List.mem_append.mp h with h | h
  · exact h
  · obtain ⟨step, hstep, h⟩ := List.mem_flatMap.mp h
    obtain ⟨part, hpart, hpartid⟩ := exists_part_of_step hstep h hsymbol
    exact absurd (SymbolId.node.inj (hpartid.symm.trans hid))
      (hlaid.id_ne_of_mem_below (parts_subset_below hstep hpart))

/-- In a tree that is laid out, symbols with the same identity are the same. -/
theorem symbol_eq_of_id_eq (hlaid : Laid n) (h : fact ∈ ofNode site n)
    (hother : other ∈ ofNode site n) (hsymbol : fact.symbol? = some symbol)
    (hsame : other.symbol? = some same) (hid : symbol.id = same.id) : symbol = same := by
  induction n using parts_induction generalizing site with
  | step n ih =>
      rw [of_node_eq] at h
      rcases List.mem_append.mp h with h | h
      · have hown := (are_about_own_facts site n).id fact h symbol hsymbol
        exact (are_about_own_facts site n).unique fact h other
          (mem_own_facts hlaid hother hsame (hid.symm.trans hown)) symbol same hsymbol hsame
      · obtain ⟨step, hstep, h⟩ := List.mem_flatMap.mp h
        -- Both symbols are of the same node, which only this step meets.
        obtain ⟨part, hpart, hpartid⟩ := exists_part_of_step hstep h hsymbol
        have hother := mem_facts_of_common hlaid hstep hpart hother hsame (hid.symm.trans hpartid)
        cases step with
        | note part facts =>
            obtain ⟨target, _, htaken⟩ := taken_of_mem_steps hstep
            exact (are_about_of_taken htaken).unique fact h other hother symbol same hsymbol hsame
        | visit target part =>
            have hbelow := parts_subset_below hstep (mem_parts_self part)
            exact ih part hbelow (hlaid.of_mem_parts (below_subset_parts n hbelow)) h hother

end StaticLiteral.Binding
