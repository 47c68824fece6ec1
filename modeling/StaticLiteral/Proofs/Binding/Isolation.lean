import StaticLiteral.Proofs.Binding.Emptied
import StaticLiteral.Proofs.Binding.Frames

/-!
# What a function hides

Facts that get lost when a function is left empty are about nodes inside the function
(`symbol_inside`, `refers_inside`), and no other facts are about such symbols (`kept_outside`). If
the function has a frame of its own, lost declarations stand in frames inside of it
(`declares_inside`).
-/

namespace StaticLiteral

namespace Binding

open Node

/-- The symbol is that of a name inside the function. -/
def Hides (function : Node) (symbol : BoundSymbol) : Prop :=
  ∃ part ∈ function.inner.flatMap parts, symbol.id = .node part.id

/-- What is inside the function is always bound in a frame of the function's own. -/
def IsFramed (site : Site) (n function : Node) : Prop :=
  ∀ inner, Enters site n function inner →
    ∃ outer, inner.scope = ⟨.node function.id, .function⟩ :: outer

variable {site : Site} {n function : Node} {fact : Fact} {symbol : BoundSymbol}

/-- Function expressions always have a frame of their own. -/
theorem is_framed_of_expression (site : Site) (n : Node) (i : Info) (name : Option Node)
    (parameters : List Node) (body : Option Node) :
    IsFramed site n (.functionExpression i name parameters body) := by
  intro inner h
  generalize hf : Node.functionExpression i name parameters body = f at h
  induction h with
  | declaration | property | lone => simp at hf
  | expression =>
      obtain ⟨rfl, _⟩ := Node.functionExpression.inj hf
      exact ⟨_, rfl⟩
  | visit _ _ ih => exact ih hf

/-- A lost fact is one of a step inside the function. -/
theorem exists_step_of_lost (hlaid : Laid n) (hf : function ∈ n.parts)
    (h : Lost site n function.id fact) :
    ∃ inner step, Enters site n function inner ∧ Taken inner step ∧
      (∀ part ∈ step.parts, part ∈ function.inner.flatMap parts) ∧ fact ∈ step.facts := by
  obtain ⟨step, ⟨f, inner, henters, hid, htaken, hparts⟩, hfact⟩ := h
  obtain rfl := hlaid.eq_of_id_eq (mem_parts_of_enters henters) hf hid
  exact ⟨inner, step, henters, htaken, hparts, hfact⟩

/-- The function encloses what is inside of it. -/
theorem encloses_inner (hlaid : Laid n) (hf : function ∈ n.parts) {part : Node}
    (h : part ∈ function.inner.flatMap parts) : function.id.Encloses part.id := by
  obtain ⟨m, hm, hpart⟩ := List.mem_flatMap.mp h
  have hmem := parts_subset_of_mem_children (inner_subset_children function hm) hpart
  exact (hlaid.of_mem_parts hf).encloses hmem

/-- The function hides the symbol of a lost fact. -/
theorem hides_of_lost (hlaid : Laid n) (hf : function ∈ n.parts)
    (h : Lost site n function.id fact) (hsymbol : fact.symbol? = some symbol) :
    Hides function symbol := by
  obtain ⟨inner, step, _, htaken, hparts, hfact⟩ := exists_step_of_lost hlaid hf h
  obtain ⟨part, hpart, hid⟩ := exists_part_of_taken htaken hfact hsymbol
  exact ⟨part, hparts part hpart, hid⟩

/-- No fact about a symbol that the function hides stays. -/
theorem not_hides_of_mem_emptied (hlaid : Laid n) (hf : function ∈ n.parts)
    (hfunction : function.isFunction = true) (h : fact ∈ ofNode site (n.emptied function.id))
    (hsymbol : fact.symbol? = some symbol) : ¬ Hides function symbol := by
  rintro ⟨part, hpart, hid⟩
  obtain ⟨m, hm, hmid⟩ := exists_part_of_mem h hsymbol
  obtain ⟨inside, hinside, hpart⟩ := List.mem_flatMap.mp hpart
  have hmem := parts_subset_of_mem_children (inner_subset_children function hinside)
    (mem_parts_self inside)
  have henc := (hlaid.of_mem_parts (parts_subset hf hmem)).encloses hpart
  refine not_inner_of_mem_emptied hlaid hf hfunction hm hinside ?_
  rw [hmid] at hid
  exact SymbolId.node.inj hid ▸ henc

/-- A scope that gets lost is recorded for a node that the function encloses. -/
theorem encloses_of_lost_refers (hlaid : Laid n) (hf : function ∈ n.parts) {x : NodeId}
    {scope : BoundScope} (h : Lost site n function.id (.refers x scope)) :
    function.id.Encloses x := by
  obtain ⟨inner, step, _, htaken, hparts, hfact⟩ := exists_step_of_lost hlaid hf h
  have hencloses {part m : Node} (hpart : part ∈ step.parts) (hm : m ∈ part.parts) :
      function.id.Encloses m.id := by
    obtain ⟨inside, hinside, hmem⟩ := List.mem_flatMap.mp (hparts part hpart)
    exact encloses_inner hlaid hf (List.mem_flatMap.mpr ⟨inside, hinside, parts_subset hmem hm⟩)
  cases step with
  | note part facts =>
      cases established_of_taken htaken hfact with
      | refers hm => exact hencloses (by simp) hm
  | visit target part =>
      obtain ⟨m, hm, rfl⟩ := exists_part_of_refers hfact
      exact hencloses (mem_parts_self part) hm

/-- A declaration that gets lost stood inside the function, if that has a frame of its own. -/
theorem encloses_frame_of_lost (hlaid : Laid n) (hf : function ∈ n.parts)
    (hframed : IsFramed site n function) {d : Declared ScopeId BoundSymbol}
    (h : Lost site n function.id (.declares d)) :
    ∃ y, d.frame = .node y ∧ function.id.Encloses y := by
  obtain ⟨inner, step, henters, htaken, hparts, hfact⟩ := exists_step_of_lost hlaid hf h
  obtain ⟨outer, hscope⟩ := hframed inner henters
  refine confined_of_taken (F := fun id => ∃ y, id = .node y ∧ function.id.Encloses y) htaken ?_
    (fun m hm => ⟨m.id, rfl, encloses_inner hlaid hf (hparts m hm)⟩) hfact
  rw [hscope]
  exact .mk ⟨_, rfl, .refl _⟩ nofun

/-! ## What is found -/

/-- The symbol that a fact declares a name to be in a frame. -/
def declaredAt? (frame : ScopeId) (space : Space) (name : Text) (fact : Fact) :
    Option BoundSymbol :=
  (fact.declared?.filter fun d => d.frame = frame && d.space = space && d.name = name).map
    (·.symbol)

/-- A name in a frame is what the last fact declares it to be. -/
theorem declared_in_eq_last (facts : List Fact) (frame : ScopeId) (space : Space) (name : Text) :
    Fact.declaredIn? facts frame space name = Fact.last? (declaredAt? frame space name) facts := by
  rw [Fact.declaredIn?, Declared.latest?, ← List.getLast?_filter, List.filter_filterMap,
    Fact.last?, List.getLast?_filterMap, List.getLast?_filterMap, List.map_findSome?]
  rfl

/-- Changing symbols changes what a name in a frame is. -/
theorem declared_in_map (f : BoundSymbol → BoundSymbol) (facts : List Fact) (frame : ScopeId)
    (space : Space) (name : Text) :
    Fact.declaredIn? (facts.map (Fact.mapSymbol f)) frame space name =
      (Fact.declaredIn? facts frame space name).map f := by
  rw [declared_in_eq_last, declared_in_eq_last, Fact.last?, Fact.last?, ← List.getLast?_map,
    List.filterMap_map, List.map_filterMap]
  congr 2
  funext fact
  cases fact with
  | declares d =>
      simp only [Function.comp_apply, Fact.mapSymbol, declaredAt?, Fact.declared?,
        Option.filter_some]
      split <;> rfl
  | _ => rfl

/-- A name is declared by a fact about the symbol. -/
theorem exists_declares_of_declared_at {frame : ScopeId} {space : Space} {name : Text}
    (h : declaredAt? frame space name fact = some symbol) :
    ∃ d : Declared ScopeId BoundSymbol, fact = .declares d ∧ d.frame = frame ∧
      d.symbol = symbol := by
  cases fact with
  | declares d =>
      simp only [declaredAt?, Fact.declared?, Option.map_eq_some_iff, Option.filter_eq_some_iff,
        Bool.and_eq_true, decide_eq_true_eq] at h
      obtain ⟨_, ⟨hd, ⟨hframe, _⟩, _⟩, hsymbol⟩ := h
      obtain rfl := Option.some.inj hd
      exact ⟨d, rfl, hframe, hsymbol⟩
  | _ => simp [declaredAt?, Fact.declared?] at h

/-- A name in a frame stays what it is if the function does not hide it. -/
theorem declared_in_emptied (hlaid : Laid n) (hf : function ∈ n.parts) {frame : ScopeId}
    {space : Space} {name : Text}
    (h : ∀ symbol, Fact.declaredIn? (ofNode site n) frame space name = some symbol →
      ¬ Hides function symbol) :
    Fact.declaredIn? (ofNode site (n.emptied function.id)) frame space name =
      (Fact.declaredIn? (ofNode site n) frame space name).map (Symbol.emptied function.id) := by
  rw [declared_in_eq_last] at h ⊢
  rw [declared_in_eq_last]
  refine (of_node_emptied function.id site n).last_eq (fun fact => ?_) ?_
  · cases fact with
    | declares d =>
        simp only [declaredAt?, Fact.declared?, Fact.emptied, Fact.mapSymbol, Option.filter_some]
        split <;> rfl
    | _ => rfl
  · intro fact _ hlost symbol hsymbol hlast
    obtain ⟨d, rfl, _, rfl⟩ := exists_declares_of_declared_at hsymbol
    exact h d.symbol hlast (hides_of_lost hlaid hf hlost rfl)

/-- The scope of a place outside the function stays. -/
theorem last_scope_emptied (hlaid : Laid n) (hf : function ∈ n.parts) {x : NodeId}
    (hx : ¬ function.id.Encloses x) :
    Fact.last? (Fact.scope? x) (ofNode site (n.emptied function.id)) =
      Fact.last? (Fact.scope? x) (ofNode site n) := by
  have htells (fact : Fact) :
      Fact.scope? x (fact.emptied function.id) = (Fact.scope? x fact).map fun scope => scope := by
    cases fact <;> simp [Fact.emptied, Fact.mapSymbol, Fact.scope?]
  rw [Fact.last?, (of_node_emptied function.id site n).last_eq htells, Option.map_id']
  · rfl
  · intro fact _ hlost scope hscope
    cases fact with
    | refers y recorded =>
        simp only [Fact.scope?, Option.ite_none_right_eq_some] at hscope
        exact absurd (hscope.1 ▸ encloses_of_lost_refers hlaid hf hlost) hx
    | _ => simp [Fact.scope?] at hscope

end Binding

end StaticLiteral
