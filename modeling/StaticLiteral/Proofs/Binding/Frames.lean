import StaticLiteral.Proofs.Binding.Coherence

/-!
# The frames of facts

`Established` says what a fact about a node can be. The scopes that binding records consist of the
frames around the whole tree and of frames of nodes that enclose the place they are recorded for
(`frames_of_refers`). What is bound inside of a frame that is no block is declared inside of that
frame (`confined_of_mem`).
-/

namespace StaticLiteral.Binding

open Node

variable {site target : Site} {n part : Node} {x : NodeId} {scope : BoundScope}
  {d : Declared ScopeId BoundSymbol} {fact : Fact} {facts : List Fact}

/-- What a fact can be that binding establishes about a node at a site. -/
inductive Established (site : Site) (part : Node) : Fact → Prop where
  | declares {d : Declared ScopeId BoundSymbol} {frame : Frame ScopeId}
      (hframe : frame ∈ site.scope.take 1) (h : d.frame = frame.id) :
      Established site part (.declares d)
  | enters (table : Table) (name : Text) (symbol : BoundSymbol) :
      Established site part (.enters table name symbol)
  | reexports (specifier : Text) : Established site part (.reexports specifier)
  | names (x : NodeId) (symbol : BoundSymbol) : Established site part (.names x symbol)
  | refers {m : Node} (hm : m ∈ part.parts) : Established site part (.refers m.id site.scope)
  | isLiteral (x : NodeId) (symbol : BoundSymbol) : Established site part (.isLiteral x symbol)

/-- Exports are entered in a table. -/
theorem established_exporting {name : Text} {symbol : BoundSymbol}
    (h : fact ∈ site.exporting name symbol) : Established site part fact := by
  obtain ⟨table, _, rfl⟩ := List.mem_map.mp h
  exact .enters table name symbol

/-- A step about a name establishes facts about it where the step is taken. -/
theorem established_of_taken (h : Taken target (.note part facts)) (hmem : fact ∈ facts) :
    Established target part fact := by
  cases h with
  | declare spaces exported symbolOf hid =>
      cases part with
      | identifier i text =>
          simp only [Site.declare, List.mem_append, List.mem_flatMap, List.mem_map,
            List.mem_cons] at hmem
          rcases hmem with ⟨frame, hframe, space, _, rfl⟩ | rfl | hmem
          · exact .declares hframe rfl
          · exact .names _ _
          · split at hmem
            · exact established_exporting hmem
            · simp at hmem
      | _ => simp [Site.declare] at hmem
  | member h =>
      cases part with
      | identifier i text =>
          obtain rfl := Option.some.inj h
          rcases List.mem_cons.mp hmem with rfl | hmem
          · exact .enters _ _ _
          · obtain rfl := List.mem_singleton.mp hmem
            exact .names _ _
      | stringLiteral i text | numericLiteral i text =>
          obtain rfl := Option.some.inj h
          obtain rfl := List.mem_singleton.mp hmem
          exact .enters _ _ _
      | _ => simp [memberFacts] at h
  | shorthand i name =>
      obtain rfl := List.mem_singleton.mp hmem
      refine .refers (parts_subset_of_mem_children ?_ (mem_parts_self name))
      simp [children_eq, fields, Field.contents]
  | exporting _ name hid => exact established_exporting hmem

/-- A node establishes facts about itself where it is bound. -/
theorem established_of_own (hmem : fact ∈ ownFacts site n) : Established site n fact := by
  cases n with
  | identifier i text =>
      obtain rfl := List.mem_singleton.mp hmem
      exact .refers (mem_parts_self _)
  | typeReference i name arguments =>
      obtain rfl := List.mem_singleton.mp hmem
      refine .refers (parts_subset_of_mem_children ?_ (mem_parts_self name))
      simp [children_eq, fields, Field.contents]
  | exportDeclaration i specifiers module isStar =>
      cases isStar with
      | false => simp [ownFacts] at hmem
      | true =>
          cases module with
          | none => simp [ownFacts, starFacts] at hmem
          | some module =>
              simp only [ownFacts, starFacts] at hmem
              split at hmem
              · obtain rfl := List.mem_singleton.mp hmem
                exact .reexports module
              · simp at hmem
  | exportAssignment i e => exact established_exporting hmem
  | objectLiteral i properties | typeLiteral i members =>
      obtain rfl := List.mem_singleton.mp hmem
      exact .isLiteral _ _
  | _ => simp [ownFacts] at hmem

/-! ## Scopes that are recorded -/

/-- A scope is recorded for one of the parts. -/
theorem exists_part_of_refers (h : .refers x scope ∈ ofNode site n) : ∃ m ∈ n.parts, m.id = x := by
  refine fact_induction (fun site n h => ?_) (fun site n _ part _ hstep _ htaken h => ?_)
    (fun site n _ part hstep _ _ ih => ?_) site n h
  · cases established_of_own h with
    | refers hm => exact ⟨_, hm, rfl⟩
  · cases established_of_taken htaken h with
    | refers hm => exact ⟨_, parts_subset (parts_subset_parts hstep (by simp)) hm, rfl⟩
  · obtain ⟨m, hm, hid⟩ := ih
    exact ⟨m, parts_subset_parts hstep hm, hid⟩

/-- The frame is one around the whole tree, or that of a node that encloses the place. -/
def Surrounds (site : Site) (x : NodeId) (frame : Frame ScopeId) : Prop :=
  frame ∈ site.scope ∨ ∃ y, frame.id = .node y ∧ y.Encloses x

/-- The chain from some frame on is an end of the chain. -/
theorem function_chain_suffix (scope : BoundScope) : scope.functionChain <:+ scope := by
  induction scope using ScopeChain.functionChain.induct with
  | case1 inner outer rest hblock ih =>
      rw [ScopeChain.functionChain, if_pos hblock]
      exact ih.trans (List.suffix_cons _ _)
  | case2 inner outer rest hblock =>
      rewrite [ScopeChain.functionChain, if_neg hblock]
      exact List.suffix_refl _
  | case3 scope h =>
      cases scope with
      | nil => exact List.suffix_refl _
      | cons inner rest =>
          cases rest with
          | nil => exact List.suffix_refl _
          | cons outer rest => exact absurd rfl (h inner outer rest)

/-- The chain from some frame on is part of the chain. -/
theorem function_chain_subset (scope : BoundScope) : scope.functionChain ⊆ scope :=
  (function_chain_suffix scope).subset

/-- Near a node, the frames around a place are those that surround it. -/
theorem surrounds_of_near {step : Step} (hlaid : Laid n) (h : Near site n step target)
    (hstep : step ∈ steps site n) (hpart : part ∈ step.parts) (henc : part.id.Encloses x) :
    ∀ frame ∈ target.scope, Surrounds site x frame := by
  have hn := parts_subset_parts hstep hpart
  cases h with
  | same h => exact fun frame hframe => .inl (h ▸ hframe)
  | hoisted h => exact fun frame hframe => .inl (function_chain_subset _ (h ▸ hframe))
  | own kind h =>
      rw [h]
      refine List.forall_mem_cons.mpr ⟨.inr ⟨n.id, rfl, ?_⟩, fun frame hframe => .inl hframe⟩
      exact (hlaid.encloses hn).trans henc
  | method method hmethod hparts h =>
      have hlaid' := hlaid.of_mem_parts (parts_subset_of_mem_children hmethod (mem_parts_self _))
      rw [h]
      refine List.forall_mem_cons.mpr ⟨.inr ⟨method.id, rfl, ?_⟩, fun frame hframe => .inl hframe⟩
      exact (hlaid'.encloses (hparts part hpart)).trans henc

/-- The frames of a recorded scope surround the place that it is recorded for. -/
theorem frames_of_refers (hlaid : Laid n) (h : .refers x scope ∈ ofNode site n) :
    ∀ frame ∈ scope, Surrounds site x frame := by
  revert hlaid
  refine fact_induction (fun site n h => ?_) (fun site n _ part _ hstep hnear htaken h hlaid => ?_)
    (fun site n _ part hstep hnear h ih hlaid => ?_) site n h
  · cases established_of_own h with
    | refers => exact fun _ frame hframe => .inl hframe
  · cases established_of_taken htaken h with
    | refers hm =>
        have hpart : part ∈ n.parts := parts_subset_parts hstep (by simp)
        have henc := (hlaid.of_mem_parts hpart).encloses hm
        exact surrounds_of_near hlaid hnear hstep (by simp) henc
  · obtain ⟨m, hm, rfl⟩ := exists_part_of_refers h
    have hpart := parts_subset_parts hstep (mem_parts_self part)
    have henc := (hlaid.of_mem_parts hpart).encloses hm
    intro frame hframe
    rcases ih (hlaid.of_mem_parts hpart) frame hframe with hframe | hframe
    · exact surrounds_of_near hlaid hnear hstep (mem_parts_self part) henc frame hframe
    · exact .inr hframe

/-! ## Frames that hold declarations -/

variable {F : ScopeId → Prop}

/-- The frames up to the nearest that is no block are among those of `F`. -/
inductive Held (F : ScopeId → Prop) : BoundScope → Prop where
  | mk {id : ScopeId} {kind : ScopeKind} {rest : BoundScope} (h : F id)
      (hblock : kind = .block → Held F rest) : Held F (⟨id, kind⟩ :: rest)

/-- What is hoisted is still held. -/
theorem held_function_chain (h : Held F scope) : Held F scope.functionChain := by
  induction h with
  | @mk id kind rest h hblock ih =>
      cases rest with
      | nil => exact .mk h hblock
      | cons outer rest =>
          rw [ScopeChain.functionChain]
          split
          · next hkind => exact ih hkind
          · exact .mk h hblock

/-- What is near a node is held if the node is and the frames of its parts are among those of
`F`. -/
theorem held_of_near {step : Step} (h : Near site n step target) (hheld : Held F site.scope)
    (hparts : ∀ m ∈ n.parts, F (.node m.id)) : Held F target.scope := by
  cases h with
  | same h => exact h ▸ hheld
  | hoisted h => exact h ▸ held_function_chain hheld
  | own kind h => exact h ▸ .mk (hparts n (mem_parts_self n)) fun _ => hheld
  | method method hmethod _ h =>
      have hmem := parts_subset_of_mem_children hmethod (mem_parts_self method)
      exact h ▸ .mk (hparts method hmem) fun _ => hheld

/-- What is declared about a node stays in the frames that hold the site. -/
theorem confined_of_established (h : Established site part (.declares d))
    (hheld : Held F site.scope) : F d.frame := by
  cases h with
  | declares hframe hid =>
      generalize site.scope = scope at hheld hframe
      obtain ⟨hinside, _⟩ := hheld
      obtain rfl := List.mem_singleton.mp hframe
      exact hid ▸ hinside

/-- What is bound in a tree and held there is declared in frames among those of `F`. -/
theorem confined_of_mem (hheld : Held F site.scope) (hparts : ∀ m ∈ n.parts, F (.node m.id))
    (hmem : .declares d ∈ ofNode site n) : F d.frame := by
  revert hheld hparts
  refine fact_induction (fun site n h hheld _ => ?_)
    (fun site n _ part _ _ hnear htaken h hheld hparts => ?_)
    (fun site n _ part hstep hnear _ ih hheld hparts => ?_) site n hmem
  · exact confined_of_established (established_of_own h) hheld
  · exact confined_of_established (established_of_taken htaken h) (held_of_near hnear hheld hparts)
  · exact ih (held_of_near hnear hheld hparts) fun m hm => hparts m (parts_subset_parts hstep hm)

/-- What a step declares stays in frames among those of `F` if it is held there. -/
theorem confined_of_taken {step : Step} (h : Taken target step) (hheld : Held F target.scope)
    (hparts : ∀ m ∈ step.parts, F (.node m.id)) (hmem : .declares d ∈ step.facts) :
    F d.frame := by
  cases step with
  | note part facts => exact confined_of_established (established_of_taken h hmem) hheld
  | visit _ part =>
      cases h
      exact confined_of_mem hheld hparts hmem

end StaticLiteral.Binding
