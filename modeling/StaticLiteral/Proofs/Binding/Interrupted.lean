import StaticLiteral.Proofs.Binding.Exports

/-!
# Binding that is interrupted

A binder goes down a tree with the facts that it has noted so far and the table that it enters
exports in, which a namespace exchanges for its own and puts back afterwards. It may be interrupted
at any point, and then stays as it is. By then it has noted a beginning of the facts of the tree,
and all of them if it was not interrupted: `exists_noted`.
-/

namespace StaticLiteral

/-- What a binder holds between two actions. -/
structure Binder where
  /-- the facts of the file at hand -/
  noted : List Fact := []
  /-- where exported names are entered for the time being -/
  exports : Option Table := none
  /-- what is declared in the scope that all files share; it goes on from file to file -/
  shared : List (Declared ScopeId BoundSymbol) := []

namespace Binder

/-- What facts declare in the scope that all files share. -/
def declaredForAll (facts : List Fact) : List (Declared ScopeId BoundSymbol) :=
  (facts.filterMap Fact.declared?).filter (·.frame = .global)

/-- Notes facts. -/
def note (b : Binder) (facts : List Fact) : Binder :=
  { b with noted := b.noted ++ facts, shared := b.shared ++ declaredForAll facts }

/-- Enters exports in another table. -/
def redirect (b : Binder) (table : Option Table) : Binder := { b with exports := table }

/-- Noting nothing changes nothing. -/
@[simp]
theorem note_nil (b : Binder) : b.note [] = b := by
  simp [note, declaredForAll]

/-- Facts are noted one after the other. -/
@[simp]
theorem note_note (b : Binder) (facts more : List Fact) :
    (b.note facts).note more = b.note (facts ++ more) := by
  simp [note, declaredForAll]

/-- Directing exports where they are directed changes nothing. -/
@[simp]
theorem redirect_exports (b : Binder) : b.redirect b.exports = b := rfl

/-- Facts are noted wherever exports are directed. -/
@[simp]
theorem note_redirect (b : Binder) (facts : List Fact) (table : Option Table) :
    (b.redirect table).note facts = (b.note facts).redirect table := rfl

/-- Exports are directed where they were directed last. -/
@[simp]
theorem redirect_redirect (b : Binder) (table last : Option Table) :
    (b.redirect table).redirect last = b.redirect last := rfl

end Binder

namespace Binding

open Node

/-- What a binder does. -/
inductive Action where
  | note (facts : List Fact)
  /-- exports are entered in another table from here on -/
  | redirect (table : Option Table)
  | visit (site : Site) (part : Node)

/-- A step as an action. -/
def Step.action : Step → Action
  | note _ facts => .note facts
  | visit site part => .visit site part

/-- The actions of binding a node. The exports of a namespace or module are entered in a table of
its own; then those of the place around it go on. -/
def actions (site : Site) : Node → List Action
  | node@(.moduleDeclaration i name body exported) =>
    .note (site.declare [.value, .type] exported (.declaredBy .namespaceBlock node false) name)
      :: .redirect (exportTable (some node))
      :: (bodySteps (site.enterNamespace i.id name) body).map Step.action
      ++ [.redirect site.exports]
  | node => .note (ownFacts site node) :: (steps site node).map Step.action

/-- A binder takes actions, to the end or up to a point at which it is interrupted. What it visits
is bound with the table that it holds then, and any table may be left over by an interruption. -/
inductive Runs : Binder → List Action → Bool → Binder → Prop where
  | ended (b : Binder) : Runs b [] true b
  | interrupted (b : Binder) (todo : List Action) : Runs b todo false b
  | note {b b' : Binder} {facts : List Fact} {rest : List Action} {ended : Bool}
      (h : Runs (b.note facts) rest ended b') : Runs b (.note facts :: rest) ended b'
  | partlyNoted {b : Binder} {first facts : List Fact} {rest : List Action}
      (h : first <+: facts) : Runs b (.note facts :: rest) false (b.note first)
  | redirect {b b' : Binder} {table : Option Table} {rest : List Action} {ended : Bool}
      (h : Runs (b.redirect table) rest ended b') :
      Runs b (.redirect table :: rest) ended b'
  | visit {b b₁ b' : Binder} {site : Site} {part : Node} {rest : List Action} {ended : Bool}
      (h : Runs b (actions { site with exports := b.exports } part) true b₁)
      (hrest : Runs b₁ rest ended b') : Runs b (.visit site part :: rest) ended b'
  | partlyVisited {b b₁ : Binder} {site : Site} {part : Node} {rest : List Action}
      (left : Option Table)
      (h : Runs b (actions { site with exports := b.exports } part) false b₁) :
      Runs b (.visit site part :: rest) false (b₁.redirect left)

/-! ## What actions tell -/

/-- The facts of actions, with the table in which exports are entered at first. -/
def told : Option Table → List Action → List Fact
  | _, [] => []
  | exports, .note facts :: rest => facts ++ told exports rest
  | _, .redirect table :: rest => told table rest
  | exports, .visit site part :: rest =>
    ofNode { site with exports := exports } part ++ told exports rest

/-- The table in which exports are entered after some actions. -/
def tableAfter : Option Table → List Action → Option Table
  | exports, [] => exports
  | _, .redirect table :: rest => tableAfter table rest
  | exports, _ :: rest => tableAfter exports rest

variable {site : Site} {n part : Node} {b b' : Binder} {todo : List Action} {ended : Bool}

/-- Where the table stays, steps tell their facts, and leave the table as it is. -/
theorem told_steps {table : Option Table} (ss : List Step) (rest : List Action)
    (h : ∀ target part, .visit target part ∈ ss → target.exports = table) :
    told table (ss.map Step.action ++ rest) = ss.flatMap Step.facts ++ told table rest ∧
      tableAfter table (ss.map Step.action ++ rest) = tableAfter table rest := by
  induction ss with
  | nil => exact ⟨rfl, rfl⟩
  | cons s ss ih =>
      obtain ⟨htold, htable⟩ := ih fun target part hmem => h target part (.tail _ hmem)
      rw [List.map_cons, List.cons_append, List.flatMap_cons, List.append_assoc, ← htold]
      cases s with
      | note part facts => exact ⟨rfl, htable⟩
      | visit target part =>
          obtain rfl := h target part List.mem_cons_self
          exact ⟨rfl, htable⟩

/-- The actions of a node tell its facts, and leave the table as it was. -/
theorem told_actions (site : Site) (n : Node) :
    told site.exports (actions site n) = ofNode site n ∧
      tableAfter site.exports (actions site n) = site.exports := by
  by_cases hn : ∀ outer, n.moduleBelow outer = outer
  · have hsteps := told_steps (steps site n) [] fun target part hmem => (follows_steps hn hmem).2
    rw [List.append_nil] at hsteps
    have hactions : actions site n = .note (ownFacts site n) :: (steps site n).map Step.action := by
      cases n with
      | moduleDeclaration => exact absurd (hn none) (by simp [moduleBelow])
      | _ => rfl
    rw [hactions, told, hsteps.1, of_node_eq]
    exact ⟨by simp [told], hsteps.2⟩
  · cases n with
    | moduleDeclaration i name body exported =>
        have htable : ∀ target part, .visit target part ∈ bodySteps (site.enterNamespace i.id name)
            body → target.exports = exportTable (some (.moduleDeclaration i name body exported)) :=
          fun target part hmem => (within_of_module (List.mem_cons_of_mem _ hmem) none).2
        have hbody := told_steps _ [.redirect site.exports] htable
        rw [of_node_eq, show ownFacts site (.moduleDeclaration i name body exported) = [] from rfl,
          List.nil_append, steps, List.flatMap_cons, facts_note]
        refine ⟨congrArg _ (hbody.1.trans ?_), hbody.2⟩
        rw [told, told, List.append_nil]
    | _ => exact absurd (fun _ => rfl) hn

/-- **Interrupted binding.** Whatever happens, a binder has noted a beginning of what its actions
tell; if it is not interrupted, all of it, and then it holds the table that it should hold. -/
theorem exists_noted (h : Runs b todo ended b') :
    ∃ facts table, b' = (b.note facts).redirect table ∧ facts <+: told b.exports todo ∧
      (ended = true → facts = told b.exports todo ∧ table = tableAfter b.exports todo) := by
  induction h with
  | ended b => exact ⟨[], b.exports, by simp, List.prefix_refl _, fun _ => ⟨rfl, rfl⟩⟩
  | interrupted b todo => exact ⟨[], b.exports, by simp, List.nil_prefix, nofun⟩
  | @note b b' facts rest ended _ ih =>
      obtain ⟨more, table, rfl, hprefix, hended⟩ := ih
      refine ⟨facts ++ more, table, by rw [Binder.note_note],
        (List.prefix_append_right_inj facts).mpr hprefix, fun h => ?_⟩
      exact ⟨congrArg _ (hended h).1, (hended h).2⟩
  | @partlyNoted b first facts rest hfirst =>
      exact ⟨first, b.exports, rfl, hfirst.trans (List.prefix_append _ _), nofun⟩
  | @redirect b b' table rest ended _ ih => exact ih
  | @visit b b₁ b' site part rest ended _ _ ih ihrest =>
      obtain ⟨facts, table, rfl, _, hended⟩ := ih
      obtain ⟨more, last, rfl, hmore, hlast⟩ := ihrest
      -- What is visited tells the facts of the node, and the table is put back.
      have hpart := told_actions { site with exports := b.exports } part
      obtain ⟨rfl, rfl⟩ := hended rfl
      simp only [hpart.1, hpart.2] at hmore hlast ⊢
      refine ⟨ofNode { site with exports := b.exports } part ++ more, last, ?_, ?_, fun h => ?_⟩
      · rw [← Binder.note_note, Binder.note_redirect, Binder.redirect_redirect]
      · exact (List.prefix_append_right_inj _).mpr hmore
      · exact ⟨congrArg _ (hlast h).1, (hlast h).2⟩
  | @partlyVisited b b₁ site part rest left _ ih =>
      obtain ⟨facts, table, rfl, hfacts, _⟩ := ih
      have hpart := (told_actions { site with exports := b.exports } part).1
      exact ⟨facts, left, rfl, (hpart ▸ hfacts).trans (List.prefix_append _ _), nofun⟩

/-- Actions can be taken to the end if what they visit can. -/
theorem exists_run_of_visits (b : Binder) (todo : List Action)
    (h : ∀ site part, .visit site part ∈ todo → ∀ b target,
      ∃ b', Runs b (actions target part) true b') : ∃ b', Runs b todo true b' := by
  induction todo generalizing b with
  | nil => exact ⟨b, .ended b⟩
  | cons first rest ih =>
      have hrest := fun b => ih b fun site part hmem => h site part (.tail _ hmem)
      cases first with
      | note facts => exact (hrest _).imp fun _ => .note
      | redirect table => exact (hrest _).imp fun _ => .redirect
      | visit site part =>
          obtain ⟨b₁, hpart⟩ := h site part List.mem_cons_self b { site with exports := b.exports }
          exact (hrest b₁).imp fun _ => .visit hpart

/-- What is visited is visited by a step of the node. -/
theorem visit_mem_steps {target : Site} (h : .visit target part ∈ actions site n) :
    .visit target part ∈ steps site n := by
  have hstep : ∀ {ss : List Step}, Action.visit target part ∈ ss.map Step.action →
      .visit target part ∈ ss := by
    intro ss hmem
    obtain ⟨s, hs, heq⟩ := List.mem_map.mp hmem
    cases s with
    | note => cases heq
    | visit => cases heq; exact hs
  cases n with
  | moduleDeclaration i name body exported =>
      simp only [actions, List.mem_append, List.mem_cons, List.not_mem_nil, reduceCtorEq,
        false_or, or_false] at h
      exact List.mem_cons_of_mem _ (hstep h)
  | _ =>
      simp only [actions, List.mem_cons, reduceCtorEq, false_or] at h
      exact hstep h

/-- A binder can get to the end. -/
theorem exists_run (b : Binder) (site : Site) (n : Node) :
    ∃ b', Runs b (actions site n) true b' := by
  induction n using parts_induction generalizing b site with
  | step n ih =>
      refine exists_run_of_visits b _ fun target part hmem b other => ?_
      exact ih part (parts_subset_below (visit_mem_steps hmem) (mem_parts_self part)) b other

end Binding

end StaticLiteral
