import StaticLiteral.Proofs.Resolution.Depth
import StaticLiteral.Proofs.Typing.Extent
import StaticLiteral.Proofs.Typing.Termination

/-!
# Requests terminate

A request goes down a tree or a type, and from there on only through a symbol that is not in flight
yet. `resolvingDepth` turns this into a bound on its depth. `resolution_terminates` says that the
answer no longer depends on the depth from there on, for requests and for every question that they
ask of a program, however its symbols, aliases and files refer to each other.
-/

namespace StaticLiteral

namespace Program

/-- A depth at which every symbol of the program resolves while the symbols in `busy` are in
flight: for each of the other symbols, the levels of a declaration and of a type. -/
def resolvingDepth (p : Program) (busy : List SymbolId) : Nat :=
  openAmong p.symbols busy * (p.declarationHeight + 2 * p.typingDepth [] + 2) + 1

variable {p : Program}

/-- Entering a symbol leaves room for going down its declaration or its type. -/
theorem resolving_depth_cons {busy : List SymbolId} {s : BoundSymbol} (hs : s ∈ p.symbols)
    (hbusy : s.id ∉ busy) :
    p.resolvingDepth (s.id :: busy) + s.height + 2 * p.typingDepth [] + 2 ≤
      p.resolvingDepth busy := by
  have hopen := open_among_cons_lt hs hbusy
  have hheight := height_le_declaration_height hs
  have hmul := Nat.mul_le_mul_right (p.declarationHeight + 2 * p.typingDepth [] + 2) hopen
  rw [Nat.succ_mul] at hmul
  unfold resolvingDepth
  omega

end Program

namespace Resolution

/-- The answer is not that the depth was reached. -/
abbrev Reached {α : Type} : Except Failure α → Prop := Ends (fun _ => True) (· ≠ .tooDeep)

/-- An answer that was reached is not the one that the depth was. -/
theorem ne_of_reached {α : Type} {answer : Except Failure α} (h : Reached answer) :
    answer ≠ .error .tooDeep := by
  rintro rfl
  exact h rfl

/-- Both answers are the same failure, and not that the depth was reached, or values in the
relation. -/
def reaching : Lifting (Except Failure) (Except Failure) where
  rel R a b := Reached a ∧ Parallel R a b
  pure h := ⟨trivial, .ok h⟩
  bind := by
    rintro _ _ _ _ _ _ a b f g ⟨hreached, hab⟩ hfg
    cases a <;> cases b
    case error.error => exact ⟨hreached, hab⟩
    case ok.ok => exact hfg _ _ hab
    all_goals exact hab.elim

/-- An answer that was reached is one beside itself. -/
theorem reaching_self {α : Type} {answer : Except Failure α} (h : Reached answer) :
    reaching.rel Eq answer answer := by
  refine ⟨h, ?_⟩
  cases answer with
  | ok x => exact .ok rfl
  | error e => exact .error e

/-- Other failures than that of going too deep are thrown alike. -/
theorem throws_reaching : reaching.Throws := fun e he => ⟨he, .error e⟩

/-- The requests whose answers are reached. -/
def Domain.reached {ι τ : Type} (a : Answers ι τ (Except Failure)) : Domain ι τ where
  node n := Reached (a.node n)
  symbol s := Reached (a.symbol s)
  type t := Reached (a.type t)

/-- Answers that are reached stay so beside themselves. -/
theorem related_reached {ι τ : Type} (a : Answers ι τ (Except Failure)) :
    Related reaching (.reached a) a a :=
  ⟨reaching_self, reaching_self, reaching_self⟩

variable {p : Program}

/-- Only generic types are asked for their arguments. -/
theorem eq_reference_of_view {t : BoundTy} (h : Typing.view t = .reference) :
    ∃ target arguments readonly, t = .reference target arguments readonly := by
  unfold Typing.view at h
  split at h <;> simp_all

/-- Only object types lead to a symbol, and to their own. -/
theorem eq_object_of_view {t : BoundTy} {s : BoundSymbol} (h : Typing.view t = .object s) :
    ∃ shape, t = .object shape (some s) := by
  unfold Typing.view at h
  split at h <;> simp_all

/-- A symbol of the program has a type, and one of bounded extent. -/
theorem type_of_symbol {typing : Nat} {s : BoundSymbol} (htyping : p.typingDepth [] ≤ typing)
    (hs : s ∈ p.symbols) :
    ∃ t, (p.modelWithin typing).typeOf s = .ok t ∧
      t.Within p.symbols (2 * p.typingDepth []) := by
  obtain ⟨t, ht⟩ := Typing.of_program_symbol_terminates hs (Nat.le_refl (p.typingDepth []))
  exact ⟨t, (Typing.of_symbol_deepened htyping [] s).eq_ok ht, Typing.of_symbol_within hs ht⟩

/-- A step behind a symbol of the program ends at a symbol of the program. -/
theorem followed_symbol (typing : Nat) {s : BoundSymbol} (hs : s ∈ p.symbols) :
    ∃ target ∈ p.symbols, ∀ guarded, followed (p.modelWithin typing guarded) s = .ok target := by
  unfold followed
  split
  · exact ⟨p.aliased s, Program.aliased_mem_symbols hs, fun _ => rfl⟩
  · exact ⟨s, hs, fun _ => rfl⟩

/-- The requests that there is room for at a depth. -/
def Domain.within (p : Program) (depth : Nat) (busy : List SymbolId) :
    Domain SymbolId BoundTy where
  node n := p.resolvingDepth busy + n.height ≤ depth
  symbol s := s ∈ p.symbols ∧ p.resolvingDepth busy ≤ depth
  type t := ∃ height, t.Within p.symbols height ∧ p.resolvingDepth busy + height + 1 ≤ depth

/-- Within its depth every request reaches an answer. -/
theorem reached_of_le {typing : Nat} (htyping : p.typingDepth [] ≤ typing) (depth : Nat) :
    ∀ busy, Related reaching (.within p depth busy) (answers (p.modelWithin typing) depth busy)
      (answers (p.modelWithin typing) depth busy) := by
  induction depth with
  | zero =>
      intro busy
      have hpos : 0 < p.resolvingDepth busy := Nat.succ_pos _
      refine ⟨fun h => ?_, fun h => ?_, fun ⟨_, _, h⟩ => ?_⟩
      all_goals simp only [Domain.within] at *; omega
  | succ depth ih =>
      intro busy
      rw [answers_succ]
      refine ⟨fun {e} h => ?_, fun {s} ⟨hs, h⟩ => ?_, fun {t} ⟨height, ht, h⟩ => ?_⟩
      · refine (ih busy).of_node throws_reaching (fun c hc => ?_) (fun _ hstop => nomatch hstop)
          fun s _ hat => ⟨Program.symbol_at_mem_symbols (Except.ok.inj hat), ?_⟩
        all_goals simp only [Domain.within] at *
        · have hheight := Node.height_lt_of_mem_value_parts hc
          omega
        · have hheight := e.height_pos
          omega
      · obtain ⟨target, htarget, hfollowed⟩ := followed_symbol typing hs
        simp only [hfollowed true]
        refine reaching_self (.ok_bind ?_)
        split
        case isTrue => trivial
        case isFalse hbusy =>
          -- A symbol newly in flight sets free the room for its declaration and for its type.
          have hnew : target.id ∉ busy := fun hmem => hbusy ⟨rfl, hmem⟩
          have hroom := Program.resolving_depth_cons htarget hnew
          refine ((ih _).of_value (g := (p.modelWithin typing).typeOf) (fun d hd => ?_) ?_).1
          · simp only [Symbol.height, hd, Node.heightOfOption] at hroom
            simp only [Domain.within]
            omega
          · obtain ⟨t, ht, hwithin⟩ := type_of_symbol htyping htarget
            rw [ht]
            exact (ih _).type ⟨_, hwithin, by omega⟩
      · refine (ih busy).of_type (fun hview u hu => ?_) fun symbol hview => ?_
        · obtain ⟨target, arguments, readonly, rfl⟩ := eq_reference_of_view hview
          cases ht with
          | plain hplain => simp [Ty.isPlain] at hplain
          | reference harguments => exact ⟨_, harguments u hu, Nat.le_of_succ_le_succ h⟩
        · obtain ⟨shape, rfl⟩ := eq_object_of_view hview
          cases ht with
          | plain hplain => simp [Ty.isPlain] at hplain
          | object hown => exact ⟨hown symbol rfl, by omega⟩

/-- Every request, every question about types that it asks, every chain of aliases and every
search for an export terminates: from a depth on that is bounded by the symbols not in flight and
by the levels of the tree, the answer is the same and is not that the depth was reached. -/
theorem resolution_terminates (p : Program) :
    (∀ busy node, ∃ answer, answer ≠ .error .tooDeep ∧
      ∀ typing ≥ p.typingDepth [], ∀ depth ≥ p.resolvingDepth busy + node.height,
        ofNode (p.modelWithin typing) depth busy node = answer) ∧
    (∀ busy (s : BoundSymbol), ∃ type,
      ∀ depth ≥ p.typingDepth busy + 2 * s.height + 4,
        Typing.ofSymbol p true depth busy s = .ok type) ∧
    (∀ busy node, ∃ type, ∀ depth ≥ p.typingDepth busy + 2 * node.height + 1,
      Typing.ofExpression p true depth busy false node = .ok type) ∧
    (∀ busy node, ∃ type, ∀ depth ≥ p.typingDepth busy + 2 * node.height + 1,
      Typing.ofTypeNode p true depth busy node = .ok type) ∧
    (∀ symbol, ∀ steps ≥ p.factCount + 2,
      p.aliasEndFrom steps [] symbol = p.aliasEnd symbol) ∧
    (∀ path, ∀ depth ≥ p.files.length + 1,
      p.visitFrom depth [] path = p.exportSources path) := by
  refine ⟨fun busy node => ?_, fun busy s => ?_, fun busy node => ?_, fun busy node => ?_,
    fun symbol steps h => Program.alias_end_from_eq h symbol,
    fun path depth h => Program.visit_from_eq h path⟩
  · have hreached := ne_of_reached
      ((reached_of_le (Nat.le_refl (p.typingDepth [])) _ busy).node (e := node) (Nat.le_refl _)).1
    refine ⟨_, hreached, fun typing htyping depth hdepth => ?_⟩
    exact (of_node_within_deepened p true htyping hdepth busy node).eq hreached
  · obtain ⟨type, htype⟩ :=
      Typing.of_symbol_terminates (Nat.le_refl (p.typingDepth busy + 2 * s.height + 4))
    exact ⟨type, fun depth h => (Typing.of_symbol_deepened h busy s).eq_ok htype⟩
  · obtain ⟨type, htype⟩ :=
      Typing.of_expression_terminates (Nat.le_refl (p.typingDepth busy + 2 * node.height + 1)) false
    exact ⟨type, fun depth h => (Typing.of_expression_deepened h busy false node).eq_ok htype⟩
  · obtain ⟨type, htype⟩ :=
      Typing.of_type_node_terminates (Nat.le_refl (p.typingDepth busy + 2 * node.height + 1))
    exact ⟨type, fun depth h => (Typing.of_type_node_deepened h busy node).eq_ok htype⟩

end Resolution

end StaticLiteral
