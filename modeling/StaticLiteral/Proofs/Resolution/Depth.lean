import StaticLiteral.Proofs.Resolution.Steps
import StaticLiteral.Proofs.Typing.Depth

/-!
# Resolving at different depths

`of_node_deepened` says that a node which resolves without stopping resolves to the same at every
greater depth, also when the questions about types may go deeper.
-/

namespace StaticLiteral.Resolution

variable {ι τ : Type} {model other : SemanticModel ι τ} [DecidableEq ι]

/-- A request that throws throws at every greater depth. -/
theorem throws_unless_stopped : Lifting.unlessStopped.Throws := fun e _ => .inr (.error e)

/-- One model answers whatever another one does, if its questions about types may go deeper; what
types tell may differ where one model says that it is nothing and the other one finds out that it
is, if it may go some more levels. -/
structure Refines (other model : SemanticModel ι τ) (more : Nat) : Prop where
  symbolAt : other.symbolAt = model.symbolAt
  aliased : other.aliased = model.aliased
  guarded : other.guarded = model.guarded
  arguments : other.arguments = model.arguments
  characterNames : other.characterNames = model.characterNames
  typeOf : ∀ s, Deepened (model.typeOf s) (other.typeOf s)
  view : ∀ t, other.view t = model.view t ∨
    model.view t = .other ∧ ∀ depth ≥ more, ∀ busy, ofType other depth busy t = .ok none

/-- Everything resolves to the same with a model that answers as much, at a depth that is greater by
as many levels as it needs more. -/
theorem Refines.deepened {more : Nat} (h : Refines other model more) (shallow : Nat) :
    ∀ deep, shallow + more ≤ deep → ∀ busy,
      Related .unlessStopped (.all ι τ) (answers model shallow busy) (answers other deep busy) := by
  induction shallow with
  | zero => exact fun _ _ _ => ⟨fun _ => .inl rfl, fun _ => .inl rfl, fun _ => .inl rfl⟩
  | succ shallow ih =>
      intro deep hle busy
      obtain ⟨deep, rfl⟩ : ∃ e, deep = e + 1 := ⟨deep - 1, by omega⟩
      have hbelow := ih deep (by omega)
      rw [answers_succ, answers_succ]
      refine ⟨fun {e} _ => ?_, fun {s} _ => ?_, fun {t} _ => ?_⟩
      · rw [Answers.of_node_congr _ _ h.symbolAt h.characterNames]
        exact (hbelow busy).of_node throws_unless_stopped (fun _ _ => trivial)
          (fun failure _ => .inr (.error failure)) fun _ _ _ => trivial
      · simp only [followed, h.aliased, h.guarded]
        refine Lifting.unlessStopped.bind (deepened_iff.mp (.refl _)) fun target _ heq => ?_
        subst heq
        split
        · exact Lifting.unlessStopped.pure rfl
        · refine (hbelow _).of_value (fun _ _ => trivial) ?_
          refine Lifting.unlessStopped.bind (deepened_iff.mp (h.typeOf target)) fun t _ heq => ?_
          exact heq ▸ (hbelow _).type trivial
      · rcases h.view t with hview | ⟨hview, hother⟩
        · have hstep : Lifting.unlessStopped.rel Eq ((answers model shallow busy).ofType model t)
              ((answers other deep busy).ofType model t) :=
            (hbelow busy).of_type (fun _ _ _ => trivial) fun _ _ => trivial
          simpa only [Answers.ofType, hview, h.arguments] using hstep
        · have hother : (answers other deep busy).ofType other t = .ok none :=
            hother (deep + 1) (by omega) busy
          have hnone : (answers model shallow busy).ofType model t = .ok none := by
            simp only [Answers.ofType, hview]
            rfl
          show Lifting.unlessStopped.rel Eq ((answers model shallow busy).ofType model t)
            ((answers other deep busy).ofType other t)
          rw [hnone, hother]
          exact Lifting.unlessStopped.pure rfl

/-- Everything resolves to the same at a greater depth, also when the questions about types may go
deeper. -/
theorem deepened_of_le (model : SemanticModel ι τ) (typeOf : Symbol ι → Except Failure τ)
    (htype : ∀ s, Deepened (model.typeOf s) (typeOf s)) {shallow deep : Nat} (hle : shallow ≤ deep)
    (busy : List ι) :
    Related .unlessStopped (.all ι τ) (answers model shallow busy)
      (answers { model with typeOf := typeOf } deep busy) := by
  have h : Refines { model with typeOf := typeOf } model 0 :=
    ⟨rfl, rfl, rfl, rfl, rfl, htype, fun t => .inl rfl⟩
  exact h.deepened shallow deep hle busy

/-- A node resolves to the same at a greater depth. -/
theorem of_node_deepened {shallow deep : Nat} (hle : shallow ≤ deep) (busy : List ι) (n : Node) :
    Deepened (ofNode model shallow busy n) (ofNode model deep busy n) :=
  deepened_iff.mpr ((deepened_of_le model model.typeOf (fun _ => .refl _) hle busy).node trivial)

/-- A node of a program resolves to the same at a greater depth, also when the questions about
types may go deeper. -/
theorem of_node_within_deepened (p : Program) (guarded : Bool) {typing types shallow deep : Nat}
    (htyping : typing ≤ types) (hle : shallow ≤ deep) (busy : List SymbolId) (n : Node) :
    Deepened (ofNode (p.modelWithin typing guarded) shallow busy n)
      (ofNode (p.modelWithin types guarded) deep busy n) :=
  deepened_iff.mpr <| (deepened_of_le (p.modelWithin typing guarded)
    (p.modelWithin types guarded).typeOf (fun s => Typing.of_symbol_deepened htyping [] s) hle
      busy).node trivial

end StaticLiteral.Resolution
