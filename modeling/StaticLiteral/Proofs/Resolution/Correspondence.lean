import StaticLiteral.Program.Report
import StaticLiteral.Proofs.Typing.Correspondence

/-!
# Resolving in programs that correspond

Programs that correspond resolve corresponding nodes to the same values, with the same warnings:
`resolve_eq`.
-/

namespace StaticLiteral.Resolution

variable {N : Node → Node → Prop} {n m : Node}

/-- Related properties leave the same entries if their parts resolve to the same. -/
theorem object_entries_eq {f g : Node → Answer} (hsimilar : ∀ {n m}, N n m → Node.Similar N n m)
    (h : ∀ {n m}, N n m → g m = f n) {properties others : List Node}
    (hall : List.Forall₂ N properties others) (entries : List (Text × Option Value)) :
    objectEntries g entries others = objectEntries f entries properties := by
  induction hall generalizing entries with
  | nil => rfl
  | @cons n m rest more hnm _ ih =>
      obtain ⟨change, rfl, hoperands⟩ := hsimilar hnm
      cases n with
      | propertyAssignment i name init =>
          have hname := h (hoperands name (by simp [Node.operands]))
          have hinit := h (hoperands init (by simp [Node.operands]))
          simp only [Node.mapChildren, objectEntries, hname, hinit, ih]
      | _ => exact ih entries

/-- Related spans leave the same text if their parts resolve to the same. -/
theorem template_text_eq {f g : Node → Answer} (hsimilar : ∀ {n m}, N n m → Node.Similar N n m)
    (h : ∀ {n m}, N n m → g m = f n) {spans others : List Node}
    (hall : List.Forall₂ N spans others) (text : Text) :
    templateText g text others = templateText f text spans := by
  induction hall generalizing text with
  | nil => rfl
  | @cons n m rest more hnm _ ih =>
      obtain ⟨change, rfl, hoperands⟩ := hsimilar hnm
      cases n with
      | templateSpan i expression literal =>
          have hexpression := h (hoperands expression (by simp [Node.operands]))
          simp only [Node.mapChildren, templateText, hexpression, ih]
      | _ => exact ih text

section

variable {p q : Program} {R : BoundSymbol → BoundSymbol → Prop} {s t : BoundSymbol} {u v : BoundTy}
  {typing depth : Nat} {guarded : Bool}

/-- At some depth, everything that corresponds is resolved to the same. -/
structure Agrees (p q : Program) (N : Node → Node → Prop) (R : BoundSymbol → BoundSymbol → Prop)
    (typing : Nat) (guarded : Bool) (depth : Nat) : Prop where
  node : ∀ {n m}, N n m → ∀ busy,
    ofNode (q.modelWithin typing guarded) depth busy m =
      ofNode (p.modelWithin typing guarded) depth busy n
  symbol : ∀ {s t}, R s t → ∀ busy,
    ofSymbol (q.modelWithin typing guarded) depth busy t =
      ofSymbol (p.modelWithin typing guarded) depth busy s
  type : ∀ {u v}, Ty.Related R u v → ∀ busy,
    ofType (q.modelWithin typing guarded) depth busy v =
      ofType (p.modelWithin typing guarded) depth busy u

namespace Agrees

variable (ih : Agrees p q N R typing guarded depth) (busy : List SymbolId)
include ih

/-- Related types tell the same one level up. -/
theorem type_step (huv : Ty.Related R u v) :
    ofType (q.modelWithin typing guarded) (depth + 1) busy v =
      ofType (p.modelWithin typing guarded) (depth + 1) busy u := by
  cases huv with
  | plain huv =>
      cases u with
      | literal value => cases value <;> rfl
      | object _ _ | reference _ _ _ | union _ => simp [Ty.isPlain] at huv
      | _ => rfl
  | object shape hst =>
      cases hst with
      | none => rfl
      | some hst => exact ih.symbol hst busy
  | reference target readonly hall =>
      have heq := map_m_eq (hall.imp fun u v huv => ih.type huv busy)
      exact congrArg (fun answer : Except Failure (List (Option Value)) =>
        answer >>= fun values => pure (some (Value.array values))) heq
  | union hall => rfl

variable (h : p.Matches q N R)
include h

/-- Corresponding nodes resolve to the same one level up. -/
theorem node_step (hnm : N n m) :
    ofNode (q.modelWithin typing guarded) (depth + 1) busy m =
      ofNode (p.modelWithin typing guarded) (depth + 1) busy n := by
  have hat := rel_cases (h.symbolAt hnm)
  obtain ⟨f, rfl, hf⟩ := h.similar hnm
  cases n with
  | prefixUnaryExpression i operator e =>
      simp only [Node.mapChildren, ofNode, ih.node (hf e (by simp [Node.operands]))]
  | parenthesizedExpression i e | computedPropertyName i e | asExpression i e type
  | typeAssertion i type e => exact ih.node (hf e (by simp [Node.operands])) _
  | arrayLiteral i elements =>
      have hall : List.Forall₂ N elements (elements.map f) := Node.Similar.forall_map hf
      have hvalues := map_m_eq (hall.imp fun n m hnm => ih.node hnm busy)
      simp only [Node.mapChildren, ofNode, hvalues]
  | variableDeclaration i name type init =>
      cases init with
      | none => rfl
      | some init => exact ih.node (hf init (by simp [Node.operands])) _
  | objectLiteral i properties =>
      have hall : List.Forall₂ N properties (properties.map f) := Node.Similar.forall_map hf
      have hentries := object_entries_eq h.similar (fun hnm => ih.node hnm busy) hall []
      simp only [Node.mapChildren, ofNode, hentries]
  | templateExpression i head spans =>
      have hall : List.Forall₂ N spans (spans.map f) := Node.Similar.forall_map hf
      have htext := template_text_eq h.similar (fun hnm => ih.node hnm busy) hall head
      simp only [Node.mapChildren, ofNode, htext]
  | identifier i text =>
      simp only [Node.mapChildren] at hat
      simp only [Node.mapChildren, ofNode, Program.modelWithin]
      rcases hat with ⟨hs, ht⟩ | ⟨s, t, hs, ht, hst⟩
      · rw [hs, ht]
        rfl
      · rw [hs, ht]
        exact ih.symbol hst busy
  | regularExpressionLiteral i text =>
      exact congrArg (regularExpression · text) h.characterNames
  | _ => rfl

/-- Corresponding symbols resolve to the same one level up. -/
theorem symbol_step (hst : R s t) :
    ofSymbol (q.modelWithin typing guarded) (depth + 1) busy t =
      ofSymbol (p.modelWithin typing guarded) (depth + 1) busy s := by
  -- The symbols that are followed to correspond, too.
  obtain ⟨next, other, hnext, hother, hrel⟩ : ∃ next other,
      followed (p.modelWithin typing guarded) s = .ok next ∧
      followed (q.modelWithin typing guarded) t = .ok other ∧ R next other := by
    unfold followed
    rw [h.kind hst]
    split
    · exact ⟨_, _, rfl, rfl, h.aliased hst⟩
    · exact ⟨s, t, rfl, rfl, hst⟩
  have htype := (Typing.parallels h guarded typing).symbol hrel []
  have hvalue : ∀ busy, symbolValue (q.modelWithin typing guarded)
        (ofNode (q.modelWithin typing guarded) depth busy)
        (ofType (q.modelWithin typing guarded) depth busy) other =
      symbolValue (p.modelWithin typing guarded)
        (ofNode (p.modelWithin typing guarded) depth busy)
        (ofType (p.modelWithin typing guarded) depth busy) next := by
    intro busy
    have hdeclaration := rel_cases (h.declaration hrel)
    have hof := htype.bind_eq fun u v huv => ih.type huv busy
    unfold symbolValue
    rw [h.kind hrel, h.name hrel]
    rcases hdeclaration with ⟨hs, ht⟩ | ⟨n, m, hs, ht, hnm⟩
    · rw [hs, ht]
      cases next.kind <;> first | rfl | exact hof
    · rw [hs, ht]
      cases next.kind <;> first | rfl | exact hof | exact ih.node hnm busy
  rw [ofSymbol, ofSymbol, hnext, hother]
  show (if guarded = true ∧ other.id ∈ busy then _ else _) =
    if guarded = true ∧ next.id ∈ busy then _ else _
  rw [h.id hrel, hvalue]

end Agrees

/-- In programs that correspond, everything that corresponds is resolved to the same. -/
theorem agrees (h : p.Matches q N R) (typing : Nat) (guarded : Bool) (depth : Nat) :
    Agrees p q N R typing guarded depth := by
  induction depth with
  | zero =>
      constructor
      all_goals intros; rfl
  | succ depth ih =>
      exact {
        node := fun hnm busy => ih.node_step busy h hnm
        symbol := fun hst busy => ih.symbol_step busy h hst
        type := fun huv busy => ih.type_step busy huv }

/-- In programs that correspond, corresponding nodes resolve to the same, with the same warning. -/
theorem resolve_eq (h : p.Matches q N R) (hnm : N n m) : q.resolve m = p.resolve n := by
  have hvalue := (agrees h Typing.depthLimit true depthLimit).node hnm []
  unfold Program.resolve resolve Program.model
  rw [hvalue, Outcome.ofAnswer.eq_def, Outcome.ofAnswer.eq_def, (h.similar hnm).message_name_eq]

end

end StaticLiteral.Resolution
