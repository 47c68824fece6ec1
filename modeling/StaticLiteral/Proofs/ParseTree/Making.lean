import StaticLiteral.ParseTree.SourceFile

/-!
# What making syntax makes

`Makes P make` says that whatever `make` makes has the property `P`, in any setting and after any
anomalies; work that stops makes nothing. There is one rule for each way of putting such work
together, and `Makes.guarded` for the limit on nesting: what work does there is `run_guarded`.
-/

namespace StaticLiteral

open MakeSyntax

variable {α β : Type} {P P' : α → Prop} {Q : β → Prop} {make : MakeSyntax α}

/-- Work goes on with what was made before, unless that work stops. -/
theorem run_bind (make : MakeSyntax α) (f : α → MakeSyntax β) (ctx : SyntaxContext)
    (anomalies : List Anomaly) :
    ((make >>= f) ctx).run anomalies =
      match (make ctx).run anomalies with
      | (.ok a, rest) => (f a ctx).run rest
      | (.error stop, rest) => (.error stop, rest) := by
  show ((make ctx >>= fun a => f a ctx).run) anomalies = _
  rw [ExceptT.run_bind]
  show StateT.run _ anomalies = match StateT.run (make ctx).run anomalies with
    | (.ok a, rest) => (f a ctx).run rest
    | (.error stop, rest) => (.error stop, rest)
  rw [StateT.run_bind]
  rcases StateT.run (make ctx).run anomalies with ⟨_ | _, _⟩ <;> rfl

/-- It is among the anomalies that something was nested too deep. -/
def IsCut (anomalies : List Anomaly) : Prop := ∃ a ∈ anomalies, a.reason = .nestingTooDeep

instance (anomalies : List Anomaly) : Decidable (IsCut anomalies) :=
  inferInstanceAs (Decidable (∃ a ∈ anomalies, a.reason = .nestingTooDeep))

/-- Looking through the anomalies tells whether something was nested too deep. -/
theorem any_eq_is_cut (anomalies : List Anomaly) :
    anomalies.any (fun a => a.reason = .nestingTooDeep) = decide (IsCut anomalies) := by
  rw [Bool.eq_iff_iff, decide_eq_true_iff, List.any_eq_true]
  simp only [IsCut, decide_eq_true_eq]

/-- What was noted stays noted with further anomalies. -/
theorem IsCut.append {anomalies : List Anomaly} (h : IsCut anomalies) (more : List Anomaly) :
    IsCut (anomalies ++ more) := by
  obtain ⟨a, ha, hreason⟩ := h
  exact ⟨a, List.mem_append_left _ ha, hreason⟩

/-- At the limit a tree is cut off, which is noted unless it was before; elsewhere the work is done
one level further down. -/
theorem run_guarded (n : ParseTree) (cut : Info → α) (make : MakeSyntax α) (ctx : SyntaxContext)
    (anomalies : List Anomaly) :
    ((guarded n cut make) ctx).run anomalies =
      if ctx.maxNesting ≤ ctx.nesting then
        (.ok (cut { span := ctx.span n }),
          if IsCut anomalies then anomalies
          else (((note .nestingTooDeep n (nestingDetail ctx.maxNesting)) ctx).run anomalies).2)
      else (make { ctx with nesting := ctx.nesting + 1 }).run anomalies := by
  have hread : ((guarded n cut make) ctx).run anomalies =
      ((if ctx.maxNesting ≤ ctx.nesting then
          if !anomalies.any (fun a => a.reason = .nestingTooDeep) then
            note .nestingTooDeep n (nestingDetail ctx.maxNesting) >>= fun _ =>
              info n >>= fun i => pure (cut i)
          else info n >>= fun i => pure (cut i)
        else withReader (fun ctx => { ctx with nesting := ctx.nesting + 1 }) make :
          MakeSyntax α) ctx).run anomalies := by
    unfold guarded
    rw [run_bind]
    show (ExceptT.run ((if _ then _ else _ : MakeSyntax α) ctx)) anomalies = _
    split
    · rw [run_bind]
      rfl
    · rfl
  rw [hread, any_eq_is_cut]
  by_cases hlimit : ctx.maxNesting ≤ ctx.nesting
  · rw [if_pos hlimit, if_pos hlimit]
    by_cases hcut : IsCut anomalies
    · simp only [hcut]
      rfl
    · simp only [hcut]
      rfl
  · rw [if_neg hlimit, if_neg hlimit]
    rfl

/-- Whatever is made has the property. -/
def Makes (P : α → Prop) (make : MakeSyntax α) : Prop :=
  ∀ ctx anomalies a rest, (make ctx).run anomalies = (.ok a, rest) → P a

namespace Makes

/-- Nothing is claimed about what is made. -/
theorem any (make : MakeSyntax α) : Makes (fun _ => True) make := fun _ _ _ _ _ => trivial

/-- What is there already has its properties. -/
theorem pure {a : α} (h : P a) : Makes P (Pure.pure a) := by
  intro ctx anomalies b rest hrun
  obtain rfl : a = b := by cases hrun; rfl
  exact h

/-- Work that stops makes nothing. -/
theorem throw (stop : SyntaxStop) : Makes P (MonadExcept.throw stop) := by
  intro ctx anomalies a rest hrun
  cases hrun

/-- Work that goes on with what was made before. -/
theorem bind {f : α → MakeSyntax β} (h : Makes P make) (hf : ∀ a, P a → Makes Q (f a)) :
    Makes Q (make >>= f) := by
  intro ctx anomalies b rest hrun
  rw [run_bind] at hrun
  split at hrun
  case h_1 a rest' hmake => exact hf a (h ctx anomalies a rest' hmake) ctx rest' b rest hrun
  case h_2 => cases hrun

/-- What is weaker holds too. -/
theorem mono (h : Makes P make) (himp : ∀ a, P a → P' a) : Makes P' make :=
  fun ctx anomalies a rest hrun => himp a (h ctx anomalies a rest hrun)

/-- Work that changes what was made before. -/
theorem map {f : α → β} (h : Makes P make) (hf : ∀ a, P a → Q (f a)) : Makes Q (f <$> make) := by
  rw [map_eq_pure_bind]
  exact h.bind fun a ha => .pure (hf a ha)

/-- Work on one thing after the other. -/
theorem mapM {f : α → MakeSyntax β} {xs : List α} (h : ∀ x ∈ xs, Makes Q (f x)) :
    Makes (fun ys => ∀ y ∈ ys, Q y) (xs.mapM f) := by
  induction xs with
  | nil => exact .pure (by simp)
  | cons x rest ih =>
      rw [List.mapM_cons]
      refine .bind (h x (by simp)) fun y hy => ?_
      refine .bind (ih fun x hx => h x (List.mem_cons_of_mem _ hx)) fun ys hys => .pure ?_
      exact List.forall_mem_cons.mpr ⟨hy, hys⟩

/-- Work that is cut off at the limit on nesting. -/
theorem guarded {n : ParseTree} {cut : Info → α} (hcut : ∀ i, P (cut i)) (h : Makes P make) :
    Makes P (guarded n cut make) := by
  intro ctx anomalies a rest hrun
  rw [run_guarded] at hrun
  split at hrun
  · obtain rfl := Except.ok.inj (congrArg Prod.fst hrun)
    exact hcut _
  · exact h _ anomalies a rest hrun

end Makes

end StaticLiteral
