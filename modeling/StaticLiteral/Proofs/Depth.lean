import Mathlib.Data.List.Forall2
import StaticLiteral.Resolution.Model

/-!
# Answers

Typing and resolving may fail, and they are bounded by a depth. `Ends` says what value or failure an
answer ends with. `Deepened shallow deep` says that the answer at the greater depth is the answer at
the smaller one, unless that one only says that it stopped. Two answers are `Parallel` if both are
values in a relation, or both are the same failure. Every way of putting answers together preserves
these. A `Lifting` is such a way to relate answers by relating their values, also those of two
monads.
-/

namespace StaticLiteral

variable {α β : Type}

/-- Going on from an answer ends with a value exactly if both parts do. -/
theorem bind_eq_ok_iff {ε : Type} {a : Except ε α} {f : α → Except ε β} {y : β} :
    (a >>= f) = .ok y ↔ ∃ x, a = .ok x ∧ f x = .ok y := by
  cases a <;> simp [bind, Except.bind]

/-- Changing the value of an answer ends with a value exactly if the answer has one. -/
theorem map_eq_ok_iff {ε : Type} {a : Except ε α} {f : α → β} {y : β} :
    (f <$> a) = .ok y ↔ ∃ x, a = .ok x ∧ f x = y := by
  cases a <;> simp [Functor.map, Except.map]

/-- What is made is known if it is made and what is to be known of it can be checked. -/
theorem exists_ok_of_any {ε : Type} {made : Except ε α} {P : α → Prop} [DecidablePred P]
    (h : made.toOption.any (fun a => decide (P a))) : ∃ a, made = .ok a ∧ P a := by
  cases made with
  | error e => cases h
  | ok a => exact ⟨a, rfl, of_decide_eq_true h⟩

/-- The answer is a value or a failure with the property for it. -/
def Ends (value : α → Prop) (failure : Failure → Prop) : Except Failure α → Prop
  | .ok x => value x
  | .error e => failure e

namespace Ends

variable {P : α → Prop} {Q : β → Prop} {E : Failure → Prop}

/-- A value with the property for it is such an answer. -/
theorem ok {x : α} (h : P x) : Ends P E (.ok x) := h

/-- Going on from a value leads to what it leads to. -/
theorem ok_bind {x : α} {f : α → Except Failure β} (h : Ends Q E (f x)) :
    Ends Q E (.ok x >>= f) := h

/-- Going on from an answer leads to what its values lead to, or to its failure. -/
theorem bind {a : Except Failure α} {f : α → Except Failure β} (h : Ends P E a)
    (hf : ∀ x, a = .ok x → P x → Ends Q E (f x)) : Ends Q E (a >>= f) := by
  cases a with
  | ok x => exact hf x rfl h
  | error e => exact h

/-- Changing the value of an answer changes the property of it. -/
theorem map {a : Except Failure α} {f : α → β} (h : Ends P E a) (hf : ∀ x, P x → Q (f x)) :
    Ends Q E (f <$> a) := by
  cases a with
  | ok x => exact hf x h
  | error e => exact h

/-- Asking about each element of a list ends with values that all have the property. -/
theorem mapM {f : α → Except Failure β} {xs : List α} (h : ∀ x ∈ xs, Ends Q E (f x)) :
    Ends (fun ys => ∀ y ∈ ys, Q y) E (xs.mapM f) := by
  induction xs with
  | nil => exact .ok (by simp)
  | cons x xs ih =>
      simp only [List.mapM_cons]
      refine .bind (h x (by simp)) fun y _ hy => ?_
      refine .bind (ih fun z hz => h z (by simp [hz])) fun ys _ hys => .ok ?_
      simpa using ⟨hy, hys⟩

end Ends

/-- The second answer is the first, unless the first stopped for its depth. -/
def Deepened (shallow deep : Except Failure α) : Prop :=
  shallow = .error .tooDeep ∨ deep = shallow

namespace Deepened

/-- An answer is its own answer at a greater depth. -/
theorem refl (a : Except Failure α) : Deepened a a := .inr rfl

/-- Nothing is said about the answer after one that stopped. -/
theorem stopped (a : Except Failure α) : Deepened (.error .tooDeep) a := .inl rfl

/-- An answer that did not stop is the answer at the greater depth. -/
theorem eq {a b : Except Failure α} (h : Deepened a b) (ha : a ≠ .error .tooDeep) : b = a :=
  h.resolve_left ha

/-- An answer that stopped at the greater depth stopped at the smaller one. -/
theorem stopped_of {a b : Except Failure α} (h : Deepened a b) (hb : b = .error .tooDeep) :
    a = .error .tooDeep := by
  rcases h with h | rfl
  · exact h
  · exact hb

/-- A value is the value at the greater depth. -/
theorem eq_ok {a b : Except Failure α} {x : α} (h : Deepened a b) (ha : a = .ok x) :
    b = .ok x := by
  rw [h.eq (by simp [ha]), ha]

end Deepened

/-! ## Parallel answers -/

/-- Both answers are values in the relation, or both are the same failure. -/
def Parallel {α β : Type} (R : α → β → Prop) : Except Failure α → Except Failure β → Prop
  | .ok x, .ok y => R x y
  | .error e, .error f => e = f
  | _, _ => False

namespace Parallel

variable {α β γ δ : Type} {R : α → β → Prop} {S : γ → δ → Prop} {a : Except Failure α}
  {b : Except Failure β}

/-- Related values are parallel answers. -/
theorem ok {x : α} {y : β} (h : R x y) : Parallel R (.ok x) (.ok y) := h

/-- A failure is parallel to itself. -/
theorem error (e : Failure) : Parallel R (.error e) (.error e) := rfl

/-- Going on in parallel from parallel answers leads to parallel answers. -/
theorem bind {f : α → Except Failure γ} {g : β → Except Failure δ} (h : Parallel R a b)
    (hfg : ∀ x y, R x y → Parallel S (f x) (g y)) : Parallel S (a >>= f) (b >>= g) := by
  cases a <;> cases b
  case error.error => exact h
  case ok.ok => exact hfg _ _ h
  all_goals exact h.elim

/-- Changing the values of parallel answers alike leaves them parallel. -/
theorem map {f : α → γ} {g : β → δ} (h : Parallel R a b) (hfg : ∀ x y, R x y → S (f x) (g y)) :
    Parallel S (f <$> a) (g <$> b) := by
  cases a <;> cases b
  case error.error => exact h
  case ok.ok => exact hfg _ _ h
  all_goals exact h.elim

/-- Asking about the elements of lists in parallel gives parallel answers. -/
theorem mapM {f : α → Except Failure γ} {g : β → Except Failure δ} {xs : List α} {ys : List β}
    (h : List.Forall₂ (fun x y => Parallel S (f x) (g y)) xs ys) :
    Parallel (List.Forall₂ S) (xs.mapM f) (ys.mapM g) := by
  induction h with
  | nil => exact .ok .nil
  | cons hxy _ ih =>
      simp only [List.mapM_cons]
      refine hxy.bind fun x y hs => ?_
      exact ih.bind fun zs ws hrest => .ok (.cons hs hrest)

/-- Going on from parallel answers to the same leads to the same. -/
theorem bind_eq {f : α → Except Failure γ} {g : β → Except Failure γ} (h : Parallel R a b)
    (hfg : ∀ x y, R x y → g y = f x) : (b >>= g) = (a >>= f) := by
  cases a <;> cases b
  case error.error => exact congrArg Except.error h.symm
  case ok.ok => exact hfg _ _ h
  all_goals exact h.elim

/-- Answers that are parallel in a relation between equals are equal. -/
theorem eq_of_imp {R : α → α → Prop} {a b : Except Failure α} (h : Parallel R a b)
    (hR : ∀ x y, R x y → x = y) : b = a := by
  cases a <;> cases b
  case error.error => exact congrArg Except.error h.symm
  case ok.ok => exact congrArg Except.ok (hR _ _ h).symm
  all_goals exact h.elim

end Parallel

/-- What is asked about the elements of related lists is the same if it is about each of them. -/
theorem map_m_eq {α β γ : Type} {f : α → Except Failure γ} {g : β → Except Failure γ} {xs : List α}
    {ys : List β} (h : List.Forall₂ (fun x y => g y = f x) xs ys) : ys.mapM g = xs.mapM f := by
  induction h with
  | nil => rfl
  | cons hxy _ ih => simp only [List.mapM_cons, hxy, ih]

/-- Lists of equal elements are equal. -/
theorem forall₂_eq {α : Type} {xs ys : List α} (h : List.Forall₂ Eq xs ys) : xs = ys := by
  rwa [List.forall₂_eq_eq_eq] at h

/-! ## Relations between answers -/

/-- A way to relate the answers of two monads by relating their values. It goes through every way of
putting answers together. -/
structure Lifting (m n : Type → Type) [Monad m] [Monad n] where
  rel : {α β : Type} → (α → β → Prop) → m α → n β → Prop
  pure : ∀ {α β : Type} {R : α → β → Prop} {x : α} {y : β}, R x y →
    rel R (Pure.pure x) (Pure.pure y)
  bind : ∀ {α β γ δ : Type} {R : α → β → Prop} {S : γ → δ → Prop} {a : m α} {b : n β} {f : α → m γ}
    {g : β → n δ}, rel R a b → (∀ x y, R x y → rel S (f x) (g y)) → rel S (a >>= f) (b >>= g)

namespace Lifting

variable {m n : Type → Type} [Monad m] [Monad n] (L : Lifting m n) {α β γ δ : Type}
  {R : α → β → Prop} {S : γ → δ → Prop}

/-- Failures are thrown alike, apart from the one of going too deep. -/
def Throws [MonadExcept Failure m] [MonadExcept Failure n] : Prop :=
  ∀ {α β : Type} {R : α → β → Prop} (e : Failure), e ≠ .tooDeep → L.rel R (throw e) (throw e)

/-- An answer that did not stop for its depth is thrown alike. -/
theorem Throws.of_except [MonadExcept Failure m] [MonadExcept Failure n] {L : Lifting m n}
    (h : L.Throws) {answer : Except Failure α} (hstop : answer ≠ .error .tooDeep) :
    L.rel Eq (MonadExcept.ofExcept answer) (MonadExcept.ofExcept answer) := by
  cases answer with
  | ok x => exact L.pure rfl
  | error e => exact h e fun heq => hstop (congrArg Except.error heq)

variable [LawfulMonad m] [LawfulMonad n]

/-- Changing the values of related answers in related ways leads to related answers. -/
theorem map {a : m α} {b : n β} {f : α → γ} {g : β → δ} (h : L.rel R a b)
    (hfg : ∀ x y, R x y → S (f x) (g y)) : L.rel S (f <$> a) (g <$> b) := by
  rw [map_eq_pure_bind, map_eq_pure_bind]
  exact L.bind h fun x y hxy => L.pure (hfg x y hxy)

/-- Asking about each element of a list in related ways leads to related answers. -/
theorem mapM {f : γ → m α} {g : γ → n β} {xs : List γ} (h : ∀ x ∈ xs, L.rel R (f x) (g x)) :
    L.rel (List.Forall₂ R) (xs.mapM f) (xs.mapM g) := by
  induction xs with
  | nil => exact L.pure .nil
  | cons x xs ih =>
      simp only [List.mapM_cons]
      refine L.bind (h x List.mem_cons_self) fun y z hyz => ?_
      refine L.bind (ih fun w hw => h w (List.mem_cons_of_mem x hw)) fun ys zs hrest => ?_
      exact L.pure (.cons hyz hrest)

/-- Both answers are the same failure, or values in the relation. -/
def parallel : Lifting (Except Failure) (Except Failure) where
  rel := Parallel
  pure h := h
  bind := Parallel.bind

/-- Both answers are values in the relation. -/
def values : Lifting (Except Failure) (Except Failure) where
  rel R a b := ∃ x y, a = .ok x ∧ b = .ok y ∧ R x y
  pure h := ⟨_, _, rfl, rfl, h⟩
  bind := by
    rintro _ _ _ _ _ _ _ _ _ _ ⟨x, y, rfl, rfl, hxy⟩ hfg
    exact hfg x y hxy

/-- The answers are parallel, unless the first one stopped for its depth. -/
def unlessStopped : Lifting (Except Failure) (Except Failure) where
  rel R a b := a = .error .tooDeep ∨ Parallel R a b
  pure h := .inr h
  bind := by
    rintro _ _ _ _ _ _ a b f g (rfl | h) hfg
    · exact .inl rfl
    · cases a <;> cases b
      case error.error => exact .inr h
      case ok.ok => exact hfg _ _ h
      all_goals exact h.elim

end Lifting

/-- An answer is the answer at a greater depth exactly if they are parallel between equals unless
the first one stopped. -/
theorem deepened_iff {shallow deep : Except Failure α} :
    Deepened shallow deep ↔ Lifting.unlessStopped.rel Eq shallow deep := by
  refine or_congr_right ⟨?_, fun h => h.eq_of_imp fun _ _ hxy => hxy⟩
  rintro rfl
  cases deep with
  | ok x => exact .ok rfl
  | error e => exact .error e

/-- Related answers the first of which did not stop may be replaced by those at greater depths. -/
theorem related_deepened {R : α → β → Prop} {a c : Except Failure α} {b d : Except Failure β}
    (hab : Lifting.unlessStopped.rel R a b) (ha : a ≠ .error .tooDeep)
    (hac : Lifting.unlessStopped.rel Eq a c) (hbd : Lifting.unlessStopped.rel Eq b d) :
    Lifting.unlessStopped.rel R c d := by
  have hparallel := hab.resolve_left ha
  have hb : b ≠ .error .tooDeep := by
    rintro rfl
    cases a with
    | ok x => exact hparallel
    | error e => exact ha (congrArg _ hparallel)
  rw [(deepened_iff.mpr hac).eq ha, (deepened_iff.mpr hbd).eq hb]
  exact hab

end StaticLiteral
