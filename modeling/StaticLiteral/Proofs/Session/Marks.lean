import Mathlib.Data.Finset.Basic
import StaticLiteral.Proofs.Depth
import StaticLiteral.Semantic.Fact

/-!
# Marks

A type checker marks the symbols whose types it is working out, a request those that it is
resolving. The marks outlive a failure: they are not taken back with the work that failed, so each
of them has to be taken off by whoever put it on. `Settles` says of a piece of work that it comes
out as an answer and leaves the marks as it found them.
-/

namespace StaticLiteral

/-- The symbols that are marked: those whose types are being worked out, and those that the current
request is resolving. -/
structure Marks where
  typing : Finset SymbolId := ∅
  resolving : Finset SymbolId := ∅

/-- The marks on the symbols of two lists. -/
def Marks.on (typing resolving : List SymbolId) : Marks := ⟨typing.toFinset, resolving.toFinset⟩

/-- Work that puts marks on symbols and may fail. The marks stay as a failure leaves them. -/
abbrev Marking (α : Type) := ExceptT Failure (StateM Marks) α

namespace Marking

variable {α β : Type}

/-- Work with a mark that is put on before it and taken off after it, also if it fails. -/
def between (put off : Marks → Marks) (work : Marking α) : Marking α := do
  modify put
  try work finally modify off

/-- Work on a symbol that is in a set of marks meanwhile. It is cut off if it is there already. -/
def guarded (read : Marks → Finset SymbolId) (write : Finset SymbolId → Marks → Marks)
    (id : SymbolId) (cut : α) (work : Marking α) : Marking α := do
  if id ∈ read (← get) then return cut
  work.between (fun marks => write (insert id (read marks)) marks)
    (fun marks => write ((read marks).erase id) marks)

/-- Work on the type of a symbol. -/
def typing (id : SymbolId) (cut : α) (work : Marking α) : Marking α :=
  work.guarded Marks.typing (fun set marks => { marks with typing := set }) id cut

/-- Resolving a symbol. -/
def resolving (id : SymbolId) (cut : α) (work : Marking α) : Marking α :=
  work.guarded Marks.resolving (fun set marks => { marks with resolving := set }) id cut

/-- What work comes out as from some marks, and the marks that it leaves. -/
def outcome (work : Marking α) (marks : Marks) : Except Failure α × Marks :=
  (ExceptT.run work).run marks

/-- From these marks, work comes out as the answer and leaves the same marks. -/
def Settles (marks : Marks) (work : Marking α) (answer : Except Failure α) : Prop :=
  work.outcome marks = (answer, marks)

/-- Going on with what work came out as, unless it failed. -/
theorem outcome_bind (work : Marking α) (rest : α → Marking β) (marks : Marks) :
    (work >>= rest).outcome marks =
      match work.outcome marks with
      | (.ok x, after) => (rest x).outcome after
      | (.error e, after) => (.error e, after) := by
  simp only [outcome, ExceptT.run, StateT.run, bind, ExceptT.bind, ExceptT.mk, StateT.bind,
    ExceptT.bindCont]
  rcases work marks with ⟨_ | _, after⟩ <;> rfl

/-- The mark is put on before the work and taken off whatever marks the work leaves. -/
theorem outcome_between (put off : Marks → Marks) (work : Marking α) (marks : Marks) :
    (work.between put off).outcome marks =
      ((work.outcome (put marks)).1, off (work.outcome (put marks)).2) := by
  have hput : (modify put : Marking PUnit).outcome marks = (.ok ⟨⟩, put marks) := rfl
  rw [between, outcome_bind, hput]
  simp only [outcome, ExceptT.run, StateT.run, tryFinally, tryFinally', Functor.map, ExceptT.map,
    ExceptT.mk, bind, StateT.bind, pure]
  rcases work (put marks) with ⟨_ | _, after⟩ <;> rfl

namespace Settles

variable {marks : Marks} {work : Marking α} {answer : Except Failure α}

/-- A value settles as itself. -/
theorem pure (x : α) : Settles marks (Pure.pure x) (.ok x) := rfl

/-- A failure settles as itself. -/
theorem throw (e : Failure) : Settles marks (throw e : Marking α) (.error e) := rfl

/-- Going on from work that settles as a value settles as what the value leads to. -/
theorem bind_ok {x : α} {rest : α → Marking β} {last : Except Failure β}
    (h : Settles marks work (.ok x)) (hrest : Settles marks (rest x) last) :
    Settles marks (work >>= rest) last := by
  unfold Settles at h hrest ⊢
  rw [outcome_bind, h]
  exact hrest

/-- Going on from work that failed settles as the failure. -/
theorem bind_error {e : Failure} {rest : α → Marking β} (h : Settles marks work (.error e)) :
    Settles marks (work >>= rest) (.error e) := by
  unfold Settles at h ⊢
  rw [outcome_bind, h]

/-- Work on a symbol, cut off exactly if it is among the marks that are looked at. -/
theorem guarded (read : Marks → Finset SymbolId) (write : Finset SymbolId → Marks → Marks)
    (hread : ∀ set marks, read (write set marks) = set)
    (hwrite : ∀ set old marks, write set (write old marks) = write set marks)
    (hsame : ∀ marks, write (read marks) marks = marks) {id : SymbolId} {cut : α}
    (h : id ∉ read marks → Settles (write (insert id (read marks)) marks) work answer) :
    Settles marks (work.guarded read write id cut)
      (if id ∈ read marks then .ok cut else answer) := by
  have hget : (get : Marking Marks).outcome marks = (.ok marks, marks) := rfl
  unfold Settles Marking.guarded at *
  rw [outcome_bind, hget]
  by_cases hid : id ∈ read marks
  · simp only [hid, if_true]
    rfl
  · simp only [hid, if_false, outcome_between, h hid]
    rw [hread, Finset.erase_insert hid, hwrite, hsame]

variable {busy others : List SymbolId} {id : SymbolId} {cut : α}

/-- Work on the type of a symbol, cut off exactly if the symbol is marked. -/
theorem typing (h : id ∉ busy → Settles (.on (id :: busy) others) work answer) :
    Settles (.on busy others) (work.typing id cut) (if id ∈ busy then .ok cut else answer) := by
  have hmem : id ∈ (Marks.on busy others).typing ↔ id ∈ busy := List.mem_toFinset
  have hon : Marks.on (id :: busy) others = ⟨insert id busy.toFinset, others.toFinset⟩ := by
    rw [Marks.on, List.toFinset_cons]
  have hguarded : Settles (.on busy others) (work.typing id cut)
      (if id ∈ (Marks.on busy others).typing then .ok cut else answer) :=
    .guarded Marks.typing (fun set marks => { marks with typing := set }) (fun _ _ => rfl)
      (fun _ _ _ => rfl) (fun _ => rfl) fun hid => hon ▸ h (hmem.not.mp hid)
  simpa only [hmem] using hguarded

/-- Resolving a symbol, cut off exactly if the symbol is marked. -/
theorem resolving (h : id ∉ busy → Settles (.on others (id :: busy)) work answer) :
    Settles (.on others busy) (work.resolving id cut) (if id ∈ busy then .ok cut else answer) := by
  have hmem : id ∈ (Marks.on others busy).resolving ↔ id ∈ busy := List.mem_toFinset
  have hon : Marks.on others (id :: busy) = ⟨others.toFinset, insert id busy.toFinset⟩ := by
    rw [Marks.on, List.toFinset_cons]
  have hguarded : Settles (.on others busy) (work.resolving id cut)
      (if id ∈ (Marks.on others busy).resolving then .ok cut else answer) :=
    .guarded Marks.resolving (fun set marks => { marks with resolving := set }) (fun _ _ => rfl)
      (fun _ _ _ => rfl) (fun _ => rfl) fun hid => hon ▸ h (hmem.not.mp hid)
  simpa only [hmem] using hguarded

end Settles

/-- Work settles, from these marks, as an answer that is parallel to another one. -/
def settling (marks : Marks) : Lifting Marking (Except Failure) where
  rel R work answer := ∃ outcome, Settles marks work outcome ∧ Parallel R outcome answer
  pure h := ⟨_, .pure _, .ok h⟩
  bind := by
    rintro _ _ _ _ _ _ work answer f g ⟨outcome, hwork, houtcome⟩ hfg
    cases outcome with
    | error e =>
        cases answer with
        | ok y => exact houtcome.elim
        | error e' => exact ⟨.error e, hwork.bind_error, houtcome⟩
    | ok x =>
        cases answer with
        | ok y =>
            obtain ⟨last, hlast, hparallel⟩ := hfg x y houtcome
            exact ⟨last, hwork.bind_ok hlast, hparallel⟩
        | error e => exact houtcome.elim

/-- Work settles as an answer exactly if it settles as one that is parallel between equals. -/
theorem settles_iff {marks : Marks} {work : Marking α} {answer : Except Failure α} :
    Settles marks work answer ↔ (settling marks).rel Eq work answer := by
  constructor
  · intro h
    refine ⟨answer, h, ?_⟩
    cases answer with
    | ok x => exact .ok rfl
    | error e => exact .error e
  · rintro ⟨outcome, hwork, houtcome⟩
    rwa [houtcome.eq_of_imp fun _ _ heq => heq]

end Marking

end StaticLiteral
