import StaticLiteral.Proofs.Program.Symbols
import StaticLiteral.Proofs.Typing.Blur
import StaticLiteral.Proofs.Typing.Depth

/-!
# The guards of typing

A symbol that is being worked out is not worked out again. `of_symbol_follows` says that these
guards change no answer that is found without them, up to types that say nothing: where a guard
stops, the symbol depends on itself, and without guards there is no answer at any depth.
-/

namespace StaticLiteral.Typing

open Ty

/-- The second answer is the first as `f` sees it, unless the first stopped for its depth. -/
def Follows {α β : Type} (f : α → β) (a b : Except Failure α) : Prop :=
  a = .error .tooDeep ∨ f <$> b = f <$> a

namespace Follows

variable {α β γ δ : Type} {f : α → β} {g : γ → δ} {a b : Except Failure α}

/-- Going on from answers that look the same in ways that look the same. -/
theorem bind {F G : α → Except Failure γ} (h : Follows f a b)
    (hFG : ∀ x y, a = .ok x → f x = f y → Follows g (F x) (G y)) :
    Follows g (a >>= F) (b >>= G) := by
  rcases h with rfl | h
  · exact .inl rfl
  · cases a with
    | ok x =>
        cases b with
        | ok y => exact hFG x y rfl (Except.ok.inj h).symm
        | error e => simp [Functor.map, Except.map] at h
    | error e =>
        cases b with
        | ok y => simp [Functor.map, Except.map] at h
        | error e' =>
            obtain rfl : e' = e := by simpa [Functor.map, Except.map] using h
            exact .inr rfl

/-- An answer that follows another up to nothing is that answer. -/
theorem to_deepened (h : Follows id a b) : Deepened a b := by
  simpa [Follows, Deepened] using h

/-- An answer follows another exactly if they are parallel between values that look the same unless
the first one stopped. -/
theorem iff_rel {b : Except Failure α} :
    Follows f a b ↔ Lifting.unlessStopped.rel (fun x y => f x = f y) a b := by
  refine or_congr_right ?_
  cases a <;> cases b <;> simp [Parallel, Functor.map, Except.map, eq_comm]

end Follows

variable {p : Program}

/-- Without guards it does not matter which symbols are being worked out. -/
theorem busy_irrelevant (depth : Nat) :
    ∀ busy, answers p false depth busy = answers p false depth [] := by
  induction depth with
  | zero =>
      intro busy
      rfl
  | succ depth ih =>
      intro busy
      have hentered : ∀ question, entered p false depth busy question =
          entered p false depth [] question := by
        intro question
        funext s
        simp only [entered, Bool.false_eq_true, false_and, if_false, ih (s.id :: busy), ih [s.id]]
      rw [answers_succ, answers_succ, ih busy, hentered, hentered]

/-- Without guards a symbol has its type whatever is being worked out. -/
theorem of_symbol_free (depth : Nat) (busy : List SymbolId) :
    ofSymbol p false depth busy = ofSymbol p false depth [] :=
  congrArg Answers.symbol (busy_irrelevant depth busy)

/-- Without guards a variable has its type whatever is being worked out. -/
theorem of_variable_free (depth : Nat) (busy : List SymbolId) :
    ofVariable p false depth busy = ofVariable p false depth [] :=
  congrArg Answers.declaration (busy_irrelevant depth busy)

/-- Without guards an expression has its type whatever is being worked out. -/
theorem of_expression_free (depth : Nat) (busy : List SymbolId) :
    ofExpression p false depth busy = ofExpression p false depth [] :=
  congrArg Answers.expression (busy_irrelevant depth busy)

/-- Without guards no symbol is cut off. -/
theorem entered_free (depth : Nat) (busy : List SymbolId)
    (question : Answers (Except Failure) → BoundSymbol → TypeAnswer) (s : BoundSymbol) :
    entered p false depth busy question s = question (answers p false depth []) s := by
  simp only [entered, Bool.false_eq_true, false_and, if_false, busy_irrelevant depth (s.id :: busy)]

/-- Without guards the question about the symbol with an identity stops at a depth: the question
what type it has, or if it is an alias of a type, the question what type it names. -/
def Stuck (p : Program) (depth : Nat) (id : SymbolId) : Prop :=
  ∃ s ∈ p.symbols, s.id = id ∧
    (ofSymbol p false depth [] s = .error .tooDeep ∨
      s.kind = .typeAlias ∧ ofNamedType p false depth [] s = .error .tooDeep)

/-- What stops at a depth stops at every smaller one. -/
theorem Stuck.shallow {shallow deep : Nat} {id : SymbolId} (h : Stuck p deep id)
    (hle : shallow ≤ deep) : Stuck p shallow id := by
  obtain ⟨s, hs, hid, h⟩ := h
  have hdeepened := deepened_of_le (p := p) false _ _ hle []
  have hsymbol := deepened_iff.mpr (hdeepened.symbol (s := s) trivial)
  have hnamed := deepened_iff.mpr (hdeepened.namedType (s := s) trivial)
  exact ⟨s, hs, hid, h.imp hsymbol.stopped_of (.imp_right hnamed.stopped_of)⟩

/-! ## Types that look the same -/

/-- Lists of types that look the same have the same blurred forms. -/
theorem forall₂_blurred_iff {ts us : List BoundTy} :
    List.Forall₂ (fun t u => t.blurred = u.blurred) ts us ↔ ts.map blurred = us.map blurred := by
  rw [← List.forall₂_eq_eq_eq, List.forall₂_map_left_iff, List.forall₂_map_right_iff]

/-- Whatever typing builds of types that look the same looks the same. -/
theorem builds_blurred : Builds (fun _ => True) (fun t u => t.blurred = u.blurred)
    fun t u => t.blurred = u.blurred where
  kept := id
  plain _ := rfl
  object _ := rfl
  reference h := by simp only [blurred, blurred_all_eq, forall₂_blurred_iff.mp h]
  unionOf h := blurred_union_of_congr (forall₂_blurred_iff.mp h)
  widened h := by rw [blurred_widened, blurred_widened, h]
  asReadonly h := by rw [blurred_as_readonly, blurred_as_readonly, h]
  signed {t u} h operator n := by
    rw [← of_signed_blurred operator n t, h, of_signed_blurred operator n u]
  spread h := forall₂_blurred_iff.mpr (map_blurred_spread h)
  array h isConst := blurred_of_array isConst (forall₂_blurred_iff.mp h)
  builtin h name := blurred_of_builtin name (forall₂_blurred_iff.mp h)

/-! ## Symbols that are stuck -/

/-- Whatever is told without guards is told with them, up to types that say nothing, as long as
all symbols being worked out are stuck without guards. -/
theorem follows_of_stuck
    (hp : ∀ s ∈ p.symbols, ∀ t ∈ p.symbols, s.id = t.id → s = t) (depth : Nat) :
    ∀ busy, (∀ id ∈ busy, Stuck p depth id) →
      Related .unlessStopped (fun t u => t.blurred = u.blurred) (.ofProgram p)
        (answers p false depth []) (answers p true depth busy) := by
  induction depth with
  | zero =>
      intro busy _
      constructor
      all_goals intros; exact .inl rfl
  | succ depth ih =>
      intro busy hbusy
      have hshallow : ∀ id ∈ busy, Stuck p depth id :=
        fun id hid => (hbusy id hid).shallow (Nat.le_succ depth)
      have hbelow := ih busy hshallow
      have hfree := deepened_of_le (p := p) false depth (depth + 1) (Nat.le_succ depth) []
      have hguarded := deepened_of_le (p := p) true depth (depth + 1) (Nat.le_succ depth) busy
      have hdescends : Descends p (fun _ => True) (.ofProgram p) (.ofProgram p) :=
        { descends_of_program with
          property := fun _ => ⟨trivial, fun _ _ => ⟨trivial, trivial⟩⟩
          literal := fun _ => trivial }
      rw [answers_succ, answers_succ]
      refine hbelow.step builds_blurred hdescends (fun s hs => ?_) fun s hs =>
        ⟨trivial, fun hkind => ?_⟩
      -- What is answered at the smaller depth stays so, which leaves the question that is stuck.
      · by_cases hstuck : ofSymbol p false depth [] s = .error .tooDeep
        case neg =>
          exact related_deepened (hbelow.symbol hs) hstuck (hfree.symbol trivial)
            (hguarded.symbol trivial)
        by_cases hmem : s.id ∈ busy
        -- The guard is hit, and the question was stuck without it.
        · obtain ⟨t, ht, hid, h⟩ := hbusy s.id hmem
          obtain rfl := hp t ht s hs hid
          rcases h with h | ⟨hkind, _⟩
          · exact .inl h
          · refine .inr ?_
            rw [entered_free]
            simp only [entered, hmem, and_self, if_true, Answers.ofSymbol, hkind]
            exact .ok rfl
        · have hcons : ∀ id ∈ s.id :: busy, Stuck p depth id :=
            List.forall_mem_cons.mpr ⟨⟨s, hs, rfl, .inl hstuck⟩, hshallow⟩
          rw [entered_free, entered_of_not_mem hmem]
          exact (ih _ hcons).of_symbol builds_blurred trivial (fun _ _ => ⟨trivial, hs⟩) fun _ =>
            Program.alias_end_mem_symbols hs
      · by_cases hstuck : ofNamedType p false depth [] s = .error .tooDeep
        case neg =>
          have hdeeper := related_deepened (hbelow.namedType hs) hstuck (hfree.namedType trivial)
            (hguarded.namedType trivial)
          rwa [← of_named_type_alias hkind, ← of_named_type_alias hkind]
        by_cases hmem : s.id ∈ busy
        · obtain ⟨t, ht, hid, h⟩ := hbusy s.id hmem
          obtain rfl := hp t ht s hs hid
          rcases h with h | ⟨_, h⟩
          -- The type of an alias is never stuck, so it is the question what the alias names.
          · simp [ofSymbol, hkind] at h
          · exact .inl (of_named_type_alias hkind ▸ h)
        · have hcons : ∀ id ∈ s.id :: busy, Stuck p depth id :=
            List.forall_mem_cons.mpr ⟨⟨s, hs, rfl, .inr ⟨hkind, hstuck⟩⟩, hshallow⟩
          rw [entered_free, entered_of_not_mem hmem]
          exact (ih _ hcons).of_type_alias builds_blurred fun _ _ _ _ => trivial

/-- A symbol with a type that is told without guards has that type with them, up to types that say
nothing. -/
theorem of_symbol_follows (hp : ∀ s ∈ p.symbols, ∀ t ∈ p.symbols, s.id = t.id → s = t)
    (depth : Nat) {s : BoundSymbol} (hs : s ∈ p.symbols) :
    Follows blurred (ofSymbol p false depth [] s) (ofSymbol p true depth [] s) :=
  Follows.iff_rel.mpr ((follows_of_stuck hp depth [] (by simp)).symbol hs)

end StaticLiteral.Typing
