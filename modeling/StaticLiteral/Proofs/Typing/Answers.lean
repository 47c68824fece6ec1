import StaticLiteral.Proofs.Typing.Steps

/-!
# What holds of every type that is told

Types are told at a depth, and every depth adds at most two levels to a type: an array of a union.
A property of types and heights that the ways of building types preserve holds of every type that is
told, at twice the depth: `Preserved.of_answer`. How far types extend and that their unions are in
normal form are such properties.
-/

namespace StaticLiteral

namespace Typing

/-- Every type that is an answer has the property. -/
abbrev Yields {α : Type} (property : α → Prop) : Except Failure α → Prop :=
  Ends property fun _ => True

/-- The types are the same and have the property. -/
def Same (property : BoundTy → Prop) (t u : BoundTy) : Prop := t = u ∧ property t

/-- Lists of the same types with the property are the same list of such types. -/
theorem forall₂_same_iff {property : BoundTy → Prop} {ts us : List BoundTy} :
    List.Forall₂ (Same property) ts us ↔ ts = us ∧ ∀ t ∈ ts, property t := by
  constructor
  · intro h
    induction h with
    | nil => simp
    | cons htu _ ih =>
        obtain ⟨rfl, ht⟩ := htu
        obtain ⟨rfl, hall⟩ := ih
        exact ⟨rfl, List.forall_mem_cons.mpr ⟨ht, hall⟩⟩
  · rintro ⟨rfl, h⟩
    exact List.forall₂_same.mpr fun t ht => ⟨rfl, h t ht⟩

/-- A property of types at heights that the ways of building types preserve, as long as the objects
in them belong to symbols of the program. -/
structure Preserved (p : Program) (property : Nat → BoundTy → Prop) : Prop where
  higher : ∀ {height : Nat} {t : BoundTy}, property height t → property (height + 1) t
  plain : ∀ {height : Nat} {t : BoundTy}, t.isPlain → property height t
  object : ∀ {height : Nat} {shape : ObjectShape} {symbol : Option BoundSymbol},
    (∀ s, symbol = some s → s ∈ p.symbols) → property height (.object shape symbol)
  reference : ∀ {height : Nat} {target : ReferenceTarget} {arguments : List BoundTy}
    {readonly : Bool}, (∀ t ∈ arguments, property height t) →
      property (height + 1) (.reference target arguments readonly)
  arguments : ∀ {height : Nat} {target : ReferenceTarget} {arguments : List BoundTy}
    {readonly : Bool}, property height (.reference target arguments readonly) →
      ∀ t ∈ arguments, property height t
  unionOf : ∀ {height : Nat} {ts : List BoundTy}, (∀ t ∈ ts, property height t) →
    property (height + 1) (.unionOf ts)

namespace Preserved

variable {p : Program} {property : Nat → BoundTy → Prop} (h : Preserved p property)
  {height : Nat} {t : BoundTy} {ts : List BoundTy}
include h

/-- Widening preserves the property. -/
theorem widened (ht : property height t) : property height t.widened := by
  unfold Ty.widened
  split
  any_goals exact h.plain rfl
  exact ht

/-- The readonly form of a type has the property. -/
theorem as_readonly (ht : property height t) : property (height + 1) t.asReadonly := by
  unfold Ty.asReadonly
  split
  case h_3 => exact h.higher ht
  all_goals exact h.reference (h.arguments ht)

/-- The elements that a spread adds have the property. -/
theorem spread (ht : property height t) :
    ∀ element ∈ Typing.spread t, property (height + 1) element := by
  unfold Typing.spread
  split
  · exact fun element helement => h.higher (h.arguments ht element helement)
  · simpa using h.unionOf (h.arguments ht)
  · simpa using h.plain rfl

/-- The type of an array has the property. -/
theorem of_array (isConst : Bool) (hts : ∀ t ∈ ts, property height t) :
    property (height + 2) (Typing.ofArray isConst ts) := by
  unfold Typing.ofArray
  split
  · exact h.higher (h.reference hts)
  · have hwidened : ∀ t ∈ ts.map Ty.widened, property height t := by
      intro t ht
      obtain ⟨u, hu, rfl⟩ := List.mem_map.mp ht
      exact h.widened (hts u hu)
    exact h.reference (by simpa using h.unionOf hwidened)

/-- A generic type without a declaration has the property. -/
theorem of_builtin (name : Text) (hts : ∀ t ∈ ts, property height t) :
    property (height + 1) (Typing.ofBuiltin name ts) := by
  have hhead : property height (ts.head?.getD .unknown) := by
    cases ts with
    | nil => exact h.plain rfl
    | cons t ts => exact hts t (by simp)
  unfold Typing.ofBuiltin
  split
  · exact h.reference (by simpa using hhead)
  · split
    · exact h.reference (by simpa using hhead)
    · split
      · split
        · exact h.as_readonly (hts _ (by simp))
        · exact h.plain rfl
      · exact h.plain rfl

/-- Whatever typing builds of types with the property has it at a height that is greater by two. -/
theorem builds :
    Builds (· ∈ p.symbols) (Same (property height)) (Same (property (height + 2))) where
  kept ht := ⟨ht.1, h.higher (h.higher ht.2)⟩
  plain ht := ⟨rfl, h.plain ht⟩
  object hsymbol := ⟨rfl, h.object hsymbol⟩
  reference hts := by
    obtain ⟨rfl, hall⟩ := forall₂_same_iff.mp hts
    exact ⟨rfl, h.higher (h.reference hall)⟩
  unionOf hts := by
    obtain ⟨rfl, hall⟩ := forall₂_same_iff.mp hts
    exact ⟨rfl, h.higher (h.unionOf hall)⟩
  widened := by
    rintro t _ ⟨rfl, ht⟩
    exact ⟨rfl, h.widened (h.higher (h.higher ht))⟩
  asReadonly := by
    rintro t _ ⟨rfl, ht⟩
    exact ⟨rfl, h.higher (h.as_readonly ht)⟩
  signed ht operator n := by rw [ht.1]
  spread := by
    rintro t _ ⟨rfl, ht⟩
    exact forall₂_same_iff.mpr ⟨rfl, fun u hu => h.higher (h.spread ht u hu)⟩
  array hts isConst := by
    obtain ⟨rfl, hall⟩ := forall₂_same_iff.mp hts
    exact ⟨rfl, h.of_array isConst hall⟩
  builtin hts name := by
    obtain ⟨rfl, hall⟩ := forall₂_same_iff.mp hts
    exact ⟨rfl, h.higher (h.of_builtin name hall)⟩

/-- Whatever is told at a depth has the property at twice the height. -/
theorem of_answer (guarded : Bool) (depth : Nat) :
    ∀ busy, Related .parallel (Same (property (2 * depth))) (.ofProgram p)
      (answers p guarded depth busy) (answers p guarded depth busy) := by
  induction depth with
  | zero =>
      intro busy
      constructor
      all_goals intros; exact rfl
  | succ depth ih =>
      intro busy
      rw [show 2 * (depth + 1) = 2 * depth + 2 by omega, answers_succ]
      have hany : Same (property (2 * depth + 2)) .any .any := h.builds.plain rfl
      refine (ih busy).step h.builds descends_of_program (fun s hs => ?_) fun s hs =>
        ⟨hs, fun _ => ?_⟩
      · refine entered_related _ hany .rfl fun _ => ?_
        exact (ih _).of_symbol h.builds hs (fun _ _ => ⟨trivial, hs⟩) fun _ =>
          Program.alias_end_mem_symbols hs
      · refine entered_related _ hany .rfl fun _ => ?_
        exact (ih _).of_type_alias h.builds fun _ _ _ _ => trivial

end Preserved

end Typing

end StaticLiteral
