import StaticLiteral.Program.Typing
import StaticLiteral.Proofs.Number.Reading
import StaticLiteral.Proofs.Program.Imports

/-!
# Tuples of constant assertions

`Evaluates` says what an expression of literals, arrays and spreads evaluates to, where a name
stands for the initial value of its variable; `Tells` says which types leave no choice about a
value. Both count the levels of what they speak of, since typing goes some steps down for each of
them. `finds_of_evaluates` says that typing finds the type that tells the value: it puts the
elements of a spread in the place of the spread, as evaluation does.
-/

namespace StaticLiteral

/-- Behind all aliases the symbol is a variable without an annotation, and its initial value is
asserted to be constant. -/
structure Program.IsInitialized (p : Program) (s : BoundSymbol) (init : Node) : Prop where
  kind : (p.aliasEnd s).kind = .blockScopedVariable ∨
    (p.aliasEnd s).kind = .functionScopedVariable
  declaration : ∃ i name,
    (p.aliasEnd s).declaration = some (.variableDeclaration i name none (some init))
  isConst : Typing.isConstContext init

mutual

/-- The value of an expression with at most so many levels, those behind names included. -/
inductive Evaluates (p : Program) : Nat → Node → Value → Prop
  | text {height : Nat} {i : Info} {t : Text} : Evaluates p height (.stringLiteral i t) (.text t)
  | number {height : Nat} {i : Info} {t : Text} {q : ℚ} {m : Option Magnitude}
      (ht : NumericLiteral.Denotes t q) (hm : Rounding.Rounds q m) :
      Evaluates p height (.numericLiteral i t) (.number (Rounding.signed false m))
  | negative {height : Nat} {i j : Info} {t : Text} {x : Double}
      (h : Evaluates p height (.numericLiteral j t) (.number x)) :
      Evaluates p height (.prefixUnaryExpression i (Text.ofString "-") (.numericLiteral j t))
        (.number x.negate)
  | parenthesized {height : Nat} {i : Info} {e : Node} {v : Value} (h : Evaluates p height e v) :
      Evaluates p (height + 1) (.parenthesizedExpression i e) v
  | asserted {height : Nat} {i j : Info} {e : Node} {v : Value} (h : Evaluates p height e v) :
      Evaluates p (height + 1) (.asExpression i e (.keywordType j (Text.ofString "const"))) v
  | assertedBefore {height : Nat} {i j : Info} {e : Node} {v : Value} (h : Evaluates p height e v) :
      Evaluates p (height + 1) (.typeAssertion i (.keywordType j (Text.ofString "const")) e) v
  | array {height : Nat} {i : Info} {es : List Node} {items : List (Option Value)}
      (h : EvaluatesAll p height es items) :
      Evaluates p (height + 1) (.arrayLiteral i es) (.array items)
  | name {height : Nat} {i : Info} {t : Text} {s : BoundSymbol} {init : Node} {v : Value}
      (hs : p.symbolAt? (.identifier i t) = some s) (hinit : p.IsInitialized s init)
      (h : Evaluates p height init v) : Evaluates p (height + 1) (.identifier i t) v

/-- The items that the elements of an array evaluate to; a hole is an item without a value. -/
inductive EvaluatesAll (p : Program) : Nat → List Node → List (Option Value) → Prop
  | nil {height : Nat} : EvaluatesAll p height [] []
  | hole {height : Nat} {i : Info} {es : List Node} {items : List (Option Value)}
      (h : EvaluatesAll p height es items) :
      EvaluatesAll p height (.omittedExpression i :: es) (none :: items)
  | spread {height : Nat} {i : Info} {e : Node} {es : List Node}
      {inner items : List (Option Value)} (he : Evaluates p height e (.array inner))
      (h : EvaluatesAll p height es items) :
      EvaluatesAll p height (.spreadElement i e :: es) (inner ++ items)
  | element {height : Nat} {e : Node} {es : List Node} {v : Value} {items : List (Option Value)}
      (he : Evaluates p height e v) (h : EvaluatesAll p height es items) :
      EvaluatesAll p height (e :: es) (some v :: items)

end

mutual

/-- The type leaves no choice about the value, which has at most so many levels. -/
inductive Tells : Nat → BoundTy → Value → Prop
  | text {height : Nat} {t : Text} : Tells height (.literal (.text t)) (.text t)
  | number {height : Nat} {x : Double} : Tells height (.literal (.number x)) (.number x)
  | array {height : Nat} {types : List BoundTy} {items : List (Option Value)}
      (h : TellsAll height types items) :
      Tells (height + 1) (.reference .tuple types true) (.array items)

/-- The types leave no choice about the items. -/
inductive TellsAll : Nat → List BoundTy → List (Option Value) → Prop
  | nil {height : Nat} : TellsAll height [] []
  | hole {height : Nat} {types : List BoundTy} {items : List (Option Value)}
      (h : TellsAll height types items) : TellsAll height (.undefined :: types) (none :: items)
  | element {height : Nat} {type : BoundTy} {types : List BoundTy} {v : Value}
      {items : List (Option Value)} (hv : Tells height type v) (h : TellsAll height types items) :
      TellsAll height (type :: types) (some v :: items)

end

mutual

/-- A type tells a value also when more levels are allowed. -/
theorem Tells.succ {height : Nat} {type : BoundTy} {v : Value} :
    Tells height type v → Tells (height + 1) type v
  | .text => .text
  | .number => .number
  | .array h => .array h.succ

/-- Types tell items also when more levels are allowed. -/
theorem TellsAll.succ {height : Nat} {types : List BoundTy} {items : List (Option Value)} :
    TellsAll height types items → TellsAll (height + 1) types items
  | .nil => .nil
  | .hole h => .hole h.succ
  | .element hv h => .element hv.succ h.succ

end

variable {p : Program} {height : Nat} {type : BoundTy} {types : List BoundTy} {n : Node} {v : Value}
  {items : List (Option Value)}

/-- Types that tell items one after another tell them together. -/
theorem TellsAll.append {more : List BoundTy} {rest : List (Option Value)}
    (h : TellsAll height types items) (hrest : TellsAll height more rest) :
    TellsAll height (types ++ more) (items ++ rest) := by
  induction types generalizing items with
  | nil =>
      cases h
      exact hrest
  | cons type types ih =>
      cases h with
      | hole h => exact .hole (ih h)
      | element hv h => exact .element hv (ih h)

namespace Typing

/-- The elements that a spread of a type adds tell the items of the array that the type tells. -/
theorem tells_spread (h : Tells height type (.array items)) :
    TellsAll height (spread type) items := by
  cases h with
  | array h => exact h.succ

/-- Without guards, a symbol has the type of the initial value of its variable: two steps for the
variable, and one for all aliases before it. -/
theorem of_symbol_initialized {s : BoundSymbol} {init : Node} (hinit : p.IsInitialized s init)
    (htype : ∀ depth busy, 4 * height + 2 ≤ depth →
      ofExpression p false depth busy false init = .ok type) (depth : Nat) (busy : List SymbolId)
    (hdepth : 4 * height + 5 ≤ depth) : ofSymbol p false depth busy s = .ok type := by
  obtain ⟨i, name, hdeclaration⟩ := hinit.declaration
  have hend : ∀ depth busy, 4 * height + 4 ≤ depth →
      ofSymbol p false depth busy (p.aliasEnd s) = .ok type := by
    intro depth busy hdepth
    obtain ⟨depth, rfl⟩ := Nat.exists_eq_add_of_le' (by omega : 2 ≤ depth)
    have hexpression := htype depth ((p.aliasEnd s).id :: busy) (by omega)
    rcases hinit.kind with hkind | hkind
    all_goals
      simp only [ofSymbol, hkind, hdeclaration, ofVariable, hexpression, hinit.isConst]
      simp
  obtain ⟨depth, rfl⟩ := Nat.exists_eq_add_of_le' (by omega : 1 ≤ depth)
  by_cases halias : s.kind.isAlias
  · obtain ⟨origin, hkind⟩ : ∃ origin, s.kind = .aliasOf origin := by
      cases hkind : s.kind <;> simp_all [SymbolKind.isAlias]
    have hvariable : ¬ ((p.aliasEnd s).kind.isAlias ∨ (p.aliasEnd s).kind = .unknown) := by
      rcases hinit.kind with hkind | hkind <;> simp [hkind, SymbolKind.isAlias]
    simp only [ofSymbol, hkind, if_neg hvariable]
    exact hend depth _ (by omega)
  · have hsame : p.aliasEnd s = s := Program.alias_end_of_not_alias (by simpa using halias)
    exact hsame ▸ hend (depth + 1) busy (by omega)

/-- A number literal has the type of the number that it denotes, rounded to a double. -/
theorem of_numeric_of_rounds {t : Text} {q : ℚ} {m : Option Magnitude}
    (ht : NumericLiteral.Denotes t q) (hm : Rounding.Rounds q m) :
    ofNumeric t = .literal (.number (Rounding.signed false m)) := by
  obtain ⟨rounded, hrounded, hvalue⟩ := NumericLiteral.rounds_of_denotes ht
  obtain rfl := hm.unique hrounded
  rw [ofNumeric, hvalue]

/-- Typing finds the type that tells the value where the expression is asserted to be constant or
stands in what is. -/
def Finds (p : Program) (height : Nat) (n : Node) (v : Value) : Prop :=
  ∃ type, Tells height type v ∧
    ∀ depth busy isConst, 4 * height + 2 ≤ depth → (isConst || isConstContext n) →
      ofExpression p false depth busy isConst n = .ok type

/-- What typing finds for an expression it finds for one that wraps it. -/
theorem Finds.wrapped {e : Node} (h : Finds p height e v)
    (hn : ∀ depth busy isConst, (isConst || isConstContext n) →
      ∃ asserted, (asserted || isConstContext e) ∧
        ofExpression p false (depth + 1) busy isConst n =
          ofExpression p false depth busy asserted e) : Finds p (height + 1) n v := by
  obtain ⟨type, htells, htype⟩ := h
  refine ⟨type, htells.succ, fun depth busy isConst hdepth hconst => ?_⟩
  obtain ⟨depth, rfl⟩ := Nat.exists_eq_add_of_le' (by omega : 1 ≤ depth)
  obtain ⟨asserted, hasserted, heq⟩ := hn depth busy isConst hconst
  rw [heq, htype depth busy asserted (by omega) hasserted]

/-- An expression with a value is neither a hole nor a spread: it adds its own type to an array. -/
theorem of_element_of_evaluates (h : Evaluates p height n v) (depth : Nat) (busy : List SymbolId)
    (isConst : Bool) :
    ofElement p false (depth + 1) busy isConst n =
      (fun type => [type]) <$> ofExpression p false depth busy isConst n := by
  cases h <;> rfl

mutual

/-- Typing finds the type that tells the value that an expression evaluates to. -/
theorem finds_of_evaluates {p : Program} {height : Nat} {n : Node} {v : Value} :
    Evaluates p height n v → Finds p height n v
  | .text => by
      refine ⟨_, .text, fun depth busy isConst hdepth _ => ?_⟩
      obtain ⟨depth, rfl⟩ := Nat.exists_eq_add_of_le' (by omega : 1 ≤ depth)
      rfl
  | .number ht hm => by
      refine ⟨_, .number, fun depth busy isConst hdepth _ => ?_⟩
      obtain ⟨depth, rfl⟩ := Nat.exists_eq_add_of_le' (by omega : 1 ≤ depth)
      exact congrArg Except.ok (of_numeric_of_rounds ht hm)
  | .negative (.number ht hm) => by
      refine ⟨_, .number, fun depth busy isConst hdepth _ => ?_⟩
      obtain ⟨depth, rfl⟩ := Nat.exists_eq_add_of_le' (by omega : 2 ≤ depth)
      simp only [ofExpression, of_numeric_of_rounds ht hm]
      rfl
  | .parenthesized h => (finds_of_evaluates h).wrapped fun _ _ isConst h => ⟨isConst, h, rfl⟩
  | .asserted h => (finds_of_evaluates h).wrapped fun _ _ _ _ => ⟨true, rfl, rfl⟩
  | .assertedBefore h => (finds_of_evaluates h).wrapped fun _ _ _ _ => ⟨true, rfl, rfl⟩
  | .array h => by
      obtain ⟨parts, htells, htypes⟩ := exists_types_of_evaluates_all h
      refine ⟨_, .array htells, fun depth busy isConst hdepth hconst => ?_⟩
      obtain ⟨depth, rfl⟩ := Nat.exists_eq_add_of_le' (by omega : 1 ≤ depth)
      obtain rfl : isConst = true := by simpa [isConstContext, Node.isConstAssertion] using hconst
      simp only [ofExpression, htypes depth busy (by omega)]
      rfl
  | .name hs hinit h => by
      obtain ⟨type, htells, htype⟩ := finds_of_evaluates h
      refine ⟨type, htells.succ, fun depth busy isConst hdepth _ => ?_⟩
      obtain ⟨depth, rfl⟩ := Nat.exists_eq_add_of_le' (by omega : 1 ≤ depth)
      simp only [ofExpression, hs]
      -- What is asserted around a name does not reach the initial value: it has its own assertion.
      exact of_symbol_initialized hinit
        (fun depth busy hdepth => htype depth busy false hdepth hinit.isConst) depth busy (by omega)

/-- Typing finds types for the elements of an array that is asserted to be constant; put together
they tell the items of the array. -/
theorem exists_types_of_evaluates_all {p : Program} {height : Nat} {es : List Node}
    {items : List (Option Value)} :
    EvaluatesAll p height es items → ∃ parts, TellsAll height parts.flatten items ∧
      ∀ depth busy, 4 * height + 3 ≤ depth →
        es.mapM (ofElement p false depth busy true) = .ok parts
  | .nil => ⟨[], .nil, fun _ _ _ => rfl⟩
  | .hole h => by
      obtain ⟨parts, htells, htypes⟩ := exists_types_of_evaluates_all h
      refine ⟨[.undefined] :: parts, .hole htells, fun depth busy hdepth => ?_⟩
      have hrest := htypes depth busy hdepth
      obtain ⟨depth, rfl⟩ := Nat.exists_eq_add_of_le' (by omega : 1 ≤ depth)
      rw [List.mapM_cons, hrest]
      rfl
  | .spread he h => by
      obtain ⟨type, hspread, htype⟩ := finds_of_evaluates he
      obtain ⟨parts, htells, htypes⟩ := exists_types_of_evaluates_all h
      refine ⟨spread type :: parts, (tells_spread hspread).append htells,
        fun depth busy hdepth => ?_⟩
      have hrest := htypes depth busy hdepth
      obtain ⟨depth, rfl⟩ := Nat.exists_eq_add_of_le' (by omega : 1 ≤ depth)
      rw [List.mapM_cons, hrest, ofElement, htype depth busy true (by omega) rfl]
      rfl
  | .element he h => by
      obtain ⟨type, helement, htype⟩ := finds_of_evaluates he
      obtain ⟨parts, htells, htypes⟩ := exists_types_of_evaluates_all h
      refine ⟨[type] :: parts, .element helement htells, fun depth busy hdepth => ?_⟩
      have hrest := htypes depth busy hdepth
      obtain ⟨depth, rfl⟩ := Nat.exists_eq_add_of_le' (by omega : 1 ≤ depth)
      rw [List.mapM_cons, hrest, of_element_of_evaluates he, htype depth busy true (by omega) rfl]
      rfl

end

end Typing

end StaticLiteral
