import StaticLiteral.Proofs.Program.MemberSymbols
import StaticLiteral.Proofs.Typing.Termination

/-!
# The types of members

A constant assertion reaches the elements of the arrays in it, but not the properties of its
objects: wherever an object literal stands, a property has the type that its value has by itself,
widened unless the value is asserted to be constant. `member_type_iff` says which values have this
type in a constant assertion too.
-/

namespace StaticLiteral

/-- Only literal types are widened. -/
theorem Ty.widened_eq_self_iff {ι : Type} {t : Ty ι} : t.widened = t ↔ ∀ v, t ≠ .literal v := by
  cases t with
  | literal v => cases v <;> simp [Ty.widened]
  | _ => simp [Ty.widened]

namespace Node

/-- Whether the expression is an array literal, but for parentheses and types that it satisfies. -/
def wrapsArray : Node → Bool
  | parenthesizedExpression _ e | satisfiesExpression _ e _ => wrapsArray e
  | arrayLiteral .. => true
  | _ => false

end Node

namespace Typing

variable {p : Program} {guarded : Bool} {n : Node}

/-- What is asserted to be constant is no array literal. -/
theorem not_wraps_array_of_const_context (h : isConstContext n) : n.wrapsArray = false := by
  induction n using isConstContext.induct with
  | case1 i e ih => exact ih h
  | case2 e hwraps => cases e <;> simp_all [isConstContext, Node.isConstAssertion, Node.wrapsArray]

/-- Only array literals have another type in a constant assertion. -/
theorem of_expression_eq_of_not_wraps (h : n.wrapsArray = false) (depth : Nat)
    (busy : List SymbolId) (isConst : Bool) :
    ofExpression p guarded depth busy isConst n = ofExpression p guarded depth busy false n := by
  induction depth generalizing n with
  | zero => rfl
  | succ depth ih =>
      cases n with
      | parenthesizedExpression i e | satisfiesExpression i e type => exact ih h
      | arrayLiteral i elements => cases h
      | _ => rfl

/-- An array literal has the type of an array, or of a tuple in a constant assertion. -/
theorem exists_of_array_of_wraps {depth : Nat} {busy : List SymbolId} {isConst : Bool} {t : BoundTy}
    (h : n.wrapsArray) (ht : ofExpression p guarded depth busy isConst n = .ok t) :
    ∃ ts, t = ofArray isConst ts := by
  induction depth generalizing n with
  | zero => cases ht
  | succ depth ih =>
      cases n with
      | parenthesizedExpression i e | satisfiesExpression i e type => exact ih (n := e) h ht
      | arrayLiteral i elements =>
          obtain ⟨lists, _, rfl⟩ := map_eq_ok_iff.mp ht
          exact ⟨lists.flatten, rfl⟩
      | _ => cases h

/-- A value asserted to be constant has the same type in a constant assertion; any other value, if
it is no array literal and its type there is no literal type, has it after widening. -/
theorem widened_eq_asserted_iff {depth : Nat} {busy : List SymbolId} {inferred asserted : BoundTy}
    (hinferred : ofExpression p guarded depth busy false n = .ok inferred)
    (hasserted : ofExpression p guarded depth busy true n = .ok asserted) :
    (if isConstContext n then inferred else inferred.widened) = asserted ↔
      isConstContext n ∨ n.wrapsArray = false ∧ ∀ v, asserted ≠ .literal v := by
  cases hwraps : n.wrapsArray with
  | false =>
      obtain rfl : inferred = asserted := by
        rw [of_expression_eq_of_not_wraps hwraps, hinferred] at hasserted
        exact Except.ok.inj hasserted
      by_cases hconst : isConstContext n
      · simp [hconst]
      · simp [hconst, Ty.widened_eq_self_iff]
  | true =>
      have hconst : ¬ isConstContext n := fun h => by
        simp [not_wraps_array_of_const_context h] at hwraps
      obtain ⟨ts, rfl⟩ := exists_of_array_of_wraps hwraps hinferred
      obtain ⟨us, rfl⟩ := exists_of_array_of_wraps hwraps hasserted
      simp [hconst, ofArray, Ty.widened]

end Typing

namespace Program

open Binding Typing

variable {config : Config} {sources : List SourceFile} {i j : Info} {name init : Node}
  {properties : List Node} {text : Text} {member s : BoundSymbol}
  (hplaced : (ofSources config sources).Placed (.objectLiteral i properties))
  (hs : (ofSources config sources).literalSymbol? (.objectLiteral i properties) = some s)
  (hproperty : .propertyAssignment j name init ∈ properties)
  (hmember : memberRow? (.propertyAssignment j name init) = some (text, member))
include hplaced hs hproperty hmember

/-- A property has the type of its value, which does not depend on the property. -/
theorem of_symbol_of_member (depth : Nat) :
    ofSymbol (ofSources config sources) true (depth + 2) [] member = (do
      let type ← ofExpression (ofSources config sources) true depth [] false init
      return if isConstContext init then type else type.widened) := by
  have hinit : init.identifier?.isSome → init.id ≠ name.id := fun _ hid => by
    obtain ⟨hassignment, hname, hinit⟩ := placed_of_property hplaced hproperty
    exact hassignment.key_ne_value (hname.eq_of_id_eq hinit hid.symm)
  have hbusy := busy_congr (enclosed_of_member hplaced hs hproperty hmember) depth [member.id] []
    fun t ht => by simp [ht.2]
  have hparallel := hbusy.expression ⟨(placed_of_property hplaced hproperty).2.2, hinit⟩ false
  have hsame : ofExpression (ofSources config sources) true depth [] false init =
      ofExpression (ofSources config sources) true depth [member.id] false init :=
    hparallel.eq_of_imp fun _ _ heq => heq
  rw [hsame, member_eq_of_row hmember]
  rfl

/-- Wherever an object literal stands, a property has the type that its value has by itself, widened
unless the value is asserted to be constant. This is the type that the value has in a constant
assertion exactly if it is asserted itself, or is no array literal and has no literal type there. -/
theorem member_type_iff :
    ∃ inferred asserted type enough,
      (∀ depth, enough ≤ depth →
        ofExpression (ofSources config sources) true depth [] false init = .ok inferred ∧
        ofExpression (ofSources config sources) true depth [] true init = .ok asserted ∧
        ofSymbol (ofSources config sources) true depth [] member = .ok type) ∧
      (∀ t, (ofSources config sources).typeOf member = .ok t → t = type) ∧
      type = (if isConstContext init then inferred else inferred.widened) ∧
      (type = asserted ↔
        isConstContext init ∨ init.wrapsArray = false ∧ ∀ v, asserted ≠ .literal v) := by
  let p := ofSources config sources
  let enough := p.typingDepth [] + 2 * init.height + 3
  have htold : ∀ isConst, ∃ t, ofExpression p true (enough - 2) [] isConst init = .ok t :=
    fun isConst => of_expression_terminates (by omega) isConst
  obtain ⟨inferred, hinferred⟩ := htold false
  obtain ⟨asserted, hasserted⟩ := htold true
  have hdeeper : ∀ {depth isConst t}, enough - 2 ≤ depth →
      ofExpression p true (enough - 2) [] isConst init = .ok t →
      ofExpression p true depth [] isConst init = .ok t := fun hle h =>
    (of_expression_deepened hle [] _ init).eq_ok h
  have htype : ∀ depth, enough ≤ depth → ofSymbol p true depth [] member =
      .ok (if isConstContext init then inferred else inferred.widened) := by
    intro depth hle
    obtain ⟨depth, rfl⟩ : ∃ k, depth = k + 2 := ⟨depth - 2, by omega⟩
    rw [of_symbol_of_member hplaced hs hproperty hmember, hdeeper (by omega) hinferred]
    rfl
  refine ⟨inferred, asserted, _, enough, fun depth hle => ⟨hdeeper (by omega) hinferred,
    hdeeper (by omega) hasserted, htype depth hle⟩, fun t ht => ?_, rfl,
    widened_eq_asserted_iff hinferred hasserted⟩
  have hdeep := (of_symbol_deepened (Nat.le_max_left depthLimit enough) [] member).eq_ok ht
  exact Except.ok.inj (hdeep.symm.trans (htype _ (Nat.le_max_right depthLimit enough)))

omit hplaced hs hproperty hmember

/-- The law at a property that is null in a constant assertion. -/
theorem member_type_iff_null :
    let path := Text.ofString "a"
    let name (t : String) := Node.identifier {} (Text.ofString t)
    let assignment := Node.propertyAssignment {} (name "a") (.nullKeyword {})
    let asserted := Node.asExpression {} (.objectLiteral {} [assignment])
      (.keywordType {} (Text.ofString "const"))
    let p := ofSources {} [{ fileName := path, statements := [.variableStatement {} .const
      [.variableDeclaration {} (name "o") none (some asserted)] false false] }]
    let literal := Node.place path [0, 2, 0, 0, 0, 0] (.objectLiteral {} [assignment])
    let property := Node.place path [0, 0, 0, 2, 0, 0, 0, 0] assignment
    let init := Node.place path [1, 0, 0, 0, 2, 0, 0, 0, 0] (.nullKeyword {})
    p.Placed literal ∧ (∃ s, p.literalSymbol? literal = some s) ∧ property ∈ literal.children ∧
      ∃ text member, memberRow? property = some (text, member) ∧
        ∃ inferred asserted type enough,
          (∀ depth, enough ≤ depth →
            ofExpression p true depth [] false init = .ok inferred ∧
            ofExpression p true depth [] true init = .ok asserted ∧
            ofSymbol p true depth [] member = .ok type) ∧
          (∀ t, p.typeOf member = .ok t → t = type) ∧
          type = (if isConstContext init then inferred else inferred.widened) ∧
          (type = asserted ↔
            isConstContext init ∨ init.wrapsArray = false ∧ ∀ v, asserted ≠ .literal v) := by
  intro path name assignment asserted p literal property init
  have hplaced : p.Placed literal :=
    ⟨_, List.mem_singleton_self _, List.mem_of_getElem? (i := 5) (by cbv)⟩
  have hs : p.literalSymbol? literal = some (literalSymbol .objectLiteral "__object" literal) := by
    cbv
  have hproperty : property ∈ literal.children := List.mem_of_getElem? (i := 0) (by cbv)
  exact ⟨hplaced, ⟨_, hs⟩, hproperty, _, _, rfl,
    member_type_iff hplaced hs (List.mem_singleton_self _) rfl⟩

/-- The expression stands in a constant assertion: it is what is asserted, or it is in parentheses,
an element of an array or the value of a property there. -/
inductive InConstContext (p : Program) : Node → Prop where
  | asserted {i : Info} {e type : Node} (h : p.Placed (.asExpression i e type))
      (hconst : (Node.asExpression i e type).isConstAssertion) : InConstContext p e
  | assertedBefore {i : Info} {e type : Node} (h : p.Placed (.typeAssertion i type e))
      (hconst : (Node.typeAssertion i type e).isConstAssertion) : InConstContext p e
  | parenthesized {i : Info} {e : Node} (h : InConstContext p (.parenthesizedExpression i e)) :
      InConstContext p e
  | element {i : Info} {e : Node} {es : List Node} (h : InConstContext p (.arrayLiteral i es))
      (he : e ∈ es) : InConstContext p e
  | value {i j : Info} {name init : Node} {properties : List Node}
      (h : InConstContext p (.objectLiteral i properties))
      (hproperty : .propertyAssignment j name init ∈ properties) : InConstContext p init

/-- A text that is a property of an object asserted to be constant is widened. -/
theorem member_widened_in_const_context :
    let path := Text.ofString "a"
    let name (t : String) := Node.identifier {} (Text.ofString t)
    let value := Node.stringLiteral {} (Text.ofString "x")
    let assignment := Node.propertyAssignment {} (name "a") value
    let asserted := Node.asExpression {} (.objectLiteral {} [assignment])
      (.keywordType {} (Text.ofString "const"))
    let p := ofSources {} [{ fileName := path, statements := [.variableStatement {} .const
      [.variableDeclaration {} (name "o") none (some asserted)] false false] }]
    let literal := Node.place path [0, 2, 0, 0, 0, 0] (.objectLiteral {} [assignment])
    let init := Node.place path [1, 0, 0, 0, 2, 0, 0, 0, 0] value
    p.InConstContext literal ∧ ∃ s member, p.literalSymbol? literal = some s ∧
      p.members s = [(Text.ofString "a", member)] ∧ p.typeOf member = .ok .string ∧
      ofExpression p true depthLimit [] true init = .ok (.literal (.text (Text.ofString "x"))) := by
  intro path name value assignment asserted p literal init
  have hplaced : p.Placed (Node.place path [2, 0, 0, 0, 0] asserted) :=
    ⟨_, List.mem_singleton_self _, List.mem_of_getElem? (i := 4) (by cbv)⟩
  refine ⟨.asserted hplaced (by decide +kernel), literalSymbol .objectLiteral "__object" literal, _,
    by cbv, by cbv, by cbv, by cbv⟩

end Program

end StaticLiteral
