import StaticLiteral.Program.Report
import StaticLiteral.Proofs.Resolution.Guards
import StaticLiteral.Proofs.Typing.Tuples
import StaticLiteral.Proofs.Values

/-!
# Variables with arrays that are asserted to be constant

A name of a `var` resolves through the type of the variable. `asserted_array_flattened` says that it
resolves to the list that the initial value evaluates to, with the items of every spread in its
place, if this value is an array that is asserted to be constant.
-/

namespace StaticLiteral

namespace Resolution

open Typing (finds_of_evaluates of_symbol_initialized)

mutual

/-- A type that tells a value resolves to it, one step for each level. -/
theorem of_type_of_tells {p : Program} {typing : Nat} {guarded : Bool} {height : Nat}
    {type : BoundTy} {v : Value} : Tells height type v → ∀ depth busy, height < depth →
      ofType (p.modelWithin typing guarded) depth busy type = .ok (some v)
  | .text, depth, busy, hdepth => by
      obtain ⟨depth, rfl⟩ := Nat.exists_eq_add_of_le' hdepth
      rfl
  | .number, depth, busy, hdepth => by
      obtain ⟨depth, rfl⟩ := Nat.exists_eq_add_of_le' hdepth
      rfl
  | .array h, depth, busy, hdepth => by
      obtain ⟨depth, rfl⟩ := Nat.exists_eq_add_of_le' (by omega : 1 ≤ depth)
      exact bind_eq_ok_iff.mpr ⟨_, map_of_type_of_tells_all h depth busy (by omega), rfl⟩

/-- Types that tell items resolve to them. -/
theorem map_of_type_of_tells_all {p : Program} {typing : Nat} {guarded : Bool} {height : Nat}
    {types : List BoundTy} {items : List (Option Value)} :
    TellsAll height types items → ∀ depth busy, height < depth →
      types.mapM (ofType (p.modelWithin typing guarded) depth busy) = .ok items
  | .nil, _, _, _ => rfl
  | .hole h, depth, busy, hdepth => by
      obtain ⟨depth, rfl⟩ := Nat.exists_eq_add_of_le' (by omega : 1 ≤ depth)
      rw [List.mapM_cons, map_of_type_of_tells_all h (depth + 1) busy hdepth]
      rfl
  | .element hv h, depth, busy, hdepth => by
      rw [List.mapM_cons, of_type_of_tells hv depth busy hdepth,
        map_of_type_of_tells_all h depth busy hdepth]
      rfl

end

variable {p : Program} {height : Nat} {s : BoundSymbol} {init : Node} {v : Value}

/-- A `var` stands, one alias on or more, for what its type resolves to. -/
theorem symbol_value_of_var (hkind : (p.aliasEnd s).kind = .functionScopedVariable)
    {model : SemanticModel SymbolId BoundTy} (ofDeclaration : Node → Answer)
    (ofType : BoundTy → Answer) :
    symbolValue model ofDeclaration ofType s = model.typeOf s >>= ofType := by
  cases hs : s.kind with
  | aliasOf origin =>
      unfold symbolValue
      simp [hs]
  | _ =>
      have hsame : p.aliasEnd s = s :=
        Program.alias_end_of_not_alias (by simp [hs, SymbolKind.isAlias])
      rw [hsame] at hkind
      unfold symbolValue
      simp [hkind]

/-- Without guards, the name of a `var` resolves to what the initial value evaluates to. -/
theorem of_node_of_evaluates (hp : ∀ s ∈ p.symbols, ∀ t ∈ p.symbols, s.id = t.id → s = t)
    {i : Info} {text : Text} (hs : p.symbolAt? (.identifier i text) = some s)
    (hkind : (p.aliasEnd s).kind = .functionScopedVariable) (hinit : p.IsInitialized s init)
    (hvalue : Evaluates p height init v) {typing depth : Nat} (htyping : 4 * height + 5 ≤ typing)
    (hdepth : height + 3 ≤ depth) :
    ofNode (p.modelWithin typing false) depth [] (.identifier i text) = .ok (some v) := by
  obtain ⟨type, htells, htype⟩ := finds_of_evaluates hvalue
  -- The resolver follows one alias, and typing all that are left.
  have hvariable : (p.aliasEnd s).kind.isAlias = false := by simp [hkind, SymbolKind.isAlias]
  obtain ⟨target, hfollowed, hend⟩ : ∃ target,
      followed (p.modelWithin typing false) s = .ok target ∧
        p.aliasEnd target = p.aliasEnd s := by
    unfold followed
    split
    case isTrue halias =>
      exact ⟨p.aliased s, rfl, Program.alias_end_aliased hp halias hvariable⟩
    case isFalse => exact ⟨s, rfl, rfl⟩
  have hsymbol : Typing.ofSymbol p false typing [] target = .ok type :=
    of_symbol_initialized ⟨hend ▸ hinit.kind, hend ▸ hinit.declaration, hinit.isConst⟩
      (fun depth busy hdepth => htype depth busy false hdepth hinit.isConst) typing [] htyping
  obtain ⟨depth, rfl⟩ := Nat.exists_eq_add_of_le' (by omega : 2 ≤ depth)
  have hunguarded : ¬ ((p.modelWithin typing false).guarded ∧ target.id ∈ []) := by simp
  have htype : ofType (p.modelWithin typing false) depth [target.id] type = .ok (some v) :=
    of_type_of_tells htells depth [target.id] (by omega)
  calc ofNode (p.modelWithin typing false) (depth + 2) [] (.identifier i text)
      = ofSymbol (p.modelWithin typing false) (depth + 1) [] s := by
        show Except.ok (p.symbolAt? (.identifier i text)) >>= _ = _
        rw [hs]
        rfl
    _ = (p.modelWithin typing false).typeOf target >>=
          ofType (p.modelWithin typing false) depth [target.id] := by
        simp only [ofSymbol, hfollowed, bind, Except.bind, if_neg hunguarded]
        exact symbol_value_of_var (hend ▸ hkind) _ _
    _ = .ok (some v) := bind_eq_ok_iff.mpr ⟨type, hsymbol, htype⟩

/-- **Arrays that are asserted to be constant.** The name of a `var`, also an import of it, resolves
to the list that the initial value of the variable evaluates to, if this is asserted to be constant:
wherever a request and its questions about types may go as deep as that, and within the limits
unless it is too deep for them. -/
theorem asserted_array_flattened {config : Config} {sources : List SourceFile} {i : Info}
    {text : Text} {s : BoundSymbol} {init : Node} {height : Nat} {items : List (Option Value)}
    (hs : (Program.ofSources config sources).symbolAt? (.identifier i text) = some s)
    (hkind : ((Program.ofSources config sources).aliasEnd s).kind = .functionScopedVariable)
    (hinit : (Program.ofSources config sources).IsInitialized s init)
    (hvalue : Evaluates (Program.ofSources config sources) height init (.array items)) :
    (∀ typing ≥ 4 * height + 5, ∀ depth ≥ height + 3,
      ofNode ((Program.ofSources config sources).modelWithin typing) depth [] (.identifier i text) =
        .ok (some (.array items))) ∧
    ((Program.ofSources config sources).resolve (.identifier i text) =
        ⟨some (.array items), none⟩ ∨
      (Program.ofSources config sources).resolve (.identifier i text) =
        ⟨none, some (Text.ofString "Recursion limit reached resolving Identifier")⟩) ∧
    (height ≤ 248 → (Program.ofSources config sources).resolve (.identifier i text) =
      ⟨some (.array items), none⟩) := by
  have hp : ∀ s ∈ (Program.ofSources config sources).symbols,
      ∀ t ∈ (Program.ofSources config sources).symbols, s.id = t.id → s = t :=
    fun s hs t ht => Program.symbol_eq_of_id_eq hs ht
  have hanswer : ∀ typing ≥ 4 * height + 5, ∀ depth ≥ height + 3,
      ofNode ((Program.ofSources config sources).modelWithin typing) depth [] (.identifier i text) =
        .ok (some (.array items)) := by
    intro typing htyping depth hdepth
    -- No symbol is met within itself, so the guards do not come in.
    have hfree := of_node_of_evaluates hp hs hkind hinit hvalue htyping hdepth
    exact (of_node_guarded hp depth _).eq_ok hfree
  -- Within the limits a request ends as it ends beyond them, or stops.
  refine ⟨hanswer, ?_, fun hheight => congrArg (Outcome.ofAnswer _) (hanswer _ ?_ _ ?_)⟩
  · have hdeep := hanswer (max Typing.depthLimit (4 * height + 5)) (Nat.le_max_right ..)
      (max depthLimit (height + 3)) (Nat.le_max_right ..)
    have hlimits := of_node_within_deepened (Program.ofSources config sources) true
      (Nat.le_max_left Typing.depthLimit (4 * height + 5))
      (Nat.le_max_left depthLimit (height + 3)) [] (.identifier i text)
    rcases hlimits with hstopped | hsame
    · exact .inr (congrArg (Outcome.ofAnswer _) hstopped)
    · exact .inl (congrArg (Outcome.ofAnswer _) (hsame.symm.trans hdeep))
  · show 4 * height + 5 ≤ 1000
    omega
  · show height + 3 ≤ 1000
    omega

/-- The law at an array with a hole and a number with a minus sign, which is spread, and which is an
element of another array in it, too. -/
theorem asserted_array_flattened_twice :
    let name (t : String) := Node.identifier {} (Text.ofString t)
    let const (elements : List Node) :=
      Node.asExpression {} (.arrayLiteral {} elements) (.keywordType {} (Text.ofString "const"))
    let pair := const [.omittedExpression {}, .prefixUnaryExpression {} (Text.ofString "-")
      (.numericLiteral {} (Text.ofString "0x2"))]
    let array := const [.spreadElement {} (name "a"), .parenthesizedExpression {} (.arrayLiteral {}
      [name "a", .spreadElement {} (.arrayLiteral {} [.stringLiteral {} (Text.ofString "x")])])]
    let declaration (t : String) (init : Node) := .variableDeclaration {} (name t) none (some init)
    let file : SourceFile :=
      { fileName := Text.ofString "a"
        statements := [
          .variableStatement {} .const [declaration "a" pair] false false,
          .variableStatement {} .var [declaration "v" array] false false,
          .expressionStatement {} (name "v")] }
    let node := Node.place (Text.ofString "a") [0, 2, 0] (name "v")
    let items := [none, some (.number (Rounding.signed false (Rounding.natural? 2)).negate)]
    let inner := Value.array [some (.array items), some (.text (Text.ofString "x"))]
    (Program.ofSources {} [file]).resolve node = ⟨some (.array (items ++ [some inner])), none⟩ := by
  intro name const pair array declaration file node items inner
  let p := Program.ofSources {} [file]
  let constant : BoundSymbol := .declaredBy .blockScopedVariable
    (.place (Text.ofString "a") [0, 0, 0, 0] (declaration "a" pair)) true
    (.node ⟨Text.ofString "a", [0, 0, 0, 0, 0]⟩) (Text.ofString "a")
  let var : BoundSymbol := .declaredBy .functionScopedVariable
    (.place (Text.ofString "a") [0, 0, 1, 0] (declaration "v" array)) false
    (.node ⟨Text.ofString "a", [0, 0, 0, 1, 0]⟩) (Text.ofString "v")
  have hs : p.symbolAt? node = some var := by cbv
  have hspread : p.symbolAt? (.place (Text.ofString "a") [0, 0, 0, 0, 2, 0, 0, 1, 0] (name "a")) =
      some constant := by cbv
  have helement : p.symbolAt?
      (.place (Text.ofString "a") [0, 0, 0, 1, 0, 0, 2, 0, 0, 1, 0] (name "a")) =
        some constant := by cbv
  have hpair : p.IsInitialized constant (.place (Text.ofString "a") [2, 0, 0, 0, 0] pair) :=
    ⟨.inl rfl, ⟨_, _, rfl⟩, rfl⟩
  have hdigits : NumericLiteral.Digits 16 ['2'.toNat] [2] :=
    .single (.figure (by decide : 2 < 16) (by decide))
  have htwo : NumericLiteral.Denotes (Text.ofString "0x2") (2 : ℕ) :=
    .marked (by decide : ('x'.toNat, 16) ∈ NumericLiteral.radixMarks) hdigits
  have hitems : ∀ height, Evaluates p (height + 2)
      (.place (Text.ofString "a") [2, 0, 0, 0, 0] pair) (.array items) :=
    fun _ => .asserted (.array (.hole (.element
      (.negative (.number htwo (Rounding.rounds_natural 2))) .nil)))
  have hinner : Evaluates p 5 (.place (Text.ofString "a") [1, 0, 0, 2, 0, 0, 1, 0]
      (.parenthesizedExpression {} (.arrayLiteral {} [name "a", .spreadElement {}
        (.arrayLiteral {} [.stringLiteral {} (Text.ofString "x")])]))) inner :=
    .parenthesized (.array (.element (.name helement hpair (hitems 0))
      (.spread (.array (.element .text .nil)) .nil)))
  have hvalue : Evaluates p 7 (.place (Text.ofString "a") [2, 0, 0, 1, 0] array) _ :=
    .asserted (.array (.spread (.name hspread hpair (hitems 2)) (.element hinner .nil)))
  exact (asserted_array_flattened hs rfl ⟨.inr rfl, ⟨_, _, rfl⟩, rfl⟩ hvalue).2.2 (by norm_num)

/-- A spread of a variable that is declared once more further on has the items of the later value,
and a name in a file that is too deep to be bound stands for itself. -/
theorem asserted_array_lost :
    let name (t : String) := Node.identifier {} (Text.ofString t)
    let array (elements : List Node) := Node.arrayLiteral {} elements
    let literal (t : String) := array [.stringLiteral {} (Text.ofString t)]
    let const (e : Node) := Node.asExpression {} e (.keywordType {} (Text.ofString "const"))
    let declare (t : String) (init : Node) := Node.variableStatement {} .var
      [.variableDeclaration {} (name t) none (some (const init))] false false
    let program (statements : List Node) := Program.ofSources {}
      [{ fileName := Text.ofString "a", statements := statements }]
    let nested := Nat.repeat (.parenthesizedExpression {}) 1000 (literal "x")
    let again := program [declare "a" (literal "x"),
      declare "v" (array [.spreadElement {} (name "a")]), declare "a" (literal "y"),
      .expressionStatement {} (name "v")]
    let deep := program [declare "v" nested, .expressionStatement {} (name "v")]
    (again.resolve (.place (Text.ofString "a") [0, 3, 0] (name "v"))).value =
        some (.array [some (.text (Text.ofString "y"))]) ∧
      Evaluates deep 1002 (.place (Text.ofString "a") [2, 0, 0, 0, 0] (const nested))
        (.array [some (.text (Text.ofString "x"))]) ∧
      (deep.resolve (.place (Text.ofString "a") [0, 1, 0] (name "v"))).value =
        some (.text (Text.ofString "v")) := by
  intro name array literal const declare program nested again deep
  have hnested : ∀ k way, Evaluates deep (k + 1)
      (.place (Text.ofString "a") way (Nat.repeat (.parenthesizedExpression {}) k (literal "x")))
      (.array [some (.text (Text.ofString "x"))]) := by
    intro k
    induction k with
    | zero => exact fun way => .array (.element .text .nil)
    | succ k ih => exact fun way => .parenthesized (ih _)
  exact ⟨by decide +kernel, .asserted (hnested 1000 _), by decide +kernel⟩

end Resolution

end StaticLiteral
