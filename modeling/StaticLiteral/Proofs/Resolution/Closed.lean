import StaticLiteral.Proofs.Program.Keys
import StaticLiteral.Proofs.Resolution.Aggregate
import StaticLiteral.Proofs.Resolution.Inferred

/-!
# Closed expressions

Closed expressions are made of literals without names, other than those of properties. Neither they
nor their types lead into cycles (`reached_of_closed`, `reached_type_of_closed`), so what is found
of a variable that is declared as one is found freely: `type_path_below` says that its type never
tells other than the expression, and at most as much.
-/

namespace StaticLiteral

namespace Node

mutual

/-- Whether the expression is made of literals only, and has no spread elements. -/
def isClosed : Node → Bool
  | numericLiteral .. | bigintLiteral .. | stringLiteral .. | templateLiteral ..
  | regularExpressionLiteral .. | trueKeyword _ | falseKeyword _ | nullKeyword _
  | omittedExpression _ => true
  | prefixUnaryExpression _ _ e | parenthesizedExpression _ e | computedPropertyName _ e
  | templateSpan _ e _ => isClosed e
  | asExpression _ e (keywordType _ word) | typeAssertion _ (keywordType _ word) e =>
    word == Text.ofString "const" && isClosed e
  | arrayLiteral _ es | templateExpression _ _ es => areClosed es
  | objectLiteral _ properties => haveClosedValues properties
  | _ => false

/-- Whether all expressions are closed. -/
def areClosed : List Node → Bool
  | [] => true
  | n :: ns => isClosed n && areClosed ns

/-- Whether the values that are assigned to properties are closed, and so are the names that are
not written as names. -/
def haveClosedValues : List Node → Bool
  | [] => true
  | propertyAssignment _ name init :: properties =>
    (name.identifier?.isSome || isClosed name) && isClosed init && haveClosedValues properties
  | _ :: properties => haveClosedValues properties

end

/-- Expressions are closed if each is. -/
theorem closed_of_mem {n : Node} {ns : List Node} (h : areClosed ns) (hn : n ∈ ns) :
    n.isClosed := by
  induction ns with
  | nil => cases hn
  | cons m ns ih =>
      simp only [areClosed, Bool.and_eq_true] at h
      rcases List.mem_cons.mp hn with rfl | hn
      · exact h.1
      · exact ih h.2 hn

/-- In a closed object, what is assigned is closed, and so is a name that is not written as one. -/
theorem closed_of_property {i : Info} {name init : Node} {properties : List Node}
    (h : haveClosedValues properties) (hmem : propertyAssignment i name init ∈ properties) :
    (name.identifier?.isSome ∨ name.isClosed) ∧ init.isClosed := by
  induction properties with
  | nil => cases hmem
  | cons property properties ih =>
      rcases List.mem_cons.mp hmem with rfl | hmem
      · simp only [haveClosedValues, Bool.and_eq_true, Bool.or_eq_true] at h
        exact h.1
      · refine ih ?_ hmem
        cases property with
        | propertyAssignment =>
            simp only [haveClosedValues, Bool.and_eq_true] at h
            exact h.2
        | _ => exact h

end Node

namespace Resolution

variable {config : Config} {sources : List SourceFile} {typing : Nat} {e : Node}

/-- The key of a property of a closed object is found. -/
theorem reached_key {depth : Nat} {i j : Info} {name init : Node} {properties : List Node}
    (hbinds : (Program.ofSources config sources).Binds (.objectLiteral i properties))
    (hproperty : .propertyAssignment j name init ∈ properties)
    (hname : name.identifier?.isSome ∨ name.isClosed) (hdepth : name.height < depth)
    (ih : (Program.ofSources config sources).Binds name → name.isClosed →
      Reached (ofNode ((Program.ofSources config sources).freely typing) depth [] name)) :
    Reached (ofNode ((Program.ofSources config sources).freely typing) depth [] name) := by
  obtain ⟨depth, rfl⟩ : ∃ k, depth = k + 2 := ⟨depth - 2, by have := name.height_pos; omega⟩
  cases name with
  | identifier k text =>
      have hat : ((Program.ofSources config sources).freely typing).symbolAt (.identifier k text) =
          .ok (some _) := congrArg Except.ok (Program.symbol_at_key hbinds hproperty)
      simp only [ofNode, hat]
      trivial
  | stringLiteral | numericLiteral => trivial
  | _ =>
      refine ih (hbinds.key hproperty fun _ _ => rfl) ?_
      simpa [Node.identifier?] using hname

/-- A node other than a name is found freely if its parts are, one level down. -/
theorem reached_of_parts {p : Program} {depth : Nat} (hname : e.identifier? = none)
    (hparts : ∀ c ∈ e.valueParts, Reached (ofNode (p.freely typing) depth [] c)) :
    Reached (ofNode (p.freely typing) (depth + 1) [] e) := by
  have hstep : Reached ((answers (p.freely typing) depth []).ofNode (p.freely typing) e) :=
    ((related_reached _).of_node throws_reaching hparts (fun _ hstop => by cases hstop)
      fun s hsome _ => by simp [hname] at hsome).1
  show Reached ((answers (p.freely typing) (depth + 1) []).node e)
  rwa [answers_succ]

/-- A closed expression that binding comes to is found freely. -/
theorem reached_of_closed {depth : Nat} (hbinds : (Program.ofSources config sources).Binds e)
    (hclosed : e.isClosed) (hdepth : e.height < depth) :
    Reached (ofNode ((Program.ofSources config sources).freely typing) depth [] e) := by
  induction depth generalizing e with
  | zero => omega
  | succ depth ih =>
      refine reached_of_parts (by cases e <;> first | rfl | cases hclosed) fun c hc => ?_
      have hlt := Node.height_lt_of_mem_value_parts hc
      have hchild : (∀ site, Binding.steps site e = Binding.visitAll site e.children) →
          c ∈ e.children → c.isClosed →
          Reached (ofNode ((Program.ofSources config sources).freely typing) depth [] c) :=
        fun hsteps hc hclosed => ih (hbinds.child hsteps hc) hclosed (by omega)
      cases e with
      | prefixUnaryExpression i operator operand | parenthesizedExpression i operand
      | computedPropertyName i operand =>
          obtain rfl := List.mem_singleton.mp hc
          refine hchild (fun _ => rfl) ?_ hclosed
          simp [Node.children_eq, Node.fields, Field.contents]
      | asExpression i operand type | typeAssertion i type operand =>
          obtain rfl := List.mem_singleton.mp hc
          cases type with
          | keywordType j word =>
              refine hchild (fun _ => rfl) ?_ ((Bool.and_eq_true _ _).mp hclosed).2
              simp [Node.children_eq, Node.fields, Field.contents]
          | _ => cases hclosed
      | arrayLiteral i elements =>
          have hmem : c ∈ elements := hc
          refine hchild (fun _ => rfl) ?_ (Node.closed_of_mem hclosed hmem)
          simpa [Node.children_eq, Node.fields, Field.contents] using hmem
      | objectLiteral i properties =>
          obtain ⟨property, hproperty, hc⟩ := List.mem_flatMap.mp hc
          cases property with
          | propertyAssignment j name init =>
              obtain ⟨hname, hinit⟩ := Node.closed_of_property hclosed hproperty
              rcases List.mem_pair.mp hc with rfl | rfl
              · exact reached_key hbinds hproperty hname (by omega)
                  fun h hc => ih h hc (by omega)
              · exact ih (hbinds.initial hproperty) hinit (by omega)
          | _ => cases hc
      | templateExpression i head spans =>
          obtain ⟨span, hspan, hc⟩ := List.mem_flatMap.mp hc
          have hpart := Node.closed_of_mem hclosed hspan
          cases span with
          | templateSpan j operand literal =>
              obtain rfl := List.mem_singleton.mp hc
              have hbound := hbinds.child (fun _ => rfl) (k := .templateSpan j c literal)
                (by simpa [Node.children_eq, Node.fields, Field.contents] using hspan)
              refine ih (hbound.child (fun _ => rfl) ?_) hpart (by omega)
              simp [Node.children_eq, Node.fields, Field.contents]
          | _ => cases hc
      | variableDeclaration => cases hclosed
      | _ => cases hc

/-! ## The types of closed expressions -/

/-- A closed expression has a type. -/
theorem told_of_closed {p : Program} {depth : Nat} (isConst : Bool) (hclosed : e.isClosed)
    (hdepth : 2 * e.height ≤ depth) :
    Typing.Told (Typing.ofExpression p false depth [] isConst e) := by
  induction depth using Nat.strongRecOn generalizing e isConst with
  | ind depth ih =>
      obtain ⟨depth, rfl⟩ : ∃ k, depth = k + 2 := ⟨depth - 2, by have := e.height_pos; omega⟩
      cases e with
      | prefixUnaryExpression i operator operand =>
          simp only [Node.height] at hdepth
          simp only [Typing.ofExpression]
          split
          · trivial
          · split
            · exact .map (ih (depth + 1) (by omega) false hclosed (by omega)) fun _ _ => trivial
            · trivial
      | parenthesizedExpression i e =>
          simp only [Node.height] at hdepth
          exact ih (depth + 1) (by omega) isConst hclosed (by omega)
      | asExpression i e type | typeAssertion i type e =>
          simp only [Node.height] at hdepth
          cases type with
          | keywordType j word =>
              have hclosed := (Bool.and_eq_true _ _).mp hclosed
              simp only [Typing.ofExpression, Node.isConstAssertion, hclosed.1, if_true]
              exact ih (depth + 1) (by omega) true hclosed.2 (by omega)
          | _ => cases hclosed
      | arrayLiteral i elements =>
          simp only [Node.height] at hdepth
          have hall : ∀ c ∈ elements,
              Typing.Told (Typing.ofElement p false (depth + 1) [] isConst c) := by
            intro c hc
            have hle := Node.height_le_height_of_all hc
            have hc := Node.closed_of_mem hclosed hc
            have helement := ih depth (by omega) isConst hc (by omega)
            simp only [Typing.ofElement]
            split
            · trivial
            · cases hc
            · exact .map helement fun _ _ => trivial
          exact .map (.mapM hall) fun _ _ => trivial
      | identifier | satisfiesExpression => cases hclosed
      | _ => trivial

/-- A type that tells a literal or nothing is found freely. -/
theorem reached_type_of_literal {p : Program} {depth : Nat} {t : BoundTy}
    (h : Typing.view t = .other ∨ ∃ literal, t = .literal literal) :
    Reached (ofType (p.freely typing) (depth + 1) [] t) := by
  rcases h with hview | ⟨literal, rfl⟩
  · have hbrief : (p.freely typing).view t = .other := Typing.view_briefly_of_other hview
    simp only [ofType, hbrief]
    trivial
  · cases literal <;> trivial

/-- The type of an atom tells a literal or nothing. -/
theorem literal_of_atom {p : Program} {isConst : Bool} {n : Node} {t : BoundTy} (hatom : n.isAtom)
    (ht : p.Infers isConst n t) : Typing.view t = .other ∨ ∃ literal, t = .literal literal := by
  cases n with
  | numericLiteral i text =>
      obtain rfl := ht.eq_of_known fun _ => rfl
      unfold Typing.ofNumeric
      split
      · exact .inr ⟨_, rfl⟩
      · exact .inl rfl
  | bigintLiteral i text =>
      obtain rfl := ht.eq_of_known fun _ => rfl
      unfold Typing.ofBigint
      split <;> exact .inl rfl
  | stringLiteral i text | templateLiteral i text =>
      obtain rfl := ht.eq_of_known fun _ => rfl
      exact .inr ⟨_, rfl⟩
  | prefixUnaryExpression i operator operand =>
      rcases ht.of_prefix with hview | ⟨u, _, rfl⟩
      · exact .inl hview
      · rcases Program.view_of_signed operator operand u with hview | ⟨_, _, x, _, _, _, hsigned⟩
        · exact .inl hview
        · exact .inr ⟨_, hsigned⟩
  | parenthesizedExpression | satisfiesExpression | asExpression | typeAssertion | arrayLiteral
  | spreadElement | objectLiteral | identifier | variableDeclaration | parameter
  | bindingElement => cases hatom
  | _ =>
      obtain rfl := ht.eq_of_known fun _ => rfl
      exact .inl rfl

/-- The type of a closed object literal that binding comes to is found freely. -/
theorem reached_type_of_object {depth : Nat} {i : Info} {properties : List Node}
    (hbinds : (Program.ofSources config sources).Binds (.objectLiteral i properties))
    (hclosed : (Node.objectLiteral i properties).isClosed)
    (hdepth : (Node.objectLiteral i properties).height < depth) :
    Reached (ofType ((Program.ofSources config sources).freely typing) (depth + 2) []
      (.object .anonymous
        ((Program.ofSources config sources).literalSymbol? (.objectLiteral i properties)))) := by
  cases hsymbol : (Program.ofSources config sources).literalSymbol?
      (.objectLiteral i properties) with
  | none => exact reached_type_of_literal (.inl rfl)
  | some s =>
      obtain rfl := Program.literal_symbol_eq hbinds.placed hsymbol
      let symbol := literalSymbol .objectLiteral "__object" (.objectLiteral i properties)
      have hstands := @of_symbol_eq_stands_for (Program.ofSources config sources) .brief typing
        (depth + 1) symbol symbol rfl
      have hfound : Reached (standsFor (Program.ofSources config sources) .brief typing (depth + 1)
        symbol) := reached_of_closed hbinds hclosed hdepth
      have hanswer : Reached (ofSymbol ((Program.ofSources config sources).freely typing)
        (depth + 1) [] symbol) := hstands ▸ hfound
      exact hanswer

/-- The type of a closed expression that binding comes to is found freely, if the expression is
asserted to be constant. -/
theorem reached_type_of_closed {depth : Nat} {t : BoundTy}
    (hbinds : (Program.ofSources config sources).Binds e) (hclosed : e.isClosed)
    (hdepth : e.height < depth) (ht : (Program.ofSources config sources).Infers true e t) :
    Reached (ofType ((Program.ofSources config sources).freely typing) (depth + 2) [] t) := by
  induction depth generalizing e t with
  | zero => omega
  | succ depth ih =>
      have hchild : ∀ c ∈ e.children, (∀ site, Binding.steps site e =
          Binding.visitAll site e.children) → c.isClosed → ∀ t,
          (Program.ofSources config sources).Infers true c t →
          Reached (ofType ((Program.ofSources config sources).freely typing) (depth + 2) [] t) := by
        intro c hc hsteps hclosed t ht
        have hlt := Node.height_lt_of_mem_children hc
        exact ih (hbinds.child hsteps hc) hclosed (by omega) ht
      -- A type that is found is found at the next depth, too.
      have hdeeper : ∀ t, Reached (ofType ((Program.ofSources config sources).freely typing)
          (depth + 2) [] t) → Reached (ofType ((Program.ofSources config sources).freely typing)
            (depth + 3) [] t) := by
        intro t h
        have hsame := freely_deepened (Program.ofSources config sources) (Nat.le_refl typing)
          (Nat.le_succ (depth + 2)) []
        have htype : Deepened
            (ofType ((Program.ofSources config sources).freely typing) (depth + 2) [] t)
            (ofType ((Program.ofSources config sources).freely typing) (depth + 3) [] t) :=
          deepened_iff.mpr (hsame.type trivial)
        rwa [htype.eq (ne_of_reached h)]
      cases e with
      | parenthesizedExpression i e =>
          refine hdeeper t (hchild e ?_ (fun _ => rfl) hclosed t (ht.of_wrapper fun _ => rfl))
          simp [Node.children_eq, Node.fields, Field.contents]
      | asExpression i e type | typeAssertion i type e =>
          cases type with
          | keywordType j word =>
              have hclosed := (Bool.and_eq_true _ _).mp hclosed
              refine hdeeper t (hchild e ?_ (fun _ => rfl) hclosed.2 t (ht.of_wrapper fun _ => ?_))
              · simp [Node.children_eq, Node.fields, Field.contents]
              · simp only [Typing.ofExpression, Node.isConstAssertion, hclosed.1, if_true]
          | _ => cases hclosed
      | arrayLiteral i elements =>
          obtain ⟨ts, rfl, hts⟩ := ht.of_array fun c hc j e hspread => by
            subst hspread
            exact absurd (Node.closed_of_mem hclosed hc) Bool.false_ne_true
          have hall : ∀ u ∈ ts, Reached (ofType ((Program.ofSources config sources).freely typing)
              (depth + 2) [] u) := by
            intro u hu
            obtain ⟨c, hc, rfl | hu⟩ := exists_beside hts hu
            · exact reached_type_of_literal (.inl rfl)
            · refine hchild c ?_ (fun _ => rfl) (Node.closed_of_mem hclosed hc) u hu
              simpa [Node.children_eq, Node.fields, Field.contents] using hc
          exact .bind (.mapM hall) fun _ _ _ => trivial
      | objectLiteral i properties =>
          obtain rfl := ht.eq_of_known fun _ => rfl
          exact reached_type_of_object hbinds hclosed hdepth
      | _ => exact reached_type_of_literal (literal_of_atom (by first | rfl | cases hclosed) ht)

/-! ## Variables that are declared as closed expressions -/

/-- The type of a closed expression is inferred where it is asserted to be constant. -/
theorem inferred_of_closed {p : Program} {loose : Bool} (hclosed : e.isClosed) :
    p.Inferred loose true e := by
  induction e using Node.children_induction with
  | step e ih =>
      cases e with
      | parenthesizedExpression i e =>
          refine .parenthesized (ih e ?_ hclosed)
          simp [Node.children_eq, Node.fields, Field.contents]
      | asExpression i e type =>
          cases type with
          | keywordType j word =>
              have hclosed := (Bool.and_eq_true _ _).mp hclosed
              refine .asConst hclosed.1 (ih e ?_ hclosed.2)
              simp [Node.children_eq, Node.fields, Field.contents]
          | _ => cases hclosed
      | typeAssertion i type e =>
          cases type with
          | keywordType j word =>
              have hclosed := (Bool.and_eq_true _ _).mp hclosed
              refine .assertedConst hclosed.1 (ih e ?_ hclosed.2)
              simp [Node.children_eq, Node.fields, Field.contents]
          | _ => cases hclosed
      | arrayLiteral i elements =>
          refine .array (.inl rfl) fun c hc => ih c ?_ (Node.closed_of_mem hclosed hc)
          simpa [Node.children_eq, Node.fields, Field.contents] using hc
      | objectLiteral => exact .object
      | _ => exact .atom (by first | rfl | cases hclosed)

/-- What is found of a node with guards is found freely if it ends freely. -/
theorem finds_of_answer {p : Program}
    (hp : ∀ s ∈ p.symbols, ∀ t ∈ p.symbols, s.id = t.id → s = t) {n : Node}
    {depth types deep : Nat} {v : Option Value}
    (hreached : Reached (ofNode (p.freely typing) depth [] n))
    (h : ofNode (p.modelWithin types) deep [] n = .ok v) : p.NodeFinds n v := by
  have hfree := answer_of_free hp rfl (ne_of_reached hreached) (max types (typing + 1)) (by omega)
    (max deep (depth + 4)) (by omega)
  have hsame := (of_node_within_deepened p true (Nat.le_max_left types (typing + 1))
    (Nat.le_max_left deep (depth + 4)) [] n).eq_ok h
  exact ⟨typing, depth, hfree.symm.trans hsame⟩

/-- A name of a variable that is declared as a closed expression ends freely. -/
theorem reached_of_variable {s : BoundSymbol} {i j l : Info} {text : Text} {name type : Node}
    (hat : (Program.ofSources config sources).symbolAt? (.identifier i text) = some s)
    (hkind : s.kind = .functionScopedVariable)
    (hd : s.declaration = some (.variableDeclaration j name none (some (.asExpression l e type))))
    (hconst : (Node.asExpression l e type).isConstAssertion)
    (hbinds : (Program.ofSources config sources).Binds e) (hclosed : e.isClosed) :
    Reached (ofNode ((Program.ofSources config sources).freely (2 * e.height + 3)) (e.height + 5) []
      (.identifier i text)) := by
  obtain ⟨t, ht⟩ := Typing.exists_of_told (told_of_closed (p := Program.ofSources config sources)
    true hclosed (Nat.le_refl _))
  have htype : ((Program.ofSources config sources).freely (2 * e.height + 3)).typeOf s = .ok t := by
    have hinit : Typing.ofExpression (Program.ofSources config sources) false (2 * e.height + 1)
        [s.id] false (.asExpression l e type) = .ok t := by
      simp only [Typing.ofExpression, hconst, if_true]
      rwa [Typing.of_expression_free _ [s.id]]
    show Typing.ofSymbol (Program.ofSources config sources) false (2 * e.height + 3) [] s = _
    simp only [Typing.ofSymbol, hkind, hd, Bool.false_eq_true, false_and, if_false,
      Typing.ofVariable, hinit, Typing.isConstContext, hconst, Bool.or_true, if_true]
    rfl
  have hfound : Reached (ofType ((Program.ofSources config sources).freely (2 * e.height + 3))
      (e.height + 3) [] t) :=
    reached_type_of_closed hbinds hclosed (Nat.lt_succ_self _) ⟨_, ht⟩
  have halias : s.kind.isAlias = false := by rw [hkind]; rfl
  have hfollowed : followed ((Program.ofSources config sources).freely (2 * e.height + 3)) s =
      .ok s := by simp only [followed, halias, Bool.false_eq_true, if_false]
  have hvalue : standsFor (Program.ofSources config sources) .brief (2 * e.height + 3)
      (e.height + 4) s =
        ofType ((Program.ofSources config sources).freely (2 * e.height + 3)) (e.height + 3) []
          t := by
    have htype : ((Program.ofSources config sources).modelSeeing .brief (2 * e.height + 3)
      false).typeOf s = .ok t := htype
    simp only [standsFor, symbolValue, hkind, htype]
    rfl
  have hsymbol : Reached (ofSymbol ((Program.ofSources config sources).freely (2 * e.height + 3))
      (e.height + 4) [] s) :=
    ((of_symbol_eq_stands_for (e.height + 4) hfollowed).trans hvalue) ▸ hfound
  have hname : ((Program.ofSources config sources).freely (2 * e.height + 3)).symbolAt
      (.identifier i text) = .ok (some s) := congrArg Except.ok hat
  simp only [ofNode, hname]
  exact hsymbol

/-- A variable that is declared as a closed expression, asserted to be constant, resolves to nothing
that the expression does not resolve to: if it resolves at all, then to a value of the same kind
that is the same but for entries of arrays that are missing. -/
theorem type_path_below {statement i j k l : Info} {declarations : List Node} {text other : Text}
    {type : Node} {exported ambient : Bool} {v : Value} :
    let p := Program.ofSources config sources
    let declaration := Node.variableDeclaration j (.identifier k text) none
      (some (.asExpression l e type))
    p.Binds (.variableStatement statement .var declarations exported ambient) →
    declaration ∈ declarations → (Node.asExpression l e type).isConstAssertion → e.isClosed →
    p.symbolAt? (.identifier i other) =
      some (.declaredBy .functionScopedVariable declaration false (.node k.id) text) →
    p.Answers e → (p.resolve (.identifier i other)).value = some v →
    ∃ w, (p.resolve e).value = some w ∧ v.type = w.type ∧ Below false (some v) (some w) := by
  intro p declaration hstatement hdeclaration hconst hclosed hat hanswers hv
  have hp := Program.coherent_of_sources config sources
  have hbinds : p.Binds e := by
    refine (hstatement.variable hdeclaration).child (fun _ => rfl) ?_
    simp [Node.children_eq, Node.fields, Field.contents]
  -- Both requests end freely, with the answers that they have within the limits.
  have hname : p.NodeFinds (.identifier i other) (some v) :=
    finds_of_answer hp.unique (reached_of_variable hat rfl rfl hconst hbinds hclosed)
      (resolve_value_eq_some_iff.mp hv)
  have hreached : Reached (ofNode (p.freely 0) (e.height + 1) [] e) :=
    reached_of_closed hbinds hclosed (Nat.lt_succ_self _)
  have hvalue : p.NodeFinds e (p.resolve e).value :=
    finds_of_answer hp.unique hreached (of_node_eq_ok_iff.mpr ⟨hanswers, rfl⟩)
  have hself := Program.aliased_of_not_alias (p := p)
    (a := .declaredBy .functionScopedVariable declaration false (.node k.id) text) rfl
  obtain ⟨t, ht, hv⟩ := (hname.of_name hat).of_type (by rw [hself]; rintro ⟨⟩)
    (by rw [hself]; rfl)
  rw [hself] at ht
  obtain ⟨u, hu, rfl⟩ := ht.of_initial (.inr rfl) rfl
  have hwhole : p.Infers true e u :=
    hu.of_wrapper fun depth => by simp only [Typing.ofExpression, hconst, if_true]
  have hbelow : Below false (some v) (p.resolve e).value := by
    rw [if_pos (by simp [Typing.isConstContext, hconst])] at hv
    exact Program.below_of_inferred hp (inferred_of_closed hclosed) hbinds.placed hwhole hv hvalue
  obtain ⟨w, hw, htype⟩ := hbelow.exists_eq_some
  exact ⟨w, hw, htype, hw ▸ hbelow⟩

/-- The law at a tuple of a truth value, which its type does not tell, and an object. -/
theorem type_path_below_tuple :
    let name (t : String) := Node.identifier {} (Text.ofString t)
    let literal (t : String) := Node.stringLiteral {} (Text.ofString t)
    let tuple := Node.arrayLiteral {} [.trueKeyword {},
      .objectLiteral {} [.propertyAssignment {} (name "k") (literal "s")]]
    let declaration := Node.variableDeclaration {} (name "v") none
      (some (.asExpression {} tuple (.keywordType {} (Text.ofString "const"))))
    let file : SourceFile :=
      { fileName := Text.ofString "a"
        statements := [.variableStatement {} .var [declaration] false false,
          .expressionStatement {} (name "v")] }
    let p := Program.ofSources {} [file]
    let r := Node.place (Text.ofString "a") [0, 1, 0] (name "v")
    let e := Node.place (Text.ofString "a") [0, 2, 0, 0, 0, 0] tuple
    let entries := some (Value.object [(Text.ofString "k", some (.text (Text.ofString "s")))])
    (p.resolve r).value = some (.array [none, entries]) ∧
      (p.resolve e).value = some (.array [some (.boolean true), entries]) ∧
      Below false (p.resolve r).value (p.resolve e).value := by
  intro name literal tuple declaration file p r e entries
  have hr : (p.resolve r).value = some (.array [none, entries]) := by decide +kernel
  have he : (p.resolve e).value = some (.array [some (.boolean true), entries]) := by decide +kernel
  have hanswers : (p.resolve e).warning = none := by decide +kernel
  let statement := Node.variableStatement {} .var [declaration] false false
  have hbinds : p.Binds (.place (Text.ofString "a") [0, 0] statement) :=
    Program.binds_of_statement (List.mem_singleton.mpr rfl :
      BoundFile.ofSource (Text.ofString "a") file ∈ p.files) (by decide +kernel) List.mem_cons_self
  have hat : p.symbolAt? r = some (.declaredBy .functionScopedVariable
      (.place (Text.ofString "a") [0, 0, 0, 0] declaration) false
      (.node ⟨Text.ofString "a", [0, 0, 0, 0, 0]⟩) (Text.ofString "v")) := by cbv
  obtain ⟨w, hw, _, hbelow⟩ := type_path_below hbinds
    List.mem_cons_self rfl (by decide +kernel) hat hanswers hr
  exact ⟨hr, he, by rw [hr, hw]; exact hbelow⟩

end Resolution

end StaticLiteral
