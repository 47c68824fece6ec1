import StaticLiteral.Proofs.Program.Declarations
import StaticLiteral.Proofs.Resolution.Findings
import StaticLiteral.Proofs.Values

/-!
# Types and declarations

A constant resolves to what its declaration tells, or through its type to what that leaves no choice
about. `Inferred` are the expressions whose type is worked out from them alone: nothing is
annotated, asserted other than to be constant, or spread. Without cycles the type of such an
expression never tells other than the expression itself, and at most as much: `below_of_inferred`.
-/

namespace StaticLiteral

/-- Whether the expression is neither a name nor made of expressions that keep their types in it. -/
def Node.isAtom : Node → Bool
  | .parenthesizedExpression .. | .satisfiesExpression .. | .asExpression .. | .typeAssertion ..
  | .arrayLiteral .. | .spreadElement .. | .objectLiteral .. | .identifier .. => false
  | n => !n.isDeclaration

namespace Program

/-- The type of the expression is worked out from it, and from the initial values of what it names.
Only if `loose`, arrays may be neither constant nor in an object. -/
inductive Inferred (p : Program) (loose : Bool) : Bool → Node → Prop
  | atom {isConst : Bool} {n : Node} (h : n.isAtom) : Inferred p loose isConst n
  | parenthesized {isConst : Bool} {i : Info} {e : Node} (h : Inferred p loose isConst e) :
      Inferred p loose isConst (.parenthesizedExpression i e)
  | asConst {isConst : Bool} {i : Info} {e type : Node}
      (hconst : (Node.asExpression i e type).isConstAssertion) (h : Inferred p loose true e) :
      Inferred p loose isConst (.asExpression i e type)
  | assertedConst {isConst : Bool} {i : Info} {e type : Node}
      (hconst : (Node.typeAssertion i type e).isConstAssertion) (h : Inferred p loose true e) :
      Inferred p loose isConst (.typeAssertion i type e)
  | array {isConst : Bool} {i : Info} {elements : List Node} (hloose : isConst ∨ loose)
      (h : ∀ e ∈ elements, Inferred p loose isConst e) :
      Inferred p loose isConst (.arrayLiteral i elements)
  | object {isConst : Bool} {i : Info} {properties : List Node} :
      Inferred p loose isConst (.objectLiteral i properties)
  | unbound {isConst : Bool} {i : Info} {text : Text}
      (hat : p.symbolAt? (.identifier i text) = none) :
      Inferred p loose isConst (.identifier i text)
  /-- a name of a symbol that is resolved through its type anyway -/
  | typed {isConst : Bool} {i : Info} {text : Text} {s : BoundSymbol}
      (hat : p.symbolAt? (.identifier i text) = some s)
      (hproperty : (p.aliased s).kind ≠ .property) (hresolved : (p.aliased s).resolved? = none) :
      Inferred p loose isConst (.identifier i text)
  | initial {isConst : Bool} {i j : Info} {text : Text} {s : BoundSymbol} {name init : Node}
      (hat : p.symbolAt? (.identifier i text) = some s)
      (hkind : (p.aliased s).kind = .blockScopedVariable)
      (hd : (p.aliased s).declaration = some (.variableDeclaration j name none (some init)))
      (h : Inferred p loose false init) : Inferred p loose isConst (.identifier i text)
  | blank {isConst : Bool} {i : Info} {text : Text} {s : BoundSymbol} {d : Node}
      (hat : p.symbolAt? (.identifier i text) = some s)
      (hkind : (p.aliased s).kind = .blockScopedVariable)
      (hd : (p.aliased s).declaration = some d) (hblank : d.isBlankDeclaration) :
      Inferred p loose isConst (.identifier i text)
  | value {isConst : Bool} {i : Info} {text : Text} {s : BoundSymbol} {d : Node}
      (hat : p.symbolAt? (.identifier i text) = some s)
      (hkind : (p.aliased s).kind = .blockScopedVariable)
      (hd : (p.aliased s).declaration = some d) (h : Inferred p loose false d) :
      Inferred p loose isConst (.identifier i text)

variable {p : Program} {loose isConst : Bool} {n : Node} {t : BoundTy} {v w : Option Value}

/-- An inferred expression is no declaration. -/
theorem Inferred.not_declaration (h : p.Inferred loose isConst n) : ¬ n.isDeclaration := by
  cases h with
  | atom h => cases n <;> simp_all [Node.isAtom, Node.isDeclaration]
  | _ => simp [Node.isDeclaration]

/-- An inferred expression is not spread. -/
theorem Inferred.not_spread (h : p.Inferred loose isConst n) :
    ∀ i e, n ≠ .spreadElement i e := by
  rintro i e rfl
  cases h with
  | atom h => cases h

/-- What the type of a number literal tells is the number. -/
theorem value_of_numeric {text : Text} (h : p.TypeFinds (Typing.ofNumeric text) v) :
    v = none ∨ v = Resolution.numericLiteral text := by
  unfold Typing.ofNumeric at h
  split at h
  case h_1 x hx =>
    rcases h.eq_literal with hnone | ⟨t, ht, _⟩ | ⟨y, hy, rfl⟩
    · exact .inl hnone
    · cases ht
    · obtain rfl := LiteralValue.number.inj hy
      exact .inr (by rw [Resolution.numericLiteral, hx]; rfl)
  case h_2 => exact .inl (h.eq_none rfl)

/-- The type of what a sign makes tells nothing, unless it is a minus sign that stands before a
number. -/
theorem view_of_signed (operator : Text) (operand : Node) (u : BoundTy) :
    Typing.view (Typing.ofSigned operator operand u) = .other ∨
      ∃ i text x, operand = .numericLiteral i text ∧ operator = Text.ofString "-" ∧
        u = .literal (.number x) ∧
        Typing.ofSigned operator operand u = .literal (.number x.negate) := by
  unfold Typing.ofSigned
  dsimp only
  split
  case h_3 x =>
    split
    case h_1 i text =>
      split
      case isTrue hminus => exact .inr ⟨i, text, x, rfl, by simpa using hminus, rfl, rfl⟩
      case isFalse => exact .inl rfl
    case h_2 => exact .inl rfl
  case h_1 => split <;> exact .inl rfl
  all_goals exact .inl rfl

/-- The type of what a sign makes tells the value of that, or nothing. -/
theorem value_of_prefix {i : Info} {operator : Text} {operand : Node}
    (ht : p.Infers isConst (.prefixUnaryExpression i operator operand) t) (hv : p.TypeFinds t v)
    (hw : p.NodeFinds (.prefixUnaryExpression i operator operand) w) : v = none ∨ v = w := by
  rcases ht.of_prefix with hview | ⟨u, hu, rfl⟩
  · exact .inl (hv.eq_none hview)
  rcases view_of_signed operator operand u with hview | ⟨j, text, x, rfl, rfl, rfl, hsigned⟩
  · exact .inl (hv.eq_none hview)
  -- Only what is written as a number after a minus sign keeps a literal type.
  have hx : NumericLiteral.value? text = some x := by
    have htype : .literal (.number x) = Typing.ofNumeric text := hu.eq_of_known fun _ => rfl
    unfold Typing.ofNumeric at htype
    split at htype
    case h_1 y hy => rw [hy, LiteralValue.number.inj (Ty.literal.inj htype)]
    case h_2 => cases htype
  obtain ⟨y, hy, rfl⟩ := hw.of_minus
  obtain rfl := hy.eq_of_known fun _ _ => rfl
  rw [hsigned] at hv
  rcases hv.eq_literal with hnone | ⟨t, ht, _⟩ | ⟨y, hy, rfl⟩
  · exact .inl hnone
  · cases ht
  · obtain rfl := LiteralValue.number.inj hy
    exact .inr (by simp [Resolution.numericLiteral, hx, Resolution.negated])

/-- The type of an atom tells its value, or nothing. -/
theorem value_of_atom (hatom : n.isAtom) (ht : p.Infers isConst n t) (hv : p.TypeFinds t v)
    (hw : p.NodeFinds n w) : v = none ∨ v = w := by
  have hknown : ∀ {u : BoundTy}, (∀ depth, Typing.ofExpression p false (depth + 1) [] isConst n =
      .ok u) → Typing.view u = .other → v = none := by
    intro u hn hview
    obtain rfl := ht.eq_of_known hn
    exact hv.eq_none hview
  cases n with
  | numericLiteral i text =>
      obtain rfl := ht.eq_of_known fun _ => rfl
      obtain rfl := hw.eq_of_known fun _ _ => rfl
      exact value_of_numeric hv
  | bigintLiteral i text =>
      refine .inl (hknown (fun _ => rfl) ?_)
      unfold Typing.ofBigint
      split <;> rfl
  | stringLiteral i text | templateLiteral i text =>
      obtain rfl := ht.eq_of_known fun _ => rfl
      obtain rfl := hw.eq_of_known fun _ _ => rfl
      rcases hv.eq_literal with hnone | ⟨t, ht, rfl⟩ | ⟨x, hx, _⟩
      · exact .inl hnone
      · obtain rfl := LiteralValue.text.inj ht
        exact .inr rfl
      · cases hx
  | prefixUnaryExpression i operator operand => exact value_of_prefix ht hv hw
  | parenthesizedExpression | satisfiesExpression | asExpression | typeAssertion | arrayLiteral
  | spreadElement | objectLiteral | identifier | variableDeclaration | parameter
  | bindingElement => cases hatom
  | _ => exact .inl (hknown (fun _ => rfl) rfl)

/-- What the type of an object literal tells is its value, or nothing. -/
theorem value_of_object {i : Info} {properties : List Node} (hp : p.Coherent)
    (hplaced : p.Placed (.objectLiteral i properties))
    (ht : p.Infers isConst (.objectLiteral i properties) t) (hv : p.TypeFinds t v)
    (hw : p.NodeFinds (.objectLiteral i properties) w) : v = none ∨ v = w := by
  obtain rfl := ht.eq_of_known fun _ => rfl
  cases hsymbol : p.literalSymbol? (.objectLiteral i properties) with
  | none =>
      rw [hsymbol] at hv
      exact .inl (hv.eq_none rfl)
  | some s =>
      rw [hsymbol] at hv
      obtain rfl := hp.literal i properties hplaced s hsymbol
      refine hv.of_object.imp_right fun hv => ?_
      have hself : p.aliased (literalSymbol .objectLiteral "__object" (.objectLiteral i properties))
          = literalSymbol .objectLiteral "__object" (.objectLiteral i properties) :=
        aliased_of_not_alias rfl
      exact (hv.of_declaration (by rw [hself]; rfl)).unique hw

/-- A widened type tells what the type does, or nothing. -/
theorem TypeFinds.of_widened (h : p.TypeFinds t.widened v) : v = none ∨ p.TypeFinds t v := by
  rcases Typing.view_widened t with hview | hsame
  · exact .inl (h.eq_none hview)
  · exact .inr (hsame ▸ h)

/-- If the types of expressions tell at most what these do, so do the types of the elements of an
array. -/
theorem below_of_element
    (hbelow : ∀ t v w, p.Infers isConst n t → p.TypeFinds t v → p.NodeFinds n w → Below loose v w)
    (ht : p.InfersElement isConst n t) (hv : p.TypeFinds t v) (hw : p.NodeFinds n w) :
    Below loose v w := by
  rcases ht with rfl | ht
  · obtain rfl := hv.eq_none rfl
    exact .missing w
  · exact hbelow t v w ht hv hw

/-- If the types of the elements tell at most what these do, so do those of a tuple of them. -/
theorem below_of_elements {elements : List Node} {ts : List BoundTy} {vs ws : List (Option Value)}
    (hbelow : ∀ e ∈ elements, ∀ t v w, p.Infers isConst e t → p.TypeFinds t v →
      p.NodeFinds e w → Below loose v w)
    (hts : List.Forall₂ (p.InfersElement isConst) elements ts)
    (hvs : List.Forall₂ p.TypeFinds ts vs) (hws : List.Forall₂ p.NodeFinds elements ws) :
    List.Forall₂ (Below loose) vs ws := by
  induction hts generalizing vs ws with
  | nil =>
      cases hvs
      cases hws
      exact .nil
  | @cons e t elements ts ht _ ih =>
      cases hvs with
      | cons hv hvs =>
      cases hws with
      | cons hw hws =>
          exact .cons (below_of_element (hbelow e List.mem_cons_self) ht hv hw)
            (ih (fun e he => hbelow e (List.mem_cons_of_mem _ he)) hvs hws)

/-- What an array type has one of tells at most what the only element of an array literal does, and
nothing if there is not exactly one. -/
theorem below_of_union {elements : List Node} {ts : List BoundTy} {ws : List (Option Value)}
    (hbelow : ∀ e ∈ elements, ∀ t v w, p.Infers isConst e t → p.TypeFinds t v →
      p.NodeFinds e w → Below true v w)
    (hts : List.Forall₂ (p.InfersElement isConst) elements ts)
    (hv : p.TypeFinds (.unionOf (ts.map Ty.widened)) v)
    (hws : List.Forall₂ p.NodeFinds elements ws) :
    Below true (some (.array [v])) (some (.array ws)) := by
  have hnormal := normal_of_elements hts
  by_cases hlength : ts.length = 1
  case neg =>
    obtain rfl := hv.eq_none (Typing.view_union_of_widened hnormal hlength)
    exact .blunt rfl ws
  obtain ⟨t, rfl⟩ := List.length_eq_one_iff.mp hlength
  cases hts with
  | cons ht hnil =>
  cases hnil
  cases hws with
  | cons hw hnil =>
  cases hnil
  rw [List.map_singleton, (hnormal t List.mem_cons_self).widened.union_of_singleton] at hv
  rcases hv.of_widened with rfl | hv
  · exact .blunt rfl _
  · exact .array (.cons (below_of_element (hbelow _ List.mem_cons_self) ht hv hw) .nil)

/-- If the type of an initial value tells at most what the value does, so does that of the variable,
which is resolved through its declaration. -/
theorem below_of_initial {s : BoundSymbol} {i : Info} {name init : Node} (hp : p.Coherent)
    (hs : s ∈ p.symbols) (hkind : s.kind = .blockScopedVariable)
    (hd : s.declaration = some (.variableDeclaration i name none (some init)))
    (hbelow : ∀ {t v w}, p.Placed init → p.Infers false init t → p.TypeFinds t v →
      p.NodeFinds init w → Below loose v w)
    (ht : p.HasType s t) (hv : p.TypeFinds t v)
    (hw : p.NodeFinds (.variableDeclaration i name none (some init)) w) : Below loose v w := by
  have hplaced : p.Placed init := by
    refine (hp.declared s hs _ hd).of_mem_children ?_
    simp [Node.children_eq, Node.fields, Field.contents]
  have hinit : p.NodeFinds init w := hw.of_wrapper fun _ _ => rfl
  obtain ⟨u, hu, rfl⟩ := ht.of_initial (.inl hkind) hd
  split at hv
  case isTrue => exact hbelow hplaced hu hv hinit
  case isFalse =>
    rcases hv.of_widened with rfl | hv
    · exact .missing w
    · exact hbelow hplaced hu hv hinit

/-- Without cycles, the type of an inferred expression tells at most what the expression does. -/
theorem below_of_inferred (hp : p.Coherent) (h : p.Inferred loose isConst n) (hplaced : p.Placed n)
    (ht : p.Infers isConst n t) (hv : p.TypeFinds t v) (hw : p.NodeFinds n w) :
    Below loose v w := by
  induction h generalizing t v w with
  | atom hatom => exact .of_eq (value_of_atom hatom ht hv hw)
  | @parenthesized isConst i e _ ih =>
      refine ih (hplaced.of_mem_children ?_) (ht.of_wrapper fun _ => rfl) hv
        (hw.of_wrapper fun _ _ => rfl)
      simp [Node.children_eq, Node.fields, Field.contents]
  | @asConst isConst i e type hconst _ ih | @assertedConst isConst i e type hconst _ ih =>
      refine ih (hplaced.of_mem_children ?_) (ht.of_wrapper fun depth => ?_) hv
        (hw.of_wrapper fun _ _ => rfl)
      · simp [Node.children_eq, Node.fields, Field.contents]
      · simp only [Typing.ofExpression, hconst, if_true]
  | @array isConst i elements hloose h ih =>
      obtain ⟨ts, rfl, hts⟩ := ht.of_array fun e he => (h e he).not_spread
      obtain ⟨ws, rfl, hws⟩ := hw.of_array
      have hbelow : ∀ e ∈ elements, ∀ t v w, p.Infers isConst e t → p.TypeFinds t v →
          p.NodeFinds e w → Below loose v w := by
        intro e he t v w ht hv hw
        refine ih e he (hplaced.of_mem_children ?_) ht hv hw
        simpa [Node.children_eq, Node.fields, Field.contents] using he
      cases isConst with
      | true =>
          obtain ⟨vs, rfl, hvs⟩ := hv.of_reference
          exact .array (below_of_elements hbelow hts hvs hws)
      | false =>
          obtain rfl : loose = true := by simpa using hloose
          obtain ⟨vs, rfl, hvs⟩ := hv.of_reference
          cases hvs with
          | cons hentry hnil =>
          cases hnil
          exact below_of_union hbelow hts hentry hws
  | object => exact .of_eq (value_of_object hp hplaced ht hv hw)
  | unbound hat =>
      obtain rfl : t = .unknown := ht.eq_of_known fun _ => by simp only [Typing.ofExpression, hat]
      obtain rfl := hv.eq_none rfl
      exact .missing w
  | typed hat hproperty hresolved =>
      obtain ⟨u, hu, hw⟩ := (hw.of_name hat).of_type hproperty hresolved
      rcases (ht.of_name hat).of_aliased hp.unique hu with rfl | rfl
      · obtain rfl := hv.eq_none rfl
        exact .missing w
      · exact .of_eq (.inr (hv.unique hw))
  | initial hat hkind hd _ ih =>
      have ht := (ht.of_name hat).of_step (by rw [hkind]; rfl)
      have hw := (hw.of_name hat).of_declaration (Symbol.resolved_of_variable hkind hd)
      have hs := aliased_mem_symbols (symbol_at_mem_symbols hat)
      exact below_of_initial hp hs hkind hd ih ht hv hw
  | blank hat hkind hd hblank =>
      have ht := (ht.of_name hat).of_step (by rw [hkind]; rfl)
      obtain rfl := ht.of_blank (.inl hkind) hd hblank
      obtain rfl := hv.eq_none rfl
      exact .missing w
  | value hat hkind hd h ih =>
      have ht := (ht.of_name hat).of_step (by rw [hkind]; rfl)
      have hw := (hw.of_name hat).of_declaration (Symbol.resolved_of_variable hkind hd)
      have hs := aliased_mem_symbols (symbol_at_mem_symbols hat)
      exact ih (hp.declared _ hs _ hd) (ht.of_expression (.inl hkind) hd h.not_declaration) hv hw

end Program

end StaticLiteral
