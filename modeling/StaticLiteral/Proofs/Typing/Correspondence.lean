import StaticLiteral.Proofs.Program.Correspondence
import StaticLiteral.Proofs.Typing.Answers

/-!
# Typing in programs that correspond

Programs that correspond give corresponding types: `Typing.parallels`. Types are related if they are
built alike from related symbols.
-/

namespace StaticLiteral

/-! ## Related types -/

namespace Ty

variable {ι : Type}

/-- The types are built alike, from symbols in the relation. -/
inductive Related (R : Symbol ι → Symbol ι → Prop) : Ty ι → Ty ι → Prop where
  | plain {t : Ty ι} (h : t.isPlain = true) : Related R t t
  | object (shape : ObjectShape) {s t : Option (Symbol ι)} (h : Option.Rel R s t) :
      Related R (object shape s) (object shape t)
  | reference (target : ReferenceTarget) (readonly : Bool) {ts us : List (Ty ι)}
      (h : List.Forall₂ (Related R) ts us) :
      Related R (reference target ts readonly) (reference target us readonly)
  | union {ts us : List (Ty ι)} (h : List.Forall₂ (Related R) ts us) :
      Related R (union ts) (union us)

namespace Related

variable {R : Symbol ι → Symbol ι → Prop} {t u v w : Ty ι} {ts us : List (Ty ι)}

/-- Related types widen alike. -/
theorem widened (h : Related R t u) : Related R t.widened u.widened := by
  cases h with
  | plain h =>
      refine .plain ?_
      unfold Ty.widened
      split <;> first | rfl | exact h
  | object shape h => exact .object shape h
  | reference target readonly h => exact .reference target readonly h
  | union h => exact .union h

/-- Related types are made `readonly` alike. -/
theorem as_readonly (h : Related R t u) : Related R t.asReadonly u.asReadonly := by
  cases h with
  | plain h =>
      have hsame : t.asReadonly = t := by cases t <;> first | rfl | simp [isPlain] at h
      exact hsame.symm ▸ .plain h
  | object shape h => exact .object shape h
  | reference target readonly h => cases target <;> exact .reference _ _ h
  | union h => exact .union h

/-- Related types have related constituents. -/
theorem constituents (h : Related R t u) :
    List.Forall₂ (Related R) t.constituents u.constituents := by
  cases h with
  | plain h =>
      have hsame : t.constituents = [t] := by cases t <;> first | rfl | simp [isPlain] at h
      exact hsame.symm ▸ .cons (.plain h) .nil
  | object shape h => exact .cons (.object shape h) .nil
  | reference target readonly h => exact .cons (.reference target readonly h) .nil
  | union h => exact h

/-- Related types coincide alike. -/
theorem coincides_eq (h : Related R t u) (hvw : Related R v w) :
    u.coincides w = t.coincides v := by
  cases h <;> cases hvw <;> first | rfl | (cases t <;> rfl)

/-- Of related lists, the distinct types are related. -/
theorem distinct_from {seen known : List (Ty ι)} (hseen : List.Forall₂ (Related R) seen known)
    (h : List.Forall₂ (Related R) ts us) :
    List.Forall₂ (Related R) (Union.distinctFrom Ty.coincides seen ts)
      (Union.distinctFrom Ty.coincides known us) := by
  induction h generalizing seen known with
  | nil => exact .nil
  | @cons t u ts us htu hrest ih =>
      have hany : known.any (Ty.coincides · u) = seen.any (Ty.coincides · t) := by
        induction hseen with
        | nil => rfl
        | cons hvw _ ihany => simp only [List.any_cons, ihany, hvw.coincides_eq htu]
      simp only [Union.distinctFrom, hany]
      split
      · exact ih hseen
      · exact .cons htu (ih (.cons htu hseen))

/-- Related types have related unions. -/
theorem union_of (h : List.Forall₂ (Related R) ts us) : Related R (unionOf ts) (unionOf us) := by
  have hflat : List.Forall₂ (Related R) (ts.map Ty.constituents).flatten
      (us.map Ty.constituents).flatten := by
    refine List.rel_flatten ?_
    rw [List.forall₂_map_left_iff, List.forall₂_map_right_iff]
    exact h.imp fun t u htu => htu.constituents
  have hjoin := distinct_from (.nil (R := Related R)) hflat
  unfold unionOf Union.join Union.distinct
  generalize Union.distinctFrom coincides [] _ = distinct at hjoin ⊢
  generalize Union.distinctFrom coincides [] _ = others at hjoin ⊢
  cases hjoin with
  | nil => exact .plain rfl
  | cons hfirst hrest =>
      cases hrest with
      | nil => exact hfirst
      | cons hsecond hrest => exact .union (.cons hfirst (.cons hsecond hrest))

mutual

/-- Types that are related because their symbols are the same are the same. -/
theorem eq_of_same (hR : ∀ s t, R s t → s = t) : ∀ {t u : Ty ι}, Related R t u → t = u
  | .object _ _, _, h => by
      cases h with
      | plain => rfl
      | object shape h =>
          cases h with
          | none => rfl
          | some h => rw [hR _ _ h]
  | .reference _ ts _, _, h => by
      cases h with
      | plain => rfl
      | reference target readonly h => rw [eq_of_all_same hR h]
  | .union ts, _, h => by
      cases h with
      | plain => rfl
      | union h => rw [eq_of_all_same hR h]
  | .any, _, h | .unknown, _, h | .never, _, h | .string, _, h | .number, _, h | .bigint, _, h
  | .boolean, _, h | .null, _, h | .undefined, _, h | .literal _, _, h => by
      cases h
      rfl

/-- Lists of types that are related because their symbols are the same are the same. -/
theorem eq_of_all_same (hR : ∀ s t, R s t → s = t) : ∀ {ts us : List (Ty ι)},
    List.Forall₂ (Related R) ts us → ts = us
  | [], _, h => by
      cases h
      rfl
  | t :: ts, _, h => by
      cases h with
      | cons hfirst hrest => rw [eq_of_same hR hfirst, eq_of_all_same hR hrest]

end

end Related

end Ty

/-! ## Parallel typing -/

namespace Typing

section

variable {R : BoundSymbol → BoundSymbol → Prop} {t u : BoundTy} {ts us : List BoundTy}

/-- A keyword stands for the same type in all programs. -/
theorem related_of_keyword (word : Text) : Ty.Related R (ofKeyword word) (ofKeyword word) := by
  have hall : ∀ row ∈ keywords, Ty.Related R row.2 row.2 := by
    simp only [keywords, List.forall_mem_cons]
    refine ⟨?_, ?_, ?_, ?_, ?_, ?_, ?_, ?_, ?_, ?_, .object _ .none, by simp⟩ <;> exact .plain rfl
  unfold ofKeyword
  cases hlookup : keywords.lookup word with
  | none => exact .plain rfl
  | some type =>
      obtain ⟨before, after, hsplit, _⟩ := List.lookup_eq_some_iff.mp hlookup
      exact hall (word, type) (by simp [hsplit])

/-- The text of a number has the same type in all programs. -/
theorem related_of_numeric (text : Text) : Ty.Related R (ofNumeric text) (ofNumeric text) := by
  unfold ofNumeric
  split <;> exact .plain rfl

/-- The text of a bigint has the same type in all programs. -/
theorem related_of_bigint (text : Text) : Ty.Related R (ofBigint text) (ofBigint text) := by
  unfold ofBigint
  split <;> exact .plain rfl

/-- Signs before operands that look alike make related types of related types. -/
theorem related_of_signed {N : Node → Node → Prop} {n m : Node} (operator : Text)
    (h : Ty.Related R t u) (hnm : Node.Similar N n m) :
    Ty.Related R (ofSigned operator n t) (ofSigned operator m u) := by
  obtain ⟨f, rfl, _⟩ := hnm
  have hsame : ofSigned operator (n.mapChildren f) u = ofSigned operator n t := by
    cases h with
    | plain _ => cases n <;> rfl
    | _ => rfl
  rw [hsame]
  exact .plain (is_plain_of_signed operator n t)

/-- Spreads of related types add related elements. -/
theorem related_spread (h : Ty.Related R t u) :
    List.Forall₂ (Ty.Related R) (spread t) (spread u) := by
  cases h with
  | plain h =>
      have hsame : spread t = [.unknown] := by cases t <;> first | rfl | simp [Ty.isPlain] at h
      exact hsame.symm ▸ .cons (.plain rfl) .nil
  | object shape h => exact .cons (.plain rfl) .nil
  | reference target readonly h =>
      cases target with
      | tuple => exact h
      | array | readonlyArray => exact .cons (.union_of h) .nil
  | union h => exact .cons (.plain rfl) .nil

/-- Arrays with related elements have related types. -/
theorem related_of_array (isConst : Bool) (h : List.Forall₂ (Ty.Related R) ts us) :
    Ty.Related R (ofArray isConst ts) (ofArray isConst us) := by
  unfold ofArray
  split
  · exact .reference _ _ h
  · refine .reference _ _ (.cons (.union_of ?_) .nil)
    rw [List.forall₂_map_left_iff, List.forall₂_map_right_iff]
    exact h.imp fun t u htu => htu.widened

/-- Generic types without a declaration are related if their arguments are. -/
theorem related_of_builtin (name : Text) (h : List.Forall₂ (Ty.Related R) ts us) :
    Ty.Related R (ofBuiltin name ts) (ofBuiltin name us) := by
  have hhead : Ty.Related R (ts.head?.getD .unknown) (us.head?.getD .unknown) := by
    cases h with
    | nil => exact .plain rfl
    | cons htu _ => exact htu
  unfold ofBuiltin
  split
  · exact .reference _ _ (.cons hhead .nil)
  · split
    · exact .reference _ _ (.cons hhead .nil)
    · split
      · cases h with
        | nil => exact .plain rfl
        | cons htu _ => exact htu.as_readonly
      · exact .plain rfl

end

variable {p q : Program} {N : Node → Node → Prop} {R : BoundSymbol → BoundSymbol → Prop}
  {n m : Node} {s t : BoundSymbol} {depth : Nat}

/-- Nodes that look alike are constant assertions alike. -/
theorem is_const_assertion_eq (h : ∀ {n m}, N n m → Node.Similar N n m)
    (hnm : Node.Similar N n m) : m.isConstAssertion = n.isConstAssertion := by
  obtain ⟨f, rfl, hf⟩ := hnm
  cases n with
  | asExpression i e type | typeAssertion i type e =>
      obtain ⟨g, htype, _⟩ := h (hf type (by simp [Node.operands]))
      simp only [Node.mapChildren, htype]
      cases type <;> rfl
  | _ => rfl

/-- Nodes that look alike are asserted to be constant alike. -/
theorem is_const_context_eq (h : ∀ {n m}, N n m → Node.Similar N n m)
    (hnm : Node.Similar N n m) : isConstContext m = isConstContext n := by
  induction n using Node.children_induction generalizing m with
  | step n ih =>
      have hassertion := is_const_assertion_eq h hnm
      obtain ⟨f, rfl, hf⟩ := hnm
      cases n with
      | parenthesizedExpression i e =>
          have he : N e (f e) := hf e (by simp [Node.operands])
          have hcontext := ih e (by simp [Node.children_eq, Node.fields, Field.contents]) (h he)
          exact hcontext
      | _ => exact hassertion

/-- What looks like a literal in a literal type is one alike. -/
theorem is_type_literal_eq (h : ∀ {n m}, N n m → Node.Similar N n m)
    (hnm : Node.Similar N n m) : isTypeLiteral m = isTypeLiteral n := by
  obtain ⟨f, rfl, hf⟩ := hnm
  cases n with
  | prefixUnaryExpression i operator operand =>
      obtain ⟨g, hoperand, _⟩ := h (hf operand (by simp [Node.operands]))
      simp only [Node.mapChildren, hoperand]
      cases operand <;> rfl
  | _ => rfl

/-- At some depth, everything that corresponds has parallel types. -/
structure Parallels (p q : Program) (N : Node → Node → Prop) (R : BoundSymbol → BoundSymbol → Prop)
    (guarded : Bool) (depth : Nat) : Prop where
  symbol : ∀ {s t}, R s t → ∀ busy,
    Parallel (Ty.Related R) (ofSymbol p guarded depth busy s) (ofSymbol q guarded depth busy t)
  ofDeclaration : ∀ {n m}, N n m → ∀ busy isConst, Parallel (Ty.Related R)
    (ofVariable p guarded depth busy isConst n) (ofVariable q guarded depth busy isConst m)
  property : ∀ {s t n m}, R s t → N n m → ∀ busy, Parallel (Ty.Related R)
    (ofProperty p guarded depth busy s n) (ofProperty q guarded depth busy t m)
  expression : ∀ {n m}, N n m → ∀ busy isConst, Parallel (Ty.Related R)
    (ofExpression p guarded depth busy isConst n) (ofExpression q guarded depth busy isConst m)
  element : ∀ {n m}, N n m → ∀ busy isConst, Parallel (List.Forall₂ (Ty.Related R))
    (ofElement p guarded depth busy isConst n) (ofElement q guarded depth busy isConst m)
  annotation : ∀ {n m}, N n m → ∀ busy,
    Parallel (Ty.Related R) (ofTypeNode p guarded depth busy n) (ofTypeNode q guarded depth busy m)
  namedType : ∀ {s t}, R s t → ∀ busy, Parallel (Ty.Related R)
    (ofNamedType p guarded depth busy s) (ofNamedType q guarded depth busy t)

namespace Parallels

variable {guarded : Bool} (h : p.Matches q N R) (ih : Parallels p q N R guarded depth)
  (busy : List SymbolId) (isConst : Bool)
include h ih

/-- Corresponding symbols have parallel types one level up. -/
theorem symbol_step (hst : R s t) :
    Parallel (Ty.Related R) (ofSymbol p guarded (depth + 1) busy s)
      (ofSymbol q guarded (depth + 1) busy t) := by
  have hend := h.alias_end hst
  have hdeclaration := rel_cases (h.declaration hst)
  simp only [ofSymbol, h.id hst, h.kind hst, h.isConst hst, h.name hst, h.kind hend]
  split
  · exact .ok (.plain rfl)
  · cases hkind : s.kind with
    | blockScopedVariable | functionScopedVariable =>
        rcases hdeclaration with ⟨hs, ht⟩ | ⟨n, m, hs, ht, hnm⟩ <;> simp only [hs, ht]
        · exact .ok (.plain (is_plain_of_ambient s.name))
        · exact ih.ofDeclaration hnm _ _
    | property =>
        rcases hdeclaration with ⟨hs, ht⟩ | ⟨n, m, hs, ht, hnm⟩ <;> simp only [hs, ht]
        · exact .ok (.plain rfl)
        · exact ih.property hst hnm _
    | aliasOf origin =>
        dsimp only
        split
        · exact .ok (.plain rfl)
        · exact ih.symbol hend _
    | function | enum | namespaceBlock | classDefinition => exact .ok (.object _ (.some hst))
    | _ => exact .ok (.plain rfl)

/-- The type of an initial value, widened or not, is parallel one level up. -/
theorem initial_step (hnm : N n m) (keeps : Bool) :
    Parallel (Ty.Related R)
      (do let type ← ofExpression p guarded depth busy false n
          return if keeps || isConstContext n then type else type.widened)
      (do let type ← ofExpression q guarded depth busy false m
          return if keeps || isConstContext m then type else type.widened) := by
  refine (ih.expression hnm busy false).bind fun t u htu => .ok ?_
  rw [is_const_context_eq h.similar (h.similar hnm)]
  split
  · exact htu
  · exact htu.widened

/-- Corresponding variables have parallel types one level up. -/
theorem declaration_step (hnm : N n m) :
    Parallel (Ty.Related R) (ofVariable p guarded (depth + 1) busy isConst n)
      (ofVariable q guarded (depth + 1) busy isConst m) := by
  have hsimilar := h.similar hnm
  obtain ⟨f, rfl, hf⟩ := h.similar hnm
  cases n with
  | variableDeclaration i name type init | parameter i name type init =>
      cases type with
      | some type => exact ih.annotation (hf type (by simp [Node.operands])) _
      | none =>
          cases init with
          | some init => exact ih.initial_step h _ (hf init (by simp [Node.operands])) isConst
          | none => exact .ok (.plain rfl)
  | bindingElement i name key init isRest => exact .ok (.plain rfl)
  | _ => exact ih.expression hnm _ _

/-- Corresponding properties have parallel types one level up. -/
theorem property_step (hst : R s t) (hnm : N n m) :
    Parallel (Ty.Related R) (ofProperty p guarded (depth + 1) busy s n)
      (ofProperty q guarded (depth + 1) busy t m) := by
  obtain ⟨f, rfl, hf⟩ := h.similar hnm
  cases n with
  | propertyAssignment i name init =>
      exact ih.initial_step h _ (hf init (by simp [Node.operands])) false
  | shorthandPropertyAssignment i name =>
      simp only [Node.mapChildren, ofProperty]
      rcases rel_cases (h.lookup_name (hf name (by simp [Node.operands])) .value) with
        ⟨hs, ht⟩ | ⟨s, t, hs, ht, hst⟩ <;> simp only [hs, ht]
      · exact .ok (.plain rfl)
      · exact ih.symbol hst _
  | propertySignature i name type =>
      cases type with
      | some type => exact ih.annotation (hf type (by simp [Node.operands])) _
      | none => exact .ok (.plain rfl)
  | methodDeclaration i name body => exact .ok (.object _ (.some hst))
  | _ => exact .ok (.plain rfl)

/-- Corresponding expressions have parallel types one level up. -/
theorem expression_step (hnm : N n m) :
    Parallel (Ty.Related R) (ofExpression p guarded (depth + 1) busy isConst n)
      (ofExpression q guarded (depth + 1) busy isConst m) := by
  have hassertion := is_const_assertion_eq h.similar (h.similar hnm)
  have hliteral := h.literalSymbol hnm
  have hat := rel_cases (h.symbolAt hnm)
  obtain ⟨f, rfl, hf⟩ := h.similar hnm
  cases n with
  | parenthesizedExpression i e | satisfiesExpression i e type =>
      exact ih.expression (hf e (by simp [Node.operands])) _ _
  | asExpression i e type | typeAssertion i type e =>
      simp only [Node.mapChildren] at hassertion
      simp only [Node.mapChildren, ofExpression, hassertion]
      split
      · exact ih.expression (hf e (by simp [Node.operands])) _ _
      · exact ih.annotation (hf type (by simp [Node.operands])) _
  | numericLiteral i text => exact .ok (related_of_numeric text)
  | bigintLiteral i text => exact .ok (related_of_bigint text)
  | regularExpressionLiteral i text | functionExpression i name parameters body =>
      exact .ok (.object _ .none)
  | prefixUnaryExpression i operator operand =>
      have hoperand := hf operand (by simp [Node.operands])
      simp only [Node.mapChildren, ofExpression]
      split
      · exact .ok (.plain rfl)
      · split
        · exact (ih.expression hoperand _ _).map fun t u htu =>
            related_of_signed operator htu (h.similar hoperand)
        · exact .ok (.plain rfl)
  | arrayLiteral i elements =>
      refine .map (.mapM ?_) fun ts us hlists => related_of_array isConst (List.rel_flatten hlists)
      exact (Node.Similar.forall_map hf).imp fun n m hnm => ih.element hnm _ _
  | objectLiteral i properties => exact .ok (.object _ hliteral)
  | identifier i text =>
      simp only [Node.mapChildren] at hat
      simp only [Node.mapChildren, ofExpression]
      rcases hat with ⟨hs, ht⟩ | ⟨s, t, hs, ht, hst⟩ <;> simp only [hs, ht]
      · exact .ok (.plain rfl)
      · exact ih.symbol hst _
  | _ => exact .ok (.plain rfl)

/-- Corresponding elements have parallel types one level up. -/
theorem element_step (hnm : N n m) :
    Parallel (List.Forall₂ (Ty.Related R)) (ofElement p guarded (depth + 1) busy isConst n)
      (ofElement q guarded (depth + 1) busy isConst m) := by
  have hvalue := (ih.expression hnm busy isConst).map
    (f := fun type => [type]) (g := fun type => [type]) (S := List.Forall₂ (Ty.Related R))
    fun t u htu => .cons htu .nil
  obtain ⟨f, rfl, hf⟩ := h.similar hnm
  cases n with
  | omittedExpression i => exact .ok (.cons (.plain rfl) .nil)
  | spreadElement i e =>
      exact (ih.expression (hf e (by simp [Node.operands])) _ _).map fun t u htu =>
        related_spread htu
  | _ => exact hvalue

/-- Corresponding annotations mean parallel types one level up. -/
theorem annotation_step (hnm : N n m) :
    Parallel (Ty.Related R) (ofTypeNode p guarded (depth + 1) busy n)
      (ofTypeNode q guarded (depth + 1) busy m) := by
  have hliteral := h.literalSymbol hnm
  obtain ⟨f, rfl, hf⟩ := h.similar hnm
  have hall : ∀ {es : List Node}, (∀ e ∈ es, N e (f e)) → Parallel (List.Forall₂ (Ty.Related R))
      (es.mapM (ofTypeNode p guarded depth busy))
      ((es.map f).mapM (ofTypeNode q guarded depth busy)) := fun hes =>
    .mapM ((Node.Similar.forall_map hes).imp fun n m hnm => ih.annotation hnm _)
  cases n with
  | literalType i literal =>
      have hof := hf literal (by simp [Node.operands])
      simp only [Node.mapChildren, ofTypeNode, (h.similar hof).identifier_eq,
        is_type_literal_eq h.similar (h.similar hof)]
      split
      · exact .ok (.plain rfl)
      · split
        · exact ih.expression hof _ _
        · exact .ok (.plain rfl)
  | keywordType i word => exact .ok (related_of_keyword word)
  | tupleType i elements => exact (hall hf).map fun ts us hts => .reference _ _ hts
  | arrayType i element =>
      exact (ih.annotation (hf element (by simp [Node.operands])) _).map fun t u htu =>
        .reference _ _ (.cons htu .nil)
  | typeOperator i operator type =>
      simp only [Node.mapChildren, ofTypeNode]
      split
      · exact (ih.annotation (hf type (by simp [Node.operands])) _).map fun t u htu =>
          htu.as_readonly
      · exact .ok (.plain rfl)
  | typeReference i name arguments =>
      have hname := hf name (by simp [Node.operands])
      simp only [Node.mapChildren, ofTypeNode]
      refine (hall fun c hc => hf c (by simp [Node.operands, hc])).bind fun ts us hts => ?_
      rcases rel_cases (h.lookup_name hname .type) with ⟨hs, ht⟩ | ⟨s, t, hs, ht, hst⟩ <;>
        simp only [hs, ht]
      · rw [(h.similar hname).identifier_eq]
        exact .ok (related_of_builtin _ hts)
      · exact ih.namedType (h.alias_end hst) _
  | typeLiteral i members => exact .ok (.object _ hliteral)
  | unionType i types => exact (hall hf).map fun ts us hts => .union_of hts
  | _ => exact .ok (.plain rfl)

/-- Corresponding symbols name parallel types one level up. -/
theorem named_type_step (hst : R s t) :
    Parallel (Ty.Related R) (ofNamedType p guarded (depth + 1) busy s)
      (ofNamedType q guarded (depth + 1) busy t) := by
  have hdeclaration := rel_cases (h.declaration hst)
  simp only [ofNamedType, h.id hst, h.kind hst]
  cases hkind : s.kind with
  | typeAlias =>
      dsimp only
      split
      · exact .ok (.plain rfl)
      · rcases hdeclaration with ⟨hs, ht⟩ | ⟨n, m, hs, ht, hnm⟩ <;> simp only [hs, ht]
        · exact .ok (.plain rfl)
        · obtain ⟨f, rfl, hf⟩ := h.similar hnm
          cases n with
          | typeAliasDeclaration i name type exported =>
              exact ih.annotation (hf type (by simp [Node.operands])) _
          | _ => exact .ok (.plain rfl)
  | interface | classDefinition => exact .ok (.object _ (.some hst))
  | _ => exact .ok (.plain rfl)

end Parallels

/-- In programs that correspond, everything that corresponds has parallel types. -/
theorem parallels (h : p.Matches q N R) (guarded : Bool) (depth : Nat) :
    Parallels p q N R guarded depth := by
  induction depth with
  | zero =>
      constructor
      all_goals intros; exact .error .tooDeep
  | succ depth ih =>
      exact {
        symbol := fun hst busy => ih.symbol_step h busy hst
        ofDeclaration := fun hnm busy isConst => ih.declaration_step h busy isConst hnm
        property := fun hst hnm busy => ih.property_step h busy hst hnm
        expression := fun hnm busy isConst => ih.expression_step h busy isConst hnm
        element := fun hnm busy isConst => ih.element_step h busy isConst hnm
        annotation := fun hnm busy => ih.annotation_step h busy hnm
        namedType := fun hst busy => ih.named_type_step h busy hst }

end Typing

end StaticLiteral
