import StaticLiteral.Proofs.ParseTree.Limits
import StaticLiteral.Proofs.ParseTree.Making
import StaticLiteral.Proofs.Syntax.Cut

/-!
# Making syntax under two limits

`Pairs k R make other` relates what is made in one setting with at most `k` levels left to what is
made there under a limit that is no smaller. There is one rule for each way of putting such work
together. `Makers.Capped` says that trees made under the smaller limit are cut from those made under
the greater one, and how far down they reach; expressions made with such ways further down are like
that, too.
-/

namespace StaticLiteral

open MakeSyntax Node

variable {α β γ δ : Type} {k : Nat} {R R' : α → β → Prop} {S : γ → δ → Prop}
  {make : MakeSyntax α} {other : MakeSyntax β}

/-- What is made with at most so many levels left, and what is made under a limit that is no
smaller, are related. -/
def Pairs (k : Nat) (R : α → β → Prop) (make : MakeSyntax α) (other : MakeSyntax β) : Prop :=
  ∀ (ctx : SyntaxContext) (limit : Int), ctx.maxNesting ≤ limit →
    ctx.maxNesting ≤ ctx.nesting + k → ∀ anomalies anomalies' a b rest rest',
      (make ctx).run anomalies = (.ok a, rest) →
      (other (ctx.under limit)).run anomalies' = (.ok b, rest') → R a b

namespace Pairs

/-- What is there already is related or not. -/
theorem pure {a : α} {b : β} (h : R a b) : Pairs k R (Pure.pure a) (Pure.pure b) := by
  intro ctx limit _ _ anomalies anomalies' a' b' rest rest' hmake hother
  obtain rfl : a = a' := by cases hmake; rfl
  obtain rfl : b = b' := by cases hother; rfl
  exact h

/-- What is related to everything is related to whatever is made. -/
theorem pure_left {a : α} (h : ∀ b, R a b) : Pairs k R (Pure.pure a) other := by
  intro ctx limit _ _ anomalies anomalies' a' b rest rest' hmake _
  obtain rfl : a = a' := by cases hmake; rfl
  exact h b

/-- Work that stops makes nothing. -/
theorem throw (stop : SyntaxStop) : Pairs k R (MonadExcept.throw stop) other := by
  intro ctx limit _ _ anomalies anomalies' a b rest rest' hmake
  cases hmake

/-- Work that goes on with what was made before. -/
theorem bind {f : α → MakeSyntax γ} {g : β → MakeSyntax δ} (h : Pairs k R make other)
    (hf : ∀ a b, R a b → Pairs k S (f a) (g b)) : Pairs k S (make >>= f) (other >>= g) := by
  intro ctx limit hle hlevels anomalies anomalies' c d rest rest' hmake hother
  rw [run_bind] at hmake hother
  split at hmake
  case h_1 a middle ha =>
    split at hother
    case h_1 b middle' hb =>
      have hab := h ctx limit hle hlevels anomalies anomalies' a b middle middle' ha hb
      exact hf a b hab ctx limit hle hlevels middle middle' c d rest rest' hmake hother
    case h_2 => cases hother
  case h_2 => cases hmake

/-- Work that goes on with something that is the same under both limits. -/
theorem bind_same {again : MakeSyntax α} {f : α → MakeSyntax γ} {g : α → MakeSyntax δ}
    (h : Pairs k Eq make again) (hf : ∀ a, Pairs k S (f a) (g a)) :
    Pairs k S (make >>= f) (again >>= g) :=
  h.bind fun a _ hab => hab ▸ hf a

/-- What is weaker holds too. -/
theorem mono (h : Pairs k R make other) (himp : ∀ a b, R a b → R' a b) :
    Pairs k R' make other :=
  fun ctx limit hle hlevels anomalies anomalies' a b rest rest' hmake hother =>
    himp a b (h ctx limit hle hlevels anomalies anomalies' a b rest rest' hmake hother)

/-- What is made under the smaller limit has its properties, too. -/
theorem and_makes {P : α → Prop} (h : Pairs k R make other) (hmakes : Makes P make) :
    Pairs k (fun a b => R a b ∧ P a) make other :=
  fun ctx limit hle hlevels anomalies anomalies' a b rest rest' hmake hother =>
    ⟨h ctx limit hle hlevels anomalies anomalies' a b rest rest' hmake hother,
      hmakes ctx anomalies a rest hmake⟩

/-- Work that changes what was made before. -/
theorem map {f : α → γ} {g : β → δ} (h : Pairs k R make other)
    (hf : ∀ a b, R a b → S (f a) (g b)) : Pairs k S (f <$> make) (g <$> other) := by
  rw [map_eq_pure_bind, map_eq_pure_bind]
  exact h.bind fun a b hab => .pure (hf a b hab)

/-- Work on one thing after the other. -/
theorem mapM {ι : Type} {f : ι → MakeSyntax α} {g : ι → MakeSyntax β}
    (h : ∀ x, Pairs k R (f x) (g x)) (xs : List ι) :
    Pairs k (List.Forall₂ R) (xs.mapM f) (xs.mapM g) := by
  induction xs with
  | nil => exact .pure .nil
  | cons x rest ih =>
      rw [List.mapM_cons, List.mapM_cons]
      exact .bind (h x) fun _ _ hab => .bind ih fun _ _ hall => .pure (.cons hab hall)

/-- Work on one thing after the other that makes a list of trees. -/
theorem mapM_thinned {ι : Type} {R : Node → Node → Prop} {f : ι → MakeSyntax Node}
    (h : ∀ x, Pairs k R (f x) (f x)) (xs : List ι) :
    Pairs k (Thinned R) (xs.mapM f) (xs.mapM f) :=
  .mono (.mapM h xs) fun _ _ hall => .of_forall hall

/-- What stands for a tree that is cut off is related to everything, and one level is used. -/
theorem guarded {R : α → α → Prop} {make : MakeSyntax α} {n : ParseTree} {cut : Info → α}
    (hcut : ∀ i b, R (cut i) b) (h : ∀ j, k = j + 1 → Pairs j R make make) :
    Pairs k R (guarded n cut make) (guarded n cut make) := by
  intro ctx limit hle hlevels anomalies anomalies' a b rest rest' hmake hother
  rw [run_guarded] at hmake hother
  by_cases hlimit : ctx.maxNesting ≤ ctx.nesting
  · rw [if_pos hlimit] at hmake
    cases hmake
    exact hcut _ b
  · have hunder : ¬ (ctx.under limit).maxNesting ≤ (ctx.under limit).nesting := fun h =>
      hlimit (Int.le_trans hle h)
    rw [if_neg hlimit] at hmake
    rw [if_neg hunder] at hother
    obtain ⟨j, rfl⟩ : ∃ j, k = j + 1 := ⟨k - 1, by omega⟩
    refine h j rfl { ctx with nesting := ctx.nesting + 1 } limit hle ?_ anomalies anomalies' a b
      rest rest' hmake hother
    show ctx.maxNesting ≤ ((ctx.nesting + 1 : Nat) : Int) + j
    omega

/-- The place of a tree is the same. -/
theorem info (n : ParseTree) : Pairs k Eq (info n) (info n) := by
  intro ctx limit _ _ anomalies anomalies' a b rest rest' hmake hother
  cases hmake
  cases hother
  rfl

/-- The text of a tree is the same. -/
theorem text_between (start : Nat) (stop : Int) :
    Pairs k Eq (textBetween start stop) (textBetween start stop) := by
  intro ctx limit _ _ anomalies anomalies' a b rest rest' hmake hother
  cases hmake
  cases hother
  rfl

/-- The text of a tree is the same. -/
theorem text (n : ParseTree) : Pairs k Eq (text n) (text n) := text_between n.start n.stop

/-- What escapes denote is the same. -/
theorem decoded (t : Text) (n : ParseTree) : Pairs k Eq (decoded? t n) (decoded? t n) := by
  unfold decoded?
  split
  · exact .pure rfl
  · exact .bind (R := fun _ _ => True) (fun _ _ _ _ _ _ _ _ _ _ _ _ => trivial)
      fun _ _ _ => .pure rfl

/-- The text of a string is the same. -/
theorem string_text (n : ParseTree) : Pairs k Eq (stringText n) (stringText n) := by
  unfold stringText
  exact .bind_same (.text n) fun _ => .bind_same (.decoded _ n) fun _ => .pure rfl

end Pairs

namespace MakeSyntax

/-! ## What stays within the levels left -/

/-- A bound name is cut from another and stays within a bound, which is lower if it is no
pattern. -/
structure CappedName (k : Nat) (a b : Node) : Prop where
  capped : Capped (5 * k + 4) a b
  within : a.role ≠ .pattern → a.StaysWithin (5 * k + 2)

/-- The elements differ in their fields, which are cut off, at most. -/
inductive CappedElement (k : Nat) : Node → Node → Prop where
  | mk {i : Info} {name name' : Node} {key key' init init' : Option Node} {isRest : Bool}
      (hname : CappedName k name name')
      (hkey : Thinned (Capped (5 * k + 2)) key.toList key'.toList)
      (hinit : Thinned (Capped (5 * k + 2)) init.toList init'.toList) :
      CappedElement k (.bindingElement i name key init isRest)
        (.bindingElement i name' key' init' isRest)

/-- A name that is no pattern. -/
theorem CappedName.of_no_pattern {a b : Node} (h : Capped (5 * k + 2) a b) : CappedName k a b :=
  ⟨h.mono (by omega), fun _ => h.within⟩

/-- An element stays within a bound: a pattern inside it does not count. -/
theorem CappedElement.capped {a b : Node} (h : CappedElement k a b) : Capped (5 * k + 3) a b := by
  obtain ⟨hname, hkey, hinit⟩ := h
  refine ⟨.node rfl rfl ?_, .of_children (by omega) fun c hc => ?_⟩
  · exact .node hname.capped.cut (.optional (hkey.mono fun _ _ h => h.cut)
      (.optional (hinit.mono fun _ _ h => h.cut) (.same rfl .nil)))
  · have hbelow : ∀ {o o' : Option Node}, Thinned (Capped (5 * k + 2)) o.toList o'.toList →
        c ∈ o.toList → c.StaysWithin (5 * k + 2) := fun h hc => by
      rcases h.exists_of_mem hc with ⟨_, h⟩ | h
      · exact h.within
      · exact .leaf h.children_eq (by omega)
    rw [Node.children_eq] at hc
    simp only [fields, Field.contents, List.flatMap_cons, List.flatMap_nil, List.append_nil,
      List.mem_append, List.mem_singleton] at hc
    rcases hc with rfl | hc | hc
    · by_cases hpattern : c.role = .pattern
      · refine ⟨_, hname.capped.within, Nat.le_of_eq ?_⟩
        rw [uncounted_of_pattern rfl hpattern]
      · exact ⟨_, hname.within hpattern, by omega⟩
    · exact ⟨_, hbelow hkey hc, by omega⟩
    · exact ⟨_, hbelow hinit hc, by omega⟩

namespace Makers

variable {m : Makers}

/-- With `k` levels left the ways further down make trees that are cut from those made under a limit
that is no smaller, and stay within a bound. -/
structure Capped (m : Makers) : Prop where
  statement (k : Nat) (n : ParseTree) :
    Pairs k (fun s t => Thinned (Node.Capped (5 * k + 1)) s.toList t.toList) (m.statement n)
      (m.statement n)
  generic (k : Nat) (n : ParseTree) :
    Pairs k (Node.Capped (5 * k + 1)) (m.generic n) (m.generic n)
  expression (k : Nat) (n : ParseTree) :
    Pairs k (Node.Capped (5 * k + 1)) (m.expression n) (m.expression n)
  type (k : Nat) (n : ParseTree) : Pairs k (Node.Capped (5 * k + 1)) (m.type n) (m.type n)
  bindingName (k : Nat) (n : ParseTree) :
    Pairs k (CappedName k) (m.bindingName n) (m.bindingName n)
  bindingElement (k : Nat) (n : ParseTree) :
    Pairs k (CappedElement k) (m.bindingElement n) (m.bindingElement n)

namespace Capped

variable {bound : Nat} (h : m.Capped) (n : ParseTree) (o : Option ParseTree)
include h

/-! ## Trees of any sort -/

omit h in
/-- A tree is related if it is there. -/
theorem some_of {R : Node → Node → Prop} {make : MakeSyntax Node} (h : Pairs k R make make) :
    Pairs k (fun s t => Thinned R s.toList t.toList) (some <$> make) (some <$> make) :=
  .map h fun _ _ hab => .cons hab .nil

omit h in
/-- What stands for something missing. -/
theorem missing (hpos : 1 ≤ bound) : Node.Capped bound missing missing := .leaf rfl hpos

omit h in
/-- A name has no children. -/
theorem identifier (hpos : 1 ≤ bound) :
    Pairs k (Node.Capped bound) (identifier n) (identifier n) := by
  unfold MakeSyntax.identifier
  exact .bind_same (.info n) fun _ => .bind_same (.text n) fun _ => .pure (.leaf rfl hpos)

/-- An expression that may be missing is no deeper than one that is there. -/
theorem expression_or_missing :
    Pairs k (Node.Capped (5 * k + 1)) (m.expressionOrMissing o) (m.expressionOrMissing o) := by
  cases o with
  | none => exact .pure (missing (by omega))
  | some n => exact h.expression k n

/-- An optional expression is capped if it is there. -/
theorem optional_expression : Pairs k
    (fun e f => Thinned (Node.Capped (5 * k + 1)) e.toList f.toList) (m.optionalExpression o)
      (m.optionalExpression o) := by
  cases o with
  | none => exact .pure .nil
  | some n => exact some_of (h.expression k n)

/-- An unknown node is one level above its children. -/
theorem unknown : Pairs k (Node.Capped (5 * k + 2)) (m.unknown n) (m.unknown n) := by
  unfold Makers.unknown
  refine .bind (.mapM_thinned (h.generic k) _) fun _ _ hchildren => ?_
  refine .bind_same (.info n) fun _ => .pure (.node rfl rfl (by omega) ?_)
  exact .same rfl (.nodes hchildren .nil)

/-- A block is one level above its statements. -/
theorem block : Pairs k (Node.Capped (5 * k + 2)) (m.block n) (m.block n) := by
  unfold Makers.block
  refine .bind (.mapM (h.statement k) _) fun _ _ hstatements => ?_
  refine .bind_same (.info n) fun _ => .pure (.node rfl rfl (by omega) ?_)
  exact .nodes (.filter_map hstatements) .nil

/-- An optional block is capped if it is there. -/
theorem optional_block : Pairs k (fun e f => Thinned (Node.Capped (5 * k + 2)) e.toList f.toList)
    (m.optionalBlock o) (m.optionalBlock o) := by
  cases o with
  | none => exact .pure .nil
  | some n => exact some_of (h.block n)

/-- The type of an annotation is capped if there is an annotation; it may be cut off. -/
theorem type_annotation : Pairs k
    (fun e f => Thinned (Node.Capped (5 * k + 1)) e.toList f.toList) (m.typeAnnotation o)
      (m.typeAnnotation o) := by
  unfold typeAnnotation
  split
  · exact .pure .nil
  · split
    · split
      · exact some_of (h.type k _)
      · exact .pure .nil
    · exact some_of (h.type k _)

/-- A name or pattern that may be missing is no deeper than one that is there. -/
theorem binding_name_or_missing :
    Pairs k (CappedName k) (m.bindingNameOrMissing o) (m.bindingNameOrMissing o) := by
  cases o with
  | none => exact .pure (.of_no_pattern (missing (by omega)))
  | some n => exact h.bindingName k n

omit h in
/-- Elements between commas are related one by one, if holes are related to themselves. -/
theorem elements {R : Node → Node → Prop} {make : ParseTree → MakeSyntax Node}
    (hhole : ∀ i, R (.omittedExpression i) (.omittedExpression i))
    (h : ∀ n, Pairs k R (make n) (make n)) (expecting : Bool) (ns : List ParseTree) :
    Pairs k (Thinned R) (elements make expecting ns) (elements make expecting ns) := by
  induction ns generalizing expecting with
  | nil => exact .pure .nil
  | cons c rest ih =>
      unfold Makers.elements
      split
      · exact ih expecting
      · split
        · exact .pure .nil
        · split
          · split
            · refine .bind_same (.info c) fun i => ?_
              exact .bind (ih true) fun _ _ hall => .pure (.cons (hhole i) hall)
            · exact ih true
          · exact .bind (h c) fun _ _ hab => .bind (ih false) fun _ _ hall =>
              .pure (.cons hab hall)

/-! ## Expressions -/

omit h in
/-- A number has no children. -/
theorem number : Pairs k (Node.Capped (5 * k + 6)) (number n) (number n) := by
  unfold Makers.number
  refine .bind_same (.text n) fun t => ?_
  split
  · exact .bind_same (.info n) fun _ => .pure (.leaf rfl (by omega))
  · exact .bind_same (.info n) fun _ => .pure (.leaf rfl (by omega))

omit h in
/-- A string has no children, nor has the unknown node that stands for it. -/
theorem string (hpos : 1 ≤ bound) : Pairs k (Node.Capped bound) (string n) (string n) := by
  unfold Makers.string
  refine .bind_same (.text n) fun t => .bind_same (.decoded _ n) fun decoded => ?_
  split
  · exact .bind_same (.info n) fun _ => .pure (.leaf rfl hpos)
  · exact .bind_same (.info n) fun _ => .pure (.leaf rfl hpos)

/-- Substitutions are cut off together or not at all: what is decoded does not depend on the limit.
-/
theorem template_spans (hasHead : Bool) (subs : List ParseTree) :
    Pairs k (fun ss ts => (ss = none ↔ ts = none) ∧
        Thinned (Node.Capped (5 * k + 2)) (ss.getD []) (ts.getD []))
      (m.templateSpans n hasHead subs) (m.templateSpans n hasHead subs) := by
  induction subs with
  | nil => exact .pure ⟨Iff.rfl, .nil⟩
  | cons sub rest ih =>
      unfold templateSpans
      dsimp only
      refine .bind_same (.text_between _ _) fun t => .bind_same (.decoded t n) fun literal => ?_
      split
      · split
        · exact .pure ⟨Iff.rfl, .nil⟩
        · refine .bind (h.expression_or_missing _) fun e f he => .bind_same (.info sub) fun i => ?_
          refine .bind ih fun ss ts hspans => .pure ?_
          have hspan : Node.Capped (5 * k + 2) (.templateSpan i e ‹_›) (.templateSpan i f ‹_›) :=
            .node rfl rfl (by omega) (.node he (.same rfl .nil))
          cases ss <;> cases ts <;> simp at hspans ⊢
          · exact .nil
          · exact .cons hspan hspans
      · exact .pure ⟨Iff.rfl, .nil⟩

/-- A template is one level above its substitutions. -/
theorem template : Pairs k (Node.Capped (5 * k + 6)) (m.template n) (m.template n) := by
  have hcut : ∀ i, Node.Capped (5 * k + 6) (cutOff n i) (cutOff n i) := fun i =>
    .leaf rfl (by omega)
  unfold Makers.template
  dsimp only
  split
  · refine .bind_same (.text_between _ _) fun t => .bind_same (.decoded t n) fun decoded => ?_
    split
    · exact .bind_same (.info n) fun _ => .pure (.leaf rfl (by omega))
    · exact .bind_same (.info n) fun i => .pure (hcut i)
  · refine .bind_same (.text_between _ _) fun t => .bind_same (.decoded t n) fun head => ?_
    refine .bind (h.template_spans n _ _) fun ss ts hspans => ?_
    cases ss <;> cases ts <;> simp at hspans
    · exact .bind_same (.info n) fun i => .pure (hcut i)
    · refine .bind_same (.info n) fun _ => .pure (.mono ?_ (by omega : 5 * k + 3 ≤ 5 * k + 6))
      exact .node rfl rfl (by omega) (.same rfl (.nodes hspans .nil))

/-- An operator is one level above its operand. -/
theorem unary : Pairs k (Node.Capped (5 * k + 6)) (m.unary n) (m.unary n) := by
  unfold Makers.unary
  split
  · refine .bind_same (.info n) fun _ => .bind (h.expression k _) fun _ _ he => .pure ?_
    exact .node rfl rfl (by omega) (.same rfl (.node (he.mono (by omega)) .nil))
  · exact .mono (h.unknown n) fun _ _ hq => hq.mono (by omega)

/-- An array is one level above its elements. -/
theorem array : Pairs k (Node.Capped (5 * k + 6)) (m.array n) (m.array n) := by
  unfold Makers.array
  refine .bind_same (.info n) fun _ => ?_
  refine .bind (elements (fun i => .leaf rfl (by omega)) (fun n => .mono (h.expression k n)
    fun _ _ he => he.mono (by omega : 5 * k + 1 ≤ 5 * k + 5)) true _) fun _ _ hes => .pure ?_
  exact .node rfl rfl (by omega) (.nodes hes .nil)

/-- A property name is an identifier, an expression further down, or an unknown node one level above
its children. -/
theorem property_name :
    Pairs k (Node.Capped (5 * k + 2)) (m.propertyName o) (m.propertyName o) := by
  unfold propertyName
  split
  · exact .pure (missing (by omega))
  · split
    · exact identifier _ (by omega)
    · split
      · exact .mono (h.expression k _) fun _ _ he => he.mono (by omega)
      · exact h.unknown _

/-- A property is one level above its name and its value. -/
theorem property : Pairs k (Node.Capped (5 * k + 3)) (m.property n) (m.property n) := by
  unfold Makers.property
  split
  · refine .bind (h.property_name _) fun _ _ hname => ?_
    refine .bind (h.expression_or_missing _) fun _ _ hvalue => ?_
    refine .bind_same (.info n) fun _ => .pure (.node rfl rfl (by omega) ?_)
    exact .node hname (.node (hvalue.mono (by omega)) .nil)
  · refine .bind_same (.info n) fun _ => ?_
    refine .bind (identifier n (by omega : 1 ≤ 5 * k + 2)) fun _ _ hname => .pure ?_
    exact .node rfl rfl (by omega) (.node hname .nil)
  · refine .bind_same (.info n) fun _ => .bind (h.expression_or_missing _) fun _ _ he => .pure ?_
    exact .node rfl rfl (by omega) (.node (he.mono (by omega)) .nil)
  · refine .bind (h.property_name _) fun _ _ hname => ?_
    refine .bind (h.optional_block _) fun _ _ hbody => .bind_same (.info n) fun _ => .pure ?_
    exact .node rfl rfl (by omega) (.node hname (.optional hbody .nil))
  · exact .mono (h.unknown n) fun _ _ hq => hq.mono (by omega)

/-- An object is one level above its properties. -/
theorem object : Pairs k (Node.Capped (5 * k + 6)) (m.object n) (m.object n) := by
  unfold Makers.object
  refine .bind_same (.info n) fun _ => .bind (.mapM_thinned (fun c => .mono (h.property c)
    fun _ _ hc => hc.mono (by omega : 5 * k + 3 ≤ 5 * k + 5)) _) fun _ _ hes => .pure ?_
  exact .node rfl rfl (by omega) (.nodes hes .nil)

/-- The type of an assertion has no children, or is a type further down. -/
theorem asserted_type :
    Pairs k (Node.Capped (5 * k + 1)) (m.assertedType n) (m.assertedType n) := by
  unfold assertedType
  split
  · exact .pure (.leaf rfl (by omega))
  · split
    · exact h.type k _
    · exact .pure (.leaf rfl (by omega))

/-- An assertion is one level above its expression and its type. -/
theorem as_expression :
    Pairs k (Node.Capped (5 * k + 6)) (m.asExpression n) (m.asExpression n) := by
  unfold Makers.asExpression
  refine .bind (h.expression_or_missing _) fun _ _ he => .bind (h.asserted_type n) fun _ _ ht => ?_
  refine .bind_same (.info n) fun _ => .pure (.node rfl rfl (by omega) ?_)
  exact .node (he.mono (by omega)) (.node (ht.mono (by omega)) .nil)

/-- A satisfies expression is one level above its expression and its type. -/
theorem satisfies : Pairs k (Node.Capped (5 * k + 6)) (m.satisfies n) (m.satisfies n) := by
  unfold Makers.satisfies
  refine .bind (h.expression_or_missing _) fun e f he => ?_
  have hend : ∀ s t, Node.Capped (5 * k + 1) s t → Pairs k (Node.Capped (5 * k + 6))
      (MakeSyntax.info n >>= fun i => Pure.pure (Node.satisfiesExpression i e s))
      (MakeSyntax.info n >>= fun i => Pure.pure (Node.satisfiesExpression i f t)) :=
    fun s t ht => by
      refine .bind_same (.info n) fun _ => .pure (.node rfl rfl (by omega) ?_)
      exact .node (he.mono (by omega)) (.node (ht.mono (by omega)) .nil)
  dsimp only
  split
  · exact .bind (h.type k _) hend
  · exact .bind (.pure (.leaf rfl (by omega))) hend

/-- An assertion in angle brackets is one level above its expression and its type. -/
theorem type_assertion :
    Pairs k (Node.Capped (5 * k + 6)) (m.typeAssertion n) (m.typeAssertion n) := by
  unfold Makers.typeAssertion
  split
  · next brackets second rest _ =>
      have hend : ∀ s t, Node.Capped (5 * k + 1) s t → Pairs k (Node.Capped (5 * k + 6))
          (m.expression (rest.getLast?.getD second) >>= fun e => MakeSyntax.info n >>= fun i =>
            Pure.pure (Node.typeAssertion i s e))
          (m.expression (rest.getLast?.getD second) >>= fun e => MakeSyntax.info n >>= fun i =>
            Pure.pure (Node.typeAssertion i t e)) := fun s t ht => by
        refine .bind (h.expression k _) fun _ _ he => .bind_same (.info n) fun _ => .pure ?_
        refine .node rfl rfl (by omega) ?_
        exact .node (ht.mono (by omega)) (.node (he.mono (by omega)) .nil)
      refine .bind_same (.text _) fun t => ?_
      dsimp only
      split
      · exact .bind (.pure (.leaf rfl (by omega))) hend
      · split
        · exact .bind (h.type k _) hend
        · exact .bind (.pure (.leaf rfl (by omega))) hend
  · exact .mono (h.unknown n) fun _ _ hq => hq.mono (by omega)

/-- A parameter is one level above its pattern. -/
theorem parameters :
    Pairs k (Thinned (Node.Capped (5 * k + 5))) (m.parameters n) (m.parameters n) := by
  unfold Makers.parameters
  split
  · refine .bind (h.bindingName k _) fun _ _ hname => .bind_same (.info _) fun _ => .pure ?_
    refine .cons (.node rfl rfl (by omega) ?_) .nil
    exact .node hname.capped (.optional .nil (.optional .nil .nil))
  · exact .pure .nil
  · refine .mapM_thinned (fun p => ?_) _
    refine .bind (h.binding_name_or_missing _) fun _ _ hname => ?_
    refine .bind (h.type_annotation _) fun _ _ htype => ?_
    refine .bind (h.optional_expression _) fun _ _ hinit => .bind_same (.info p) fun _ => .pure ?_
    refine .node rfl rfl (by omega) (.node hname.capped ?_)
    exact .optional (htype.mono fun _ _ h => h.mono (by omega))
      (.optional (hinit.mono fun _ _ h => h.mono (by omega)) .nil)

omit h in
/-- An optional identifier has no children. -/
theorem optional_identifier (hpos : 1 ≤ bound) :
    Pairs k (fun s t => Thinned (Node.Capped bound) s.toList t.toList) (optionalIdentifier o)
      (optionalIdentifier o) := by
  cases o with
  | none => exact .pure .nil
  | some n => exact some_of (identifier n hpos)

/-- A function is one level above its parameters and its body. -/
theorem function_expression :
    Pairs k (Node.Capped (5 * k + 6)) (m.functionExpression n) (m.functionExpression n) := by
  unfold Makers.functionExpression
  have hend : ∀ body body' : Option Node,
      Thinned (Node.Capped (5 * k + 2)) body.toList body'.toList → Pairs k (Node.Capped (5 * k + 6))
        (optionalIdentifier (n.child? "name") >>= fun name => m.parameters n >>= fun ps =>
          MakeSyntax.info n >>= fun i => Pure.pure (Node.functionExpression i name ps body))
        (optionalIdentifier (n.child? "name") >>= fun name => m.parameters n >>= fun ps =>
          MakeSyntax.info n >>= fun i => Pure.pure (Node.functionExpression i name ps body')) :=
    fun body body' hbody => by
      refine .bind (optional_identifier _ (by omega : 1 ≤ 5 * k + 5)) fun _ _ hname => ?_
      refine .bind (h.parameters n) fun _ _ hps => .bind_same (.info n) fun _ => .pure ?_
      refine .node rfl rfl (by omega) (.optional hname (.nodes hps (.optional ?_ .nil)))
      exact hbody.mono fun _ _ h => h.mono (by omega)
  dsimp only
  split
  · split
    · exact .bind (some_of (h.block _)) hend
    · exact .bind (some_of (.mono (h.expression k _) fun _ _ he => he.mono (by omega))) hend
  · exact .bind (.pure .nil) hend

/-- An expression of any type of tree is capped at what one level more allows. -/
theorem expression_of_type :
    Pairs k (Node.Capped (5 * k + 6)) (m.expressionOfType n) (m.expressionOfType n) := by
  have hleaf : ∀ node : Info → Node, (∀ i, (node i).children = []) →
      Pairs k (Node.Capped (5 * k + 6)) (MakeSyntax.info n >>= fun i => Pure.pure (node i))
        (MakeSyntax.info n >>= fun i => Pure.pure (node i)) := fun node hnode =>
    .bind_same (.info n) fun i => .pure (.leaf (hnode i) (by omega))
  have hwrapper : ∀ node : Info → Node → Node,
      (∀ i e f, (node i e).kindName = (node i f).kindName ∧ (node i e).info = (node i f).info ∧
        (node i e).fields = [("expression", .node e)]) →
      Pairs k (Node.Capped (5 * k + 6))
        (MakeSyntax.info n >>= fun i => m.expressionOrMissing n.firstNamed? >>= fun e =>
          Pure.pure (node i e))
        (MakeSyntax.info n >>= fun i => m.expressionOrMissing n.firstNamed? >>= fun e =>
          Pure.pure (node i e)) := fun node hnode => by
    refine .bind_same (.info n) fun i => .bind (h.expression_or_missing _) fun e f he => .pure ?_
    obtain ⟨hkind, hinfo, hfields⟩ := hnode i e f
    refine .node hkind hinfo (by omega) ?_
    rw [hfields, (hnode i f e).2.2]
    exact .node (he.mono (by omega)) .nil
  unfold expressionOfType
  split
  · exact number n
  · exact string n (by omega)
  · exact h.template n
  · exact .bind_same (.info n) fun _ => .bind_same (.text n) fun _ => .pure (.leaf rfl (by omega))
  · exact hleaf _ fun _ => rfl
  · exact hleaf _ fun _ => rfl
  · exact hleaf _ fun _ => rfl
  · exact identifier n (by omega)
  · exact h.unary n
  · exact h.array n
  · exact h.object n
  · exact hwrapper _ fun _ _ _ => ⟨rfl, rfl, rfl⟩
  · exact h.as_expression n
  · exact h.satisfies n
  · exact h.type_assertion n
  · exact hwrapper _ fun _ _ _ => ⟨rfl, rfl, rfl⟩
  · exact hwrapper _ fun _ _ _ => ⟨rfl, rfl, rfl⟩
  · exact h.function_expression n
  · exact h.function_expression n
  · exact h.function_expression n
  · exact h.function_expression n
  · split
    · exact identifier n (by omega)
    · exact .mono (h.unknown n) fun _ _ hq => hq.mono (by omega)

end Capped

end Makers

end MakeSyntax

end StaticLiteral
