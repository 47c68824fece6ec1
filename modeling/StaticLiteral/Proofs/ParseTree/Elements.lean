import StaticLiteral.Proofs.ParseTree.Making

/-!
# Elements between brackets

The elements of an array, and those of a pattern that takes an array apart, stand between brackets
with commas that separate them; comments may stand anywhere. `elements_keep_indices` says that each
element gets the index that the language gives it, the number of the commas before it, and that the
indices that no element has are holes.
-/

namespace StaticLiteral

open MakeSyntax

namespace ParseTree

/-- Whether the root is a comma. -/
def isComma (n : ParseTree) : Bool := n.type == ","

/-- Whether the root is an element when it stands between brackets. -/
def isElement (n : ParseTree) : Bool := !n.isSkipped && !(["[", "]", ","].contains n.type)

end ParseTree

/-- What may stand between brackets: elements and commas, with a comma between any two elements, and
what means nothing. -/
structure IsRow (inner : List ParseTree) : Prop where
  sorts : ∀ c ∈ inner, c.isSkipped ∨ c.isComma ∨ c.isElement
  separated : ∀ before c between d after, inner = before ++ c :: (between ++ d :: after) →
    c.isElement → d.isElement → ∃ comma ∈ between, comma.isComma

/-- The last of the trees that mean something is an element. -/
def endsInElement (inner : List ParseTree) : Bool :=
  (inner.filter fun c => !c.isSkipped).getLast?.any ParseTree.isElement

/-- Of the nodes, those that are made of the elements stand at their indices, and the others are
holes. -/
structure KeepsIndices (inner : List ParseTree) (made nodes : List Node) : Prop where
  length : nodes.length =
    inner.countP ParseTree.isComma + (if endsInElement inner then 1 else 0)
  element : ∀ p c, inner[p]? = some c → c.isElement →
    ∃ node, made[(inner.take p).countP ParseTree.isElement]? = some node ∧
      nodes[(inner.take p).countP ParseTree.isComma]? = some node
  hole : ∀ k < nodes.length,
    (∀ p c, inner[p]? = some c → c.isElement →
      (inner.take p).countP ParseTree.isComma ≠ k) →
    ∃ i, nodes[k]? = some (.omittedExpression i)

/-- The ways to make syntax of a tree with elements between brackets: how one of the elements is
made, and what is made of all. -/
inductive ReadsElements (m : Makers) (n : ParseTree) :
    MakeSyntax Node → (ParseTree → MakeSyntax Node) → (Info → List Node → Node) → Prop where
  | array (h : n.type = "array") :
      ReadsElements m n (m.expressionOfType n) m.expression .arrayLiteral
  | pattern (h : n.type = "array_pattern") :
      ReadsElements m n (m.makeBindingName n) m.bindingElement .arrayBindingPattern

/-- What stands between brackets, behind an element with no comma after it or not. -/
inductive Row : Bool → List ParseTree → Prop where
  | nil (expecting : Bool) : Row expecting []
  | skipped {expecting : Bool} {c : ParseTree} {inner : List ParseTree} (hc : c.isSkipped)
      (rest : Row expecting inner) : Row expecting (c :: inner)
  | comma {expecting : Bool} {c : ParseTree} {inner : List ParseTree} (hc : c.isComma)
      (rest : Row true inner) : Row expecting (c :: inner)
  | element {c : ParseTree} {inner : List ParseTree} (hc : c.isElement)
      (rest : Row false inner) : Row true (c :: inner)

variable {c d closing : ParseTree} {inner rest : List ParseTree} {made nodes : List Node}
  {expecting : Bool}

/-! ## The sorts of trees -/

/-- A comma means something. -/
theorem ParseTree.isSkipped_of_comma (h : c.isComma) : c.isSkipped = false := by
  simp [isSkipped, eq_of_beq h]

/-- A comma is no element. -/
theorem ParseTree.isElement_of_comma (h : c.isComma) : c.isElement = false := by
  simp [isElement, eq_of_beq h]

/-- What means nothing is no comma. -/
theorem ParseTree.isComma_of_skipped (h : c.isSkipped) : c.isComma = false := by
  refine Bool.eq_false_iff.mpr fun hcomma => ?_
  rw [isSkipped_of_comma hcomma] at h
  cases h

/-- What means nothing is no element. -/
theorem ParseTree.isElement_of_skipped (h : c.isSkipped) : c.isElement = false := by
  simp [isElement, h]

/-- An element means something. -/
theorem ParseTree.isSkipped_of_element (h : c.isElement) : c.isSkipped = false :=
  (Bool.not_eq_true' _).mp ((Bool.and_eq_true _ _).mp h).1

/-- An element is no comma. -/
theorem ParseTree.isComma_of_element (h : c.isElement) : c.isComma = false := by
  refine Bool.eq_false_iff.mpr fun hcomma => ?_
  rw [isElement_of_comma hcomma] at h
  cases h

namespace IsRow

/-- What follows the first tree of a row is a row. -/
theorem tail (h : IsRow (c :: inner)) : IsRow inner :=
  ⟨fun d hd => h.sorts d (List.mem_cons_of_mem c hd),
    fun before d between e after heq =>
      h.separated (c :: before) d between e after (by rw [heq]; rfl)⟩

/-- Read from the left, a row is one tree after the other. -/
theorem row (h : IsRow inner) (hparted : expecting = false → ∀ between d after,
    inner = between ++ d :: after → d.isElement → ∃ comma ∈ between, comma.isComma) :
    Row expecting inner := by
  induction inner generalizing expecting with
  | nil => exact .nil expecting
  | cons c inner ih =>
      rcases h.sorts c List.mem_cons_self with hc | hc | hc
      · refine .skipped hc (ih h.tail fun hexpecting between d after heq hd => ?_)
        obtain ⟨comma, hmem, hcomma⟩ :=
          hparted hexpecting (c :: between) d after (by rw [heq]; rfl) hd
        rcases List.mem_cons.mp hmem with rfl | hmem
        · rw [ParseTree.isComma_of_skipped hc] at hcomma
          cases hcomma
        · exact ⟨comma, hmem, hcomma⟩
      · exact .comma hc (ih h.tail nofun)
      · match expecting with
        | true =>
            exact .element hc (ih h.tail fun _ between d after heq hd =>
              h.separated [] c between d after (by rw [heq]; rfl) hc hd)
        | false =>
            -- nothing stands between this element and the one before it
            obtain ⟨comma, hmem, -⟩ := hparted rfl [] c inner rfl hc
            cases hmem

end IsRow

/-! ## Indices -/

/-- What means nothing in front does not matter to the end. -/
theorem ends_in_element_skipped (hc : c.isSkipped) :
    endsInElement (c :: inner) = endsInElement inner := by
  simp [endsInElement, hc]

/-- A comma in front does not matter to the end. -/
theorem ends_in_element_comma (hc : c.isComma) :
    endsInElement (c :: inner) = endsInElement inner := by
  have hlast : ∀ l : List ParseTree, (c :: l).getLast?.any ParseTree.isElement =
      l.getLast?.any ParseTree.isElement := by
    intro l
    cases l with
    | nil => exact ParseTree.isElement_of_comma hc
    | cons d l => rw [List.getLast?_cons_cons]
  rw [endsInElement, List.filter_cons_of_pos (by simp [ParseTree.isSkipped_of_comma hc])]
  exact hlast _

/-- What comes last does not depend on what stands before the last comma. -/
theorem ends_in_element_comma_second (hc : c.isElement) (hd : d.isComma) :
    endsInElement (c :: d :: inner) = endsInElement inner := by
  calc
    endsInElement (c :: d :: inner) = endsInElement (d :: inner) := by
      simp only [endsInElement, List.filter_cons, ParseTree.isSkipped_of_element hc,
        ParseTree.isSkipped_of_comma hd, Bool.not_false, if_true, List.getLast?_cons_cons]
    _ = endsInElement inner := ends_in_element_comma hd

/-- What means nothing in second place does not matter to the end. -/
theorem ends_in_element_skipped_second (hd : d.isSkipped) :
    endsInElement (c :: d :: inner) = endsInElement (c :: inner) := by
  by_cases hc : c.isSkipped <;> simp [endsInElement, hc, hd]

namespace KeepsIndices

/-- An empty row has no elements and no holes. -/
theorem nil : KeepsIndices [] [] [] := ⟨rfl, by simp, by simp⟩

/-- What means nothing changes no index. -/
theorem skipped (h : KeepsIndices inner made nodes) (hc : c.isSkipped) :
    KeepsIndices (c :: inner) made nodes where
  length := by
    simpa [List.countP_cons, ParseTree.isComma_of_skipped hc, ends_in_element_skipped hc] using
      h.length
  element p d hd helement := by
    cases p with
    | zero =>
        obtain rfl := Option.some.inj hd
        rw [ParseTree.isElement_of_skipped hc] at helement
        cases helement
    | succ p =>
        simpa [List.countP_cons, ParseTree.isComma_of_skipped hc,
          ParseTree.isElement_of_skipped hc] using h.element p d hd helement
  hole k hk hnone := h.hole k hk fun p d hd helement => by
    simpa [List.countP_cons, ParseTree.isComma_of_skipped hc] using hnone (p + 1) d hd helement

/-- A comma with no element before it is a hole, and what follows moves up by one. -/
theorem comma (h : KeepsIndices inner made nodes) (hc : c.isComma) (i : Info) :
    KeepsIndices (c :: inner) made (.omittedExpression i :: nodes) where
  length := by
    rw [List.length_cons, h.length, List.countP_cons_of_pos hc, ends_in_element_comma hc]
    omega
  element p d hd helement := by
    cases p with
    | zero =>
        obtain rfl := Option.some.inj hd
        rw [ParseTree.isElement_of_comma hc] at helement
        cases helement
    | succ p =>
        simpa [List.countP_cons, hc, ParseTree.isElement_of_comma hc] using
          h.element p d hd helement
  hole k hk hnone := by
    cases k with
    | zero => exact ⟨i, rfl⟩
    | succ k =>
        refine h.hole k (Nat.lt_of_succ_lt_succ hk) fun p d hd helement heq => ?_
        exact hnone (p + 1) d hd helement (by simp [hc, heq])

/-- An element alone is the first node. -/
theorem single (hc : c.isElement) (node : Node) : KeepsIndices [c] [node] [node] where
  length := by
    simp [endsInElement, hc, ParseTree.isSkipped_of_element hc, ParseTree.isComma_of_element hc]
  element p d hd helement := by
    cases p with
    | zero => exact ⟨node, rfl, rfl⟩
    | succ p => cases hd
  hole k hk hnone := by
    obtain rfl := Nat.lt_one_iff.mp hk
    exact absurd rfl (hnone 0 c rfl hc)

/-- A comma behind an element ends it, and what follows moves up by one. -/
theorem elementComma (h : KeepsIndices inner made nodes) (hc : c.isElement) (hd : d.isComma)
    (node : Node) : KeepsIndices (c :: d :: inner) (node :: made) (node :: nodes) where
  length := by
    rw [List.length_cons, h.length, ends_in_element_comma_second hc hd]
    simp [hd, ParseTree.isComma_of_element hc]
    omega
  element p e he helement := by
    match p with
    | 0 => exact ⟨node, rfl, rfl⟩
    | 1 =>
        obtain rfl := Option.some.inj he
        rw [ParseTree.isElement_of_comma hd] at helement
        cases helement
    | p + 2 =>
        simpa [List.countP_cons, hc, hd, ParseTree.isComma_of_element hc,
          ParseTree.isElement_of_comma hd] using h.element p e he helement
  hole k hk hnone := by
    cases k with
    | zero => exact absurd rfl (hnone 0 c rfl hc)
    | succ k =>
        refine h.hole k (Nat.lt_of_succ_lt_succ hk) fun p e he helement heq => ?_
        refine hnone (p + 2) e he helement ?_
        simp [hd, ParseTree.isComma_of_element hc, heq]

/-- What means nothing may stand behind the first element. -/
theorem skippedSecond (h : KeepsIndices (c :: inner) made nodes) (hd : d.isSkipped) :
    KeepsIndices (c :: d :: inner) made nodes where
  length := by
    simpa [List.countP_cons, ParseTree.isComma_of_skipped hd, ends_in_element_skipped_second hd]
      using h.length
  element p e he helement := by
    match p with
    | 0 => exact h.element 0 e he helement
    | 1 =>
        obtain rfl := Option.some.inj he
        rw [ParseTree.isElement_of_skipped hd] at helement
        cases helement
    | p + 2 =>
        simpa [List.countP_cons, ParseTree.isComma_of_skipped hd,
          ParseTree.isElement_of_skipped hd] using h.element (p + 1) e he helement
  hole k hk hnone := by
    refine h.hole k hk fun p e he helement => ?_
    cases p with
    | zero => exact hnone 0 e he helement
    | succ p =>
        simpa [List.countP_cons, ParseTree.isComma_of_skipped hd] using
          hnone (p + 2) e he helement

end KeepsIndices

/-- The nodes that are made of a row keep their indices, also behind an element. -/
def Continues : Bool → List ParseTree → List Node → List Node → Prop
  | true, inner, made, nodes => KeepsIndices inner made nodes
  | false, inner, made, nodes =>
    ∀ (c : ParseTree) (node : Node), c.isElement →
      KeepsIndices (c :: inner) (node :: made) (node :: nodes)

namespace Continues

/-- At the end of a row nothing is left to make. -/
theorem nil : Continues expecting [] [] [] :=
  match expecting with
  | true => KeepsIndices.nil
  | false => fun _ node hc => KeepsIndices.single hc node

/-- What means nothing may stand before the rest of a row. -/
theorem skipped (h : Continues expecting inner made nodes) (hc : c.isSkipped) :
    Continues expecting (c :: inner) made nodes :=
  match expecting with
  | true => KeepsIndices.skipped h hc
  | false => fun d node hd => (h d node hd).skippedSecond hc

end Continues

/-! ## What is made -/

/-- The nodes that some work makes are related to those that other work makes; if that work stops,
so does this, with the same anomalies. -/
def MakesFrom (base make : MakeSyntax (List Node)) (R : List Node → List Node → Prop)
    (ctx : SyntaxContext) : Prop :=
  ∀ anomalies, match (base ctx).run anomalies with
    | (.error stop, rest) => (make ctx).run anomalies = (.error stop, rest)
    | (.ok made, rest) => ∃ nodes, (make ctx).run anomalies = (.ok nodes, rest) ∧ R made nodes

namespace MakesFrom

variable {base make : MakeSyntax (List Node)} {R R' : List Node → List Node → Prop}
  {ctx : SyntaxContext} {f : List Node → List Node}

/-- What is made may be described more weakly. -/
theorem mono (h : MakesFrom base make R ctx) (himp : ∀ made nodes, R made nodes → R' made nodes) :
    MakesFrom base make R' ctx := by
  intro anomalies
  have hrun := h anomalies
  split at hrun
  · exact hrun
  · obtain ⟨nodes, hmake, hnodes⟩ := hrun
    exact ⟨nodes, hmake, himp _ nodes hnodes⟩

/-- A node in front of what is made. -/
theorem cons (h : MakesFrom base make R ctx) (node : Node) :
    MakesFrom base (do return node :: (← make))
      (fun made nodes => ∃ rest, nodes = node :: rest ∧ R made rest) ctx := by
  intro anomalies
  rw [run_bind]
  have hrun := h anomalies
  split at hrun
  · rw [hrun]
  · obtain ⟨nodes, hmake, hnodes⟩ := hrun
    rw [hmake]
    exact ⟨node :: nodes, rfl, nodes, rfl, hnodes⟩

/-- The same work in front of both, whose node stands in front of what is made. -/
theorem bind {first : MakeSyntax Node} (h : MakesFrom base make R ctx) :
    MakesFrom (do return (← first) :: (← base)) (do return (← first) :: (← make))
      (fun made nodes => ∃ node rest rest', made = node :: rest ∧ nodes = node :: rest' ∧
        R rest rest') ctx := by
  intro anomalies
  rw [run_bind, run_bind first]
  rcases (first ctx).run anomalies with ⟨stop | node, between⟩
  · rfl
  · show match ((base >>= fun made => Pure.pure (node :: made)) ctx).run between with
      | (.error stop, rest) => ((make >>= fun made => Pure.pure (node :: made)) ctx).run between =
          (.error stop, rest)
      | (.ok made, rest) => ∃ nodes, ((make >>= fun made => Pure.pure (node :: made)) ctx).run
          between = (.ok nodes, rest) ∧ _
    rw [run_bind, run_bind make]
    have hrun := h between
    revert hrun
    rcases (base ctx).run between with ⟨stop | made, rest⟩
    · intro hrun
      rw [hrun]
    · rintro ⟨nodes, hmake, hnodes⟩
      rw [hmake]
      exact ⟨node :: nodes, rfl, node, made, nodes, rfl, rfl, hnodes⟩

end MakesFrom

/-- A row makes what its elements make, each at its index. -/
theorem Row.makes_elements (h : Row expecting inner) (make : ParseTree → MakeSyntax Node)
    (hclosing : closing.type = "]") (rest : List ParseTree) (ctx : SyntaxContext) :
    MakesFrom ((inner.filter ParseTree.isElement).mapM make)
      (Makers.elements make expecting (inner ++ closing :: rest)) (Continues expecting inner)
      ctx := by
  induction h with
  | nil expecting =>
      have hend : Makers.elements make expecting (closing :: rest) = Pure.pure [] := by
        simp [Makers.elements, ParseTree.isSkipped, hclosing]
      rw [List.nil_append, hend]
      exact fun anomalies => ⟨[], rfl, .nil⟩
  | @skipped expecting c inner hc _ ih =>
      have hskip : Makers.elements make expecting (c :: (inner ++ closing :: rest)) =
          Makers.elements make expecting (inner ++ closing :: rest) := by
        simp [Makers.elements, hc]
      rw [List.cons_append, hskip, List.filter_cons_of_neg (by simp [ParseTree.isElement, hc])]
      exact ih.mono fun made nodes h => h.skipped hc
  | @comma expecting c inner hc _ ih =>
      have hskipped := ParseTree.isSkipped_of_comma hc
      have htype : c.type = "," := eq_of_beq hc
      rw [List.filter_cons_of_neg (by simp [ParseTree.isElement_of_comma hc])]
      match expecting with
      | true =>
          have hcomma : Makers.elements make true (c :: (inner ++ closing :: rest)) =
              (do
                let i ← info c
                return .omittedExpression i ::
                  (← Makers.elements make true (inner ++ closing :: rest))) := by
            simp [Makers.elements, hskipped, htype]
          rw [List.cons_append, hcomma]
          refine (ih.cons (.omittedExpression { span := ctx.span c })).mono ?_
          rintro made - ⟨nodes, rfl, hnodes⟩
          exact KeepsIndices.comma hnodes hc _
      | false =>
          -- the comma ends the element before it, and nothing is made of it
          have hcomma : Makers.elements make false (c :: (inner ++ closing :: rest)) =
              Makers.elements make true (inner ++ closing :: rest) := by
            simp [Makers.elements, hskipped, htype]
          rw [List.cons_append, hcomma]
          exact ih.mono fun made nodes h d node hd => KeepsIndices.elementComma h hd hc node
  | @element c inner hc _ ih =>
      have helement : Makers.elements make true (c :: (inner ++ closing :: rest)) =
          (do return (← make c) ::
            (← Makers.elements make false (inner ++ closing :: rest))) := by
        have hsort := hc
        simp only [ParseTree.isElement, Bool.and_eq_true, Bool.not_eq_true', List.contains_cons,
          List.contains_nil, Bool.or_false, Bool.or_eq_false_iff] at hsort
        simp [Makers.elements, hsort]
      rw [List.cons_append, helement, List.filter_cons_of_pos hc, List.mapM_cons]
      refine ih.bind.mono ?_
      rintro - - ⟨node, made, nodes, rfl, rfl, h⟩
      exact h c node hc

/-- The elements of an array or of a pattern that takes one apart are made one after the other, and
if that does not stop, each stands at the index that is the number of the commas before it. There
are as many nodes as commas, and one more if an element comes last; those that are made of no
element are holes. -/
theorem elements_keep_indices {m : Makers} {n opening closing : ParseTree}
    {inner rest : List ParseTree} {way : MakeSyntax Node} {make : ParseTree → MakeSyntax Node}
    {wrap : Info → List Node → Node} (hreads : ReadsElements m n way make wrap)
    (hchildren : n.children = opening :: (inner ++ closing :: rest)) (hopening : opening.type = "[")
    (hclosing : closing.type = "]") (hrow : IsRow inner) (ctx : SyntaxContext)
    (anomalies : List Anomaly) :
    match ((inner.filter ParseTree.isElement).mapM make ctx).run anomalies with
    | (.error stop, after) => (way ctx).run anomalies = (.error stop, after)
    | (.ok made, after) => ∃ nodes,
      (way ctx).run anomalies = (.ok (wrap { span := ctx.span n } nodes), after) ∧
        KeepsIndices inner made nodes := by
  have hway : way = (do return wrap (← info n) (← Makers.elements make true n.children)) := by
    cases hreads with
    | array h => simp [Makers.expressionOfType, h, Makers.array]
    | pattern h => simp [Makers.makeBindingName, h]
  have hopen : Makers.elements make true (opening :: (inner ++ closing :: rest)) =
      Makers.elements make true (inner ++ closing :: rest) := by
    simp [Makers.elements, hopening]
  have hexpecting : Row true inner := hrow.row nofun
  have hmakes := hexpecting.makes_elements make hclosing rest ctx anomalies
  have hrun : (way ctx).run anomalies =
      match (Makers.elements make true (inner ++ closing :: rest) ctx).run anomalies with
      | (.ok nodes, after) => (.ok (wrap { span := ctx.span n } nodes), after)
      | (.error stop, after) => (.error stop, after) := by
    rw [hway, hchildren, hopen]
    show ((Makers.elements make true (inner ++ closing :: rest) >>= fun nodes =>
      Pure.pure (wrap { span := ctx.span n } nodes)) ctx).run anomalies = _
    rw [run_bind]
    rcases (Makers.elements make true (inner ++ closing :: rest) ctx).run anomalies with
      ⟨_ | _, _⟩ <;> rfl
  rw [hrun]
  revert hmakes
  rcases ((inner.filter ParseTree.isElement).mapM make ctx).run anomalies with
    ⟨stop | made, after⟩
  · intro hmake
    rw [hmake]
  · rintro ⟨nodes, hmake, hnodes⟩
    rw [hmake]
    exact ⟨nodes, rfl, hnodes⟩

/-- A name after a comma, a comment and two more commas stands at index 1, between two holes. -/
theorem elements_keep_indices_holes :
    let token (type : String) (start : Nat) := ParseTree.node type false start (start + 1) none []
    let name := ParseTree.node "identifier" true 4 5 none []
    let inner := [token "," 1, .node "comment" true 2 4 none [], name, token "," 5, token "," 6]
    let n := ParseTree.node "array" true 0 8 none (token "[" 0 :: (inner ++ [token "]" 7]))
    let ctx : SyntaxContext :=
      { source := Utf8.encode (Text.ofString "[,##a,,]"), maxNesting := 10 }
    IsRow inner ∧ ∃ nodes, (((Makers.ofDepth 3).expressionOfType n) ctx).run [] =
      (.ok (.arrayLiteral { span := ctx.span n } nodes), []) ∧ nodes.length = 3 ∧
      (∃ i, nodes[0]? = some (.omittedExpression i)) ∧
      nodes[1]? = some (.identifier { span := ctx.span name } (Text.ofString "a")) ∧
      ∃ i, nodes[2]? = some (.omittedExpression i) := by
  intro token name inner n ctx
  have hrow : IsRow inner := by
    refine ⟨by decide, fun before c between d after heq hc hd => ?_⟩
    have hone : inner.countP ParseTree.isElement = 1 := by decide
    rw [heq] at hone
    simp only [List.countP_append, List.countP_cons, hc, hd, if_true] at hone
    omega
  have hlaw := elements_keep_indices (.array (m := Makers.ofDepth 3) (n := n) rfl) rfl rfl rfl hrow
    ctx []
  have hmade : ((inner.filter ParseTree.isElement).mapM (Makers.ofDepth 3).expression ctx).run [] =
      (.ok [.identifier { span := ctx.span name } (Text.ofString "a")], []) := rfl
  rw [hmade] at hlaw
  obtain ⟨nodes, hrun, hnodes⟩ := hlaw
  have hlength : nodes.length = 3 := hnodes.length
  have hother : ∀ k < 3, k ≠ 1 → ∃ i, nodes[k]? = some (.omittedExpression i) := by
    intro k hk hne
    refine hnodes.hole k (hlength ▸ hk) fun p c hc helement => ?_
    have hplace : ∀ p < 5, ∀ c ∈ inner[p]?, c.isElement → p = 2 := by decide
    have hp : p < 5 := (List.getElem?_eq_some_iff.mp hc).1
    obtain rfl := hplace p hp c hc helement
    exact fun heq => hne (heq.symm.trans (by decide))
  obtain ⟨node, hfirst, hplace⟩ := hnodes.element 2 name rfl (by decide)
  obtain rfl := Option.some.inj hfirst
  exact ⟨hrow, nodes, hrun, hlength, hother 0 (by decide) (by decide), hplace,
    hother 2 (by decide) (by decide)⟩

end StaticLiteral
