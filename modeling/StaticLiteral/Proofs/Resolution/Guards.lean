import Mathlib
import StaticLiteral.Program.Report
import StaticLiteral.Proofs.Program.Identity
import StaticLiteral.Proofs.Resolution.Depth
import StaticLiteral.Proofs.Resolution.Termination
import StaticLiteral.Proofs.Typing.Guards

/-!
# The guards of resolving

A symbol in flight has no value for the parts that refer back to it. `guards_change_no_answer` says
that neither this guard nor those of typing change an answer that is found without them: a symbol
that is met twice without a cycle is not mistaken for one.
-/

namespace StaticLiteral

namespace Resolution

/-- What types tell the resolver: nothing new of a type that is blurred, and of a type with parts
only that it has them. -/
structure Sight where
  view : BoundTy → TypeView SymbolId
  blurred : ∀ t, view t.blurred = view t
  reference : ∀ {t}, view t = .reference →
    ∃ target arguments readonly, t = .reference target arguments readonly
  object : ∀ {t symbol}, view t = .object symbol → ∃ shape, t = .object shape (some symbol)

/-- All that types tell. -/
def Sight.full : Sight :=
  ⟨Typing.view, Typing.view_blurred, eq_reference_of_view, eq_object_of_view⟩

end Resolution

/-- The program as a resolver sees it to which types tell what `sight` says. -/
def Program.modelSeeing (p : Program) (sight : Resolution.Sight) (typing : Nat)
    (guarded : Bool := true) : SemanticModel SymbolId BoundTy :=
  { p.modelWithin typing guarded with view := sight.view }

namespace Resolution

open Typing (Follows)

variable {p : Program} {sight : Sight} {typing : Nat}

/-- Without guards it does not matter which symbols are in flight. -/
theorem busy_irrelevant (p : Program) (sight : Sight) (typing depth : Nat) (busy : List SymbolId) :
    answers (p.modelSeeing sight typing false) depth busy =
      answers (p.modelSeeing sight typing false) depth [] := by
  induction depth generalizing busy with
  | zero => rfl
  | succ depth ih =>
      have hguarded : (p.modelSeeing sight typing false).guarded = false := rfl
      simp only [answers_succ, hguarded, Bool.false_eq_true, false_and, if_false, ih busy]
      congr 1
      funext s
      refine congrArg _ (funext fun target => ?_)
      rw [ih (target.id :: busy), ih [target.id]]

/-- A type resolves to what its blurred form resolves to. -/
theorem of_type_blurred (guarded : Bool) (depth : Nat) (busy : List SymbolId) (t : BoundTy) :
    ofType (p.modelSeeing sight typing guarded) depth busy t.blurred =
      ofType (p.modelSeeing sight typing guarded) depth busy t := by
  induction depth generalizing t with
  | zero => rfl
  | succ depth ih =>
      have hview : (p.modelSeeing sight typing guarded).view t.blurred =
          (p.modelSeeing sight typing guarded).view t := sight.blurred t
      have harguments : (p.modelSeeing sight typing guarded).arguments t.blurred =
          ((p.modelSeeing sight typing guarded).arguments t).map Ty.blurred :=
        Typing.arguments_blurred t
      have hcomp : ofType (p.modelSeeing sight typing guarded) depth busy ∘ Ty.blurred =
          ofType (p.modelSeeing sight typing guarded) depth busy := funext ih
      simp only [ofType, hview, harguments, List.mapM_map, hcomp]

/-- What a symbol stands for at a depth without guards. -/
def standsFor (p : Program) (sight : Sight) (typing : Nat) : Nat → BoundSymbol → Answer
  | 0, _ => .error .tooDeep
  | depth + 1, s =>
    symbolValue (p.modelSeeing sight typing false)
      (ofNode (p.modelSeeing sight typing false) depth [])
      (ofType (p.modelSeeing sight typing false) depth []) s

/-- Without guards a symbol resolves to what the symbol a step on stands for. -/
theorem of_symbol_eq_stands_for (depth : Nat) {s target : BoundSymbol}
    (h : followed (p.modelSeeing sight typing false) s = .ok target) :
    ofSymbol (p.modelSeeing sight typing false) depth [] s =
      standsFor p sight typing depth target := by
  cases depth with
  | zero => rfl
  | succ depth =>
      have hbusy := busy_irrelevant p sight typing depth [target.id]
      simp only [ofSymbol, h, standsFor]
      show symbolValue _ (answers _ depth [target.id]).node (answers _ depth [target.id]).type
        target = _
      rw [hbusy]
      rfl

/-- What a symbol stands for is the same at a greater depth. -/
theorem stands_for_deepened {shallow deep : Nat} (hle : shallow ≤ deep) (s : BoundSymbol) :
    Deepened (standsFor p sight typing shallow s) (standsFor p sight typing deep s) := by
  cases shallow with
  | zero => exact .stopped _
  | succ shallow =>
      obtain ⟨deep, rfl⟩ : ∃ k, deep = k + 1 := ⟨deep - 1, by omega⟩
      have hbelow := deepened_of_le (p.modelSeeing sight typing false)
        (p.modelSeeing sight typing false).typeOf (fun _ => .refl _) (Nat.le_of_succ_le_succ hle) []
      refine deepened_iff.mpr (hbelow.of_value (fun _ _ => trivial) ?_)
      refine Lifting.unlessStopped.bind (deepened_iff.mp (.refl _)) fun t _ heq => ?_
      exact heq ▸ hbelow.type trivial

/-- Without guards the question what the symbol with an identity stands for stops at a depth. -/
def Stuck (p : Program) (sight : Sight) (typing depth : Nat) (id : SymbolId) : Prop :=
  ∃ s ∈ p.symbols, s.id = id ∧ standsFor p sight typing depth s = .error .tooDeep

/-- What stops at a depth stops at every smaller one. -/
theorem Stuck.shallow {shallow deep : Nat} {id : SymbolId} (h : Stuck p sight typing deep id)
    (hle : shallow ≤ deep) : Stuck p sight typing shallow id := by
  obtain ⟨s, hs, hid, h⟩ := h
  exact ⟨s, hs, hid, (stands_for_deepened hle s).stopped_of h⟩

/-- Requests about the symbols and the types of a program, and all about nodes. -/
def Domain.ofProgram (p : Program) : Domain SymbolId BoundTy where
  node _ := True
  symbol s := s ∈ p.symbols
  type t := ∃ height, t.Within p.symbols height

/-- What a symbol stands for without guards it stands for with them, if its declaration and the
type that it has do. -/
theorem symbol_value_guarded
    (hp : ∀ s ∈ p.symbols, ∀ t ∈ p.symbols, s.id = t.id → s = t) {s : BoundSymbol}
    (hs : s ∈ p.symbols) {depth deep : Nat} {busy : List SymbolId}
    (h : Related .unlessStopped (.ofProgram p) (answers (p.modelSeeing sight typing false) depth [])
      (answers (p.modelSeeing sight typing) deep busy)) :
    Deepened (standsFor p sight typing (depth + 1) s)
      ((answers (p.modelSeeing sight typing) deep busy).ofValue
        (p.modelSeeing sight typing).typeOf s) := by
  refine deepened_iff.mpr (h.of_value (fun _ _ => trivial) (deepened_iff.mp ?_))
  refine ((Typing.of_symbol_follows hp typing hs).bind fun t u ht htu => ?_).to_deepened
  have hwithin := deepened_iff.mpr (h.type ⟨_, Typing.of_symbol_within hs ht⟩)
  -- The guarded type is the unguarded one up to types that say nothing.
  show _ ∨ id <$> ofType (p.modelSeeing sight typing) deep busy u = _
  rw [← of_type_blurred true deep busy u, ← htu, of_type_blurred]
  exact hwithin.imp_right (congrArg _)

/-- Whatever resolves without guards resolves to the same with them, as long as all symbols in
flight are stuck without guards. -/
theorem deepened_of_stuck (sight : Sight)
    (hp : ∀ s ∈ p.symbols, ∀ t ∈ p.symbols, s.id = t.id → s = t) (depth : Nat) :
    ∀ busy, (∀ id ∈ busy, Stuck p sight typing depth id) →
      Related .unlessStopped (.ofProgram p) (answers (p.modelSeeing sight typing false) depth [])
        (answers (p.modelSeeing sight typing) depth busy) := by
  induction depth with
  | zero => exact fun _ _ => ⟨fun _ => .inl rfl, fun _ => .inl rfl, fun _ => .inl rfl⟩
  | succ depth ih =>
      intro busy hbusy
      have hshallow : ∀ id ∈ busy, Stuck p sight typing depth id :=
        fun id hid => (hbusy id hid).shallow (Nat.le_succ depth)
      have hbelow := ih busy hshallow
      refine ⟨fun {e} _ => ?_, fun {s} hs => ?_, fun {t} ht => ?_⟩
      · rw [answers_succ, answers_succ]
        refine hbelow.of_node throws_unless_stopped (fun _ _ => trivial) (fun _ h => ?_)
          fun s _ hat => ?_
        · cases h
        · exact Program.symbol_at_mem_symbols (Except.ok.inj hat)
      · obtain ⟨target, htarget, hfollows⟩ := followed_symbol typing hs
        have hfollowed : ∀ guarded,
            followed (p.modelSeeing sight typing guarded) s = .ok target := hfollows
        have hfree := fun depth => of_symbol_eq_stands_for depth (hfollowed false)
        -- What is answered at the smaller depth stays so, which leaves the request that is stuck.
        by_cases hstuck : standsFor p sight typing depth target = .error .tooDeep
        case neg =>
          exact related_deepened (hbelow.symbol hs) (fun h => hstuck ((hfree depth).symm.trans h))
            ((deepened_of_le _ _ (fun _ => .refl _) (Nat.le_succ depth) []).symbol trivial)
            ((deepened_of_le _ _ (fun _ => .refl _) (Nat.le_succ depth) busy).symbol trivial)
        refine deepened_iff.mp ?_
        show Deepened (ofSymbol _ (depth + 1) [] s) (ofSymbol _ (depth + 1) busy s)
        rw [hfree]
        simp only [ofSymbol, hfollowed true]
        show Deepened _ (if true = true ∧ target.id ∈ busy then _ else _)
        by_cases hmem : target.id ∈ busy
        -- The guard is hit, and the request was stuck without it.
        · obtain ⟨t, ht, hid, h⟩ := hbusy target.id hmem
          obtain rfl := hp t ht target htarget hid
          rw [h]
          exact .stopped _
        · rw [if_neg (by simp [hmem])]
          have hcons : ∀ id ∈ target.id :: busy, Stuck p sight typing depth id :=
            List.forall_mem_cons.mpr ⟨⟨target, htarget, rfl, hstuck⟩, hshallow⟩
          exact symbol_value_guarded hp htarget (ih _ hcons)
      · obtain ⟨height, ht⟩ := ht
        rw [answers_succ, answers_succ]
        refine hbelow.of_type (fun hreference u hu => ?_) fun s hobject => ?_
        · obtain ⟨target, arguments, readonly, rfl⟩ := sight.reference hreference
          cases ht with
          | plain hplain => simp [Ty.isPlain] at hplain
          | reference harguments => exact ⟨_, harguments u hu⟩
        · obtain ⟨shape, rfl⟩ := sight.object hobject
          cases ht with
          | plain hplain => simp [Ty.isPlain] at hplain
          | object hown => exact hown s rfl

/-- With all that types tell, a node that resolves without guards resolves to the same with them. -/
theorem of_node_guarded (hp : ∀ s ∈ p.symbols, ∀ t ∈ p.symbols, s.id = t.id → s = t) (depth : Nat)
    (n : Node) :
    Deepened (ofNode (p.modelWithin typing false) depth [] n)
      (ofNode (p.modelWithin typing) depth [] n) :=
  deepened_iff.mpr ((deepened_of_stuck .full hp depth [] (by simp)).node trivial)

/-- A request that ends without guards, whatever it ends with, ends with the same answer with them:
at every depth that is not smaller, and so within the limits if it needs no more without guards. -/
theorem guards_change_no_answer (config : Config) (sources : List SourceFile) (node : Node)
    {typing depth : Nat} {answer : Answer}
    (h : ofNode ((Program.ofSources config sources).modelWithin typing false) depth [] node =
      answer) (hreached : answer ≠ .error .tooDeep) :
    (∀ types ≥ typing, ∀ deep ≥ depth,
      ofNode ((Program.ofSources config sources).modelWithin types) deep [] node = answer) ∧
    (typing ≤ Typing.depthLimit → depth ≤ depthLimit →
      (Program.ofSources config sources).resolve node = .ofAnswer node answer) := by
  have hstuck : Deepened
      (ofNode ((Program.ofSources config sources).modelWithin typing false) depth [] node)
      (ofNode ((Program.ofSources config sources).modelWithin typing) depth [] node) :=
    of_node_guarded (fun s hs t ht => Program.symbol_eq_of_id_eq hs ht) depth node
  have hguarded := hstuck.eq (h ▸ hreached)
  have hdeep : ∀ types ≥ typing, ∀ deep ≥ depth,
      ofNode ((Program.ofSources config sources).modelWithin types) deep [] node = answer := by
    intro types htypes deep hdeep
    rw [(of_node_within_deepened _ true htypes hdeep [] node).eq (hguarded ▸ h ▸ hreached)]
    exact hguarded.trans h
  exact ⟨hdeep, fun htyping hdepth => congrArg _ (hdeep _ htyping _ hdepth)⟩

/-- The law at a variable that is used twice, of a tuple type that uses an alias twice. -/
theorem guards_change_no_answer_alias_twice :
    let name (t : String) := Node.identifier {} (Text.ofString t)
    let file : SourceFile :=
      { fileName := Text.ofString "a"
        statements := [
          .typeAliasDeclaration {} (name "T")
            (.literalType {} (.stringLiteral {} (Text.ofString "t"))) false,
          .variableStatement {} .var [.variableDeclaration {} (name "v")
            (some (.tupleType {} [.typeReference {} (name "T") [],
              .typeReference {} (name "T") []])) none] false false,
          .expressionStatement {} (.arrayLiteral {} [name "v", name "v"])] }
    let node := Node.place (Text.ofString "a") [0, 2, 0] (.arrayLiteral {} [name "v", name "v"])
    let text := some (Value.text (Text.ofString "t"))
    let pair := some (Value.array [text, text])
    (Program.ofSources {} [file]).resolve node =
      .ofAnswer node (.ok (some (.array [pair, pair]))) := by
  intro name file node text pair
  have h : ofNode ((Program.ofSources {} [file]).modelWithin 10 false) 10 [] node =
      .ok (some (.array [pair, pair])) := by cbv
  have hreached : (.ok (some (.array [pair, pair])) : Answer) ≠ .error .tooDeep := by simp
  have htyping : 10 ≤ Typing.depthLimit := by simp [Typing.depthLimit]
  have hdepth : 10 ≤ depthLimit := by simp [depthLimit]
  exact (guards_change_no_answer {} [file] node h hreached).2 htyping hdepth

end Resolution

end StaticLiteral
