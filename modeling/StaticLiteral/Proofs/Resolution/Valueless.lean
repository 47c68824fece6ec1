import StaticLiteral.Program.Report
import StaticLiteral.Proofs.Program.Cycles
import StaticLiteral.Proofs.Program.Identity

/-!
# References without a value

A chain of aliases that never ends, or that ends at nothing known or at a name in a pattern, tells
nothing: `resolve_of_valueless` says that a reference into such a chain has no value, wherever in
the chain it starts. The first step of a chain is the resolver's and the others are the type
checker's; both come to the same end. `broken_imports_unresolved` is what that means for imports.
-/

namespace StaticLiteral

/-- Nothing is told of what the symbol stands for: it is not known, or it is a name in a pattern. -/
inductive Symbol.IsBlank {ι : Type} (s : Symbol ι) : Prop
  | unknown (hkind : s.kind = .unknown)
  | inPattern {i : Info} {name : Node} {key init : Option Node} {isRest : Bool}
      (hkind : s.kind = .blockScopedVariable ∨ s.kind = .functionScopedVariable)
      (hdeclaration : s.declaration = some (.bindingElement i name key init isRest))

namespace Program

/-- The chain of aliases that starts at the symbol never ends, or nothing is told of its end. -/
def IsValueless (p : Program) (s : BoundSymbol) : Prop :=
  (p.aliasEnd s).kind.isAlias ∨ (p.aliasEnd s).IsBlank

end Program

variable {p : Program} {a s : BoundSymbol}

namespace Typing

/-- The type of a symbol of which nothing is told tells no value. -/
theorem view_of_blank (h : s.IsBlank) (guarded : Bool) (depth : Nat) (busy : List SymbolId) :
    ∃ type, ofSymbol p guarded (depth + 2) busy s = .ok type ∧ view type = .other := by
  rw [ofSymbol]
  split
  · exact ⟨.any, rfl, rfl⟩
  · cases h with
    | unknown hkind => exact ⟨.unknown, by simp [hkind], rfl⟩
    | inPattern hkind hdeclaration =>
        refine ⟨.any, ?_, rfl⟩
        rcases hkind with hkind | hkind <;> simp [hkind, hdeclaration, ofVariable]

/-- The type of a symbol at the start of a chain that tells nothing tells no value. -/
theorem view_of_valueless (h : p.IsValueless s) (guarded : Bool) (depth : Nat)
    (busy : List SymbolId) :
    ∃ type, ofSymbol p guarded (depth + 3) busy s = .ok type ∧ view type = .other := by
  by_cases halias : s.kind.isAlias
  · obtain ⟨origin, hkind⟩ : ∃ origin, s.kind = .aliasOf origin := by
      cases hkind : s.kind <;> simp_all [SymbolKind.isAlias]
    rw [ofSymbol]
    split
    · exact ⟨.any, rfl, rfl⟩
    · simp only [hkind]
      split
      · exact ⟨.unknown, rfl, rfl⟩
      · rename_i hend
        rcases h with hcircle | hblank
        · exact absurd (.inl hcircle) hend
        · exact view_of_blank hblank ..
  · have hblank : s.IsBlank := by
      rw [Program.IsValueless, Program.alias_end_of_not_alias (Bool.eq_false_iff.mpr halias)] at h
      exact h.resolve_left halias
    exact view_of_blank hblank ..

end Typing

namespace Resolution

/-- A symbol at the start of a chain that tells nothing stands for nothing. -/
theorem symbol_value_of_valueless (h : p.IsValueless s) (guarded : Bool) (typing depth : Nat)
    (busy within : List SymbolId) :
    symbolValue (p.modelWithin (typing + 3) guarded)
      (ofNode (p.modelWithin (typing + 3) guarded) (depth + 1) busy)
      (ofType (p.modelWithin (typing + 3) guarded) (depth + 1) within) s = .ok none := by
  have hthroughType : (do
      ofType (p.modelWithin (typing + 3) guarded) (depth + 1) within
        (← (p.modelWithin (typing + 3) guarded).typeOf s)) = .ok none := by
    obtain ⟨type, htype, hview⟩ := Typing.view_of_valueless h guarded typing []
    have hasked : (p.modelWithin (typing + 3) guarded).typeOf s = .ok type := htype
    have hseen : (p.modelWithin (typing + 3) guarded).view type = .other := hview
    simp only [hasked, bind, Except.bind, ofType, hseen]
  by_cases halias : s.kind.isAlias
  · cases hkind : s.kind <;> simp only [hkind, SymbolKind.isAlias, Bool.false_eq_true] at halias
    simpa only [symbolValue, hkind] using hthroughType
  · rw [Program.IsValueless, Program.alias_end_of_not_alias (Bool.eq_false_iff.mpr halias)] at h
    cases h.resolve_left halias with
    | unknown hkind => simpa only [symbolValue, hkind] using hthroughType
    | inPattern hkind hdeclaration =>
        rcases hkind with hkind | hkind
        · -- A variable of a block is resolved through the element that declares it.
          simp only [symbolValue, hkind, hdeclaration, ofNode]
        · simpa only [symbolValue, hkind] using hthroughType

/-- A reference has no value if the chain that goes on one step behind its symbol tells nothing. -/
theorem resolve_of_valueless {i : Info} {text : Text}
    (hat : p.symbolAt? (.identifier i text) = some a) (h : p.IsValueless (p.aliased a)) :
    p.resolve (.identifier i text) = ⟨none, none⟩ := by
  have hanswer : ∀ typing depth,
      ofNode (p.modelWithin (typing + 3)) (depth + 3) [] (.identifier i text) = .ok none := by
    intro typing depth
    have hsymbol : (p.modelWithin (typing + 3)).symbolAt (.identifier i text) = .ok (some a) :=
      congrArg Except.ok hat
    have hfollowed : followed (p.modelWithin (typing + 3)) a = .ok (p.aliased a) := by
      unfold followed
      split
      · rfl
      · rename_i halias
        rw [Program.aliased_of_not_alias (Bool.eq_false_iff.mpr halias)]
    simp only [ofNode, hsymbol, bind, Except.bind, ofSymbol, hfollowed, List.not_mem_nil, and_false,
      if_false]
    exact symbol_value_of_valueless h true typing depth _ _
  exact congrArg (Outcome.ofAnswer _) (hanswer 997 997)

section

variable {config : Config} {sources : List SourceFile} {i : Info} {text : Text} {n : Nat}

/-- A reference has no value if nothing is told of what the aliases behind it lead to. -/
theorem resolve_of_blank (halias : s.kind.isAlias = false) (hblank : s.IsBlank)
    (hat : (Program.ofSources config sources).symbolAt? (.identifier i text) = some a)
    (h : (Program.ofSources config sources).aliased^[n] a = s) :
    (Program.ofSources config sources).resolve (.identifier i text) = ⟨none, none⟩ := by
  let p := Program.ofSources config sources
  have ha : a ∈ p.symbols := Program.symbol_at_mem_symbols hat
  have hunique : ∀ s ∈ p.symbols, ∀ t ∈ p.symbols, s.id = t.id → s = t := fun s hs t ht =>
    Program.symbol_eq_of_id_eq hs ht
  -- The end of the aliases stays where it is when they are followed once more.
  have hbehind : p.aliased^[n] (p.aliased a) = s := by
    rw [← Function.iterate_succ_apply, Function.iterate_succ_apply', h,
      Program.aliased_of_not_alias halias]
  have hend : p.aliasEnd (p.aliased a) = s := by
    rw [← hbehind]
    exact Program.alias_end_eq_of_end hunique (Program.aliased_mem_symbols ha) (hbehind ▸ halias)
  exact resolve_of_valueless hat (.inr (hend ▸ hblank))

end

/-- The aliases behind a reference, such as those an import or an export makes, run in a circle or
come to an end. The search for the end stops by itself, at the first symbol that is no alias or was
met before: that is the end if there is one, and an alias exactly if there is none. Nothing known
stands behind an alias exactly if something that it points at is not there. If that is so for one of
the aliases, or if they run in a circle, a reference has no value: neither its name nor what stands
anywhere else. -/
theorem broken_imports_unresolved {config : Config} {sources : List SourceFile} {i : Info}
    {text : Text}
    (hat : (Program.ofSources config sources).symbolAt? (.identifier i text) = some a) :
    let p := Program.ofSources config sources
    let behind (n : Nat) := p.aliased^[n] a
    (p.Circles a ∨ ∃ n, (behind n).kind.isAlias = false) ∧
      ¬ (p.Circles a ∧ ∃ n, (behind n).kind.isAlias = false) ∧
      (∃ n, p.aliasEnd a = behind n ∧
        (∀ k < n, (behind k).kind.isAlias ∧ ∀ m < k, behind m ≠ behind k) ∧
        ((behind n).kind.isAlias = false ∨ ∃ m < n, behind m = behind n)) ∧
      (∀ n, (behind n).kind.isAlias = false → p.aliasEnd a = behind n) ∧
      ((p.aliasEnd a).kind.isAlias ↔ p.Circles a) ∧
      (∀ n origin, (behind n).kind = .aliasOf origin →
        (behind (n + 1) = unknownSymbol ↔ p.Misses origin)) ∧
      ((p.Circles a ∨ ∃ n, behind n = unknownSymbol) →
        p.resolve (.identifier i text) = ⟨none, none⟩) := by
  intro p behind
  have ha : a ∈ p.symbols := Program.symbol_at_mem_symbols hat
  have hp : ∀ s ∈ p.symbols, ∀ t ∈ p.symbols, s.id = t.id → s = t := fun s hs t ht =>
    Program.symbol_eq_of_id_eq hs ht
  refine ⟨Program.circles_or_ends hp ha, ?_, Program.alias_end_stops hp ha,
    fun n => Program.alias_end_eq_of_end hp ha, Program.alias_end_is_alias_iff hp ha, ?_, ?_⟩
  · rintro ⟨hcircles, n, hend⟩
    exact Program.not_circles_of_end hend hcircles
  · intro n origin hkind
    rw [show behind (n + 1) = p.aliased (behind n) from Function.iterate_succ_apply' ..]
    exact Program.aliased_eq_unknown_iff hkind
  · intro hbroken
    rcases hbroken with hcircles | ⟨n, hunknown⟩
    · have hnext : p.aliased a ∈ p.symbols := Program.aliased_mem_symbols ha
      exact resolve_of_valueless hat
        (.inl ((Program.alias_end_is_alias_iff hp hnext).mpr hcircles.aliased))
    · exact resolve_of_blank rfl (.unknown rfl) hat hunknown

/-- The law at two files that export a name from each other, and a file that exports a name again
from a file that is missing. -/
theorem broken_imports_unresolved_circle :
    let name (t : String) := Node.identifier {} (Text.ofString t)
    let file (t : String) (statements : List Node) : SourceFile :=
      { fileName := Text.ofString t, statements := statements }
    let relay (t module : String) := Node.exportDeclaration {}
      [.exportSpecifier {} (Text.ofString t) (Text.ofString t)] (some (Text.ofString module)) false
    let specifier (t : String) :=
      Node.importSpecifier {} (name t) (some (Text.ofString t)) false
    let p := Program.ofSources {} [
      file "a" [relay "x" "./b", relay "y" "./missing"], file "b" [relay "x" "./a"],
      file "c" [.importDeclaration {} (Text.ofString "./a") [specifier "x", specifier "y"],
        .expressionStatement {} (name "x"), .expressionStatement {} (name "y")]]
    let circular := Node.place (Text.ofString "c") [0, 1, 0] (name "x")
    let missing := Node.place (Text.ofString "c") [0, 2, 0] (name "y")
    (∃ a, p.symbolAt? circular = some a ∧ p.Circles a) ∧
      p.resolve circular = ⟨none, none⟩ ∧
      (∃ b, p.symbolAt? missing = some b ∧ p.aliased^[2] b = unknownSymbol) ∧
      p.resolve missing = ⟨none, none⟩ := by
  intro name file relay specifier p circular missing
  obtain ⟨a, ha⟩ := Option.isSome_iff_exists.mp
    (by decide +kernel : (p.symbolAt? circular).isSome)
  have hlaw := broken_imports_unresolved ha
  have hcircles : p.Circles a := by
    have h : (p.symbolAt? circular).map (fun a => (p.aliasEnd a).kind.isAlias) = some true := by
      decide +kernel
    have hend : (p.aliasEnd a).kind.isAlias := by simpa [ha] using h
    exact hlaw.2.2.2.2.1.mp hend
  obtain ⟨b, hb⟩ := Option.isSome_iff_exists.mp
    (by decide +kernel : (p.symbolAt? missing).isSome)
  have hlaw' := broken_imports_unresolved hb
  have hunknown : p.aliased^[2] b = unknownSymbol := by
    have hkind : (p.aliased b).kind = .aliasOf
        { sourceFile := some (Text.ofString "a"), module := some (Text.ofString "./missing")
          importName := some (Text.ofString "y") } := by
      have h : (p.symbolAt? missing).map (fun b => (p.aliased b).kind) = some (.aliasOf
          { sourceFile := some (Text.ofString "a"), module := some (Text.ofString "./missing")
            importName := some (Text.ofString "y") }) := by decide +kernel
      simpa [hb] using h
    refine (hlaw'.2.2.2.2.2.1 1 _ hkind).mpr (.file rfl ?_)
    simp only [← Option.not_isSome_iff_eq_none]
    decide +kernel
  exact ⟨⟨a, ha, hcircles⟩, hlaw.2.2.2.2.2.2 (.inl hcircles), ⟨b, hb, hunknown⟩,
    hlaw'.2.2.2.2.2.2 (.inr ⟨2, hunknown⟩)⟩

end Resolution

end StaticLiteral
