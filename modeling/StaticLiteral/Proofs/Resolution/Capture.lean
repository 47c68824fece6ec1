import StaticLiteral.Proofs.ParseTree.TypeParameters
import StaticLiteral.Proofs.Resolution.Renaming

/-!
# Captured type parameters

Type parameters are not declared, so a reference to one is looked up like every other name, and an
outer type of that name may be found for it. `captured_iff` says when it matters that the outer
type has that name: if it is found, or if what the request involves leads to it.
-/

namespace StaticLiteral.Program

open MakeSyntax

/-- A symbol from which nothing leads to the target, and the symbol that it is when the target has
another name. -/
def Kept (p : Program) (target : NodeId) (fresh : Text) (s t : BoundSymbol) : Prop :=
  t = s.renamed target fresh ∧ s ∈ p.symbols ∧ p.Avoids target (.inr s)

variable {f : BoundFile} {q leaf : Node} {name fresh : Text}

/-- Type parameters make no difference to the syntax that declares them. So if the name of an outer
declaration is spelled in another way, a reference spelled like it is still looked up from the same
scope, and found to be of the same declaration exactly if it was not found to be of this one. What
does not lead to this declaration has the same types and is resolved to the same. -/
theorem captured_iff (config : Config) (sources : List SourceFile)
    (hf : f ∈ (ofSources config sources).files) (hq : q ∈ f.root.parts) (hleaf : leaf ∈ q.names)
    (hname : leaf.identifier? = some name) (hfresh : (ofSources config sources).Fresh fresh) :
    let p := ofSources config sources
    let renamed := ofSources config (sources.map (SourceFile.renamed leaf.id fresh))
    (∀ depth, (Makers.ofDepth depth).IgnoresTypeParameters) ∧
    (∀ reference space, p.Placed reference → reference.identifier? = some name →
      renamed.scopeOf? reference = p.scopeOf? reference ∧
      ((renamed.lookup? space name reference).map Symbol.outline =
          (p.lookup? space name reference).map Symbol.outline ↔
        ∀ s, p.lookup? space name reference = some s → s.id ≠ .node leaf.id)) ∧
    (f.source.fileName = f.path →
      (∀ n, p.Placed n → p.Avoids leaf.id (.inl n) →
        renamed.resolve (n.renamed leaf.id fresh) = p.resolve n ∧
        Parallel (Ty.Related (p.Kept leaf.id fresh)) (p.typeOfExpression n)
          (renamed.typeOfExpression (n.renamed leaf.id fresh)) ∧
        Parallel (Ty.Related (p.Kept leaf.id fresh)) (p.typeOfAnnotation n)
          (renamed.typeOfAnnotation (n.renamed leaf.id fresh))) ∧
      ∀ s ∈ p.symbols, p.Avoids leaf.id (.inr s) →
        Parallel (Ty.Related (p.Kept leaf.id fresh)) (p.typeOf s)
          (renamed.typeOf (s.renamed leaf.id fresh))) := by
  intro p renamed
  have hspares := spares_of_name hf hq hleaf hname
  have hpart := Node.parts_subset hq (Node.mem_parts_of_mem_names hleaf)
  refine ⟨Makers.ignores_type_parameters, fun reference space hplaced hreference => ?_,
    fun hown => ?_⟩
  · have hne : fresh ≠ name := fun heq => hfresh.1 reference hplaced (heq ▸ hreference)
    exact ⟨scope_renamed hspares rfl, lookup_renamed_iff hspares hne reference space⟩
  · have hrespells := respells_of_sources hf hown hpart hspares hfresh
    have htypes := Typing.parallels hrespells.matches_renamed true Typing.depthLimit
    constructor
    · intro n hplaced havoids
      exact ⟨hrespells.resolve_eq hplaced havoids,
        htypes.expression ⟨rfl, hplaced, havoids⟩ [] false,
        htypes.annotation ⟨rfl, hplaced, havoids⟩ []⟩
    · intro s hs havoids
      exact htypes.symbol ⟨rfl, hs, havoids⟩ []

/-- Where an alias stands between, a reference is looked up as that alias, also when the alias
further out that has the same name gets another. -/
theorem captured_iff_shadowed :
    let path := Text.ofString "a"
    let T := Text.ofString "T"
    let text (t : String) := Node.literalType {} (.stringLiteral {} (Text.ofString t))
    let named (t : String) := Node.typeAliasDeclaration {} (.identifier {} T) (text t) false
    let parameter := Node.parameter {} (.identifier {} (Text.ofString "p"))
      (some (.typeReference {} (.identifier {} T) [])) none
    let source : SourceFile :=
      { fileName := path
        statements := [named "x",
          .block {} [named "y", .functionDeclaration {} none [parameter] none false]] }
    let leaf := Node.place path [0, 0, 0] (.identifier {} T)
    let inner := Node.place path [0, 0, 0, 1, 0] (.identifier {} T)
    let reference := Node.place path [0, 1, 0, 1, 1, 0, 1, 0] (.identifier {} T)
    let p := ofSources {} [source]
    let renamed := ofSources {} [source.renamed leaf.id (Text.ofString "K")]
    (p.lookup? .type T reference).map Symbol.id = some (.node inner.id) ∧
      (renamed.lookup? .type T reference).map Symbol.outline =
        (p.lookup? .type T reference).map Symbol.outline := by
  intro path T text named parameter source leaf inner reference p renamed
  have hfile : source.bound ∈ p.files := List.mem_singleton.mpr rfl
  have hreference : reference ∈ source.bound.root.parts := List.mem_of_getElem? (i := 14) (by cbv)
  have houter : Node.place path [0, 0] (named "x") ∈ source.bound.root.parts :=
    List.mem_of_getElem? (i := 1) (by cbv)
  have hfresh : p.Fresh (Text.ofString "K") :=
    fresh_of_no_alias (by decide) (by decide)
  have hinner : (p.lookup? .type T reference).map Symbol.id = some (.node inner.id) := by
    decide
  have hname : leaf.identifier? = some T := rfl
  have hall := captured_iff {} [source] hfile houter (List.mem_singleton_self leaf) hname hfresh
  have hfound := (hall.2.1 reference .type ⟨_, hfile, hreference⟩ rfl).2
  refine ⟨hinner, hfound.mpr fun s hs hid => ?_⟩
  rw [hs] at hinner
  have hsame : SymbolId.node leaf.id = .node inner.id := hid.symm.trans (Option.some.inj hinner)
  revert hsame
  decide

/-- An outer alias is captured: a parameter whose type is the type parameter of its function is
resolved to what an alias of the same name says, and to nothing when the alias gets another name. -/
theorem outer_alias_captured :
    let token (type : String) (start stop : Nat) (field : Option String) :=
      ParseTree.node type false start stop field []
    let word (type : String) (start : Nat) (field : Option String) :=
      ParseTree.node type true start (start + 1) field []
    let text := ParseTree.node "string" true 7 10 none
      [token "\"" 7 8 none, word "string_fragment" 8 none, token "\"" 9 10 none]
    let outerAlias := ParseTree.node "type_alias_declaration" true 0 11 none
      [token "type" 0 4 none, word "type_identifier" 5 (some "name"), token "=" 6 7 none,
        .node "literal_type" true 7 10 (some "value") [text], token ";" 10 11 none]
    let typeParameters := ParseTree.node "type_parameters" true 21 24 (some "type_parameters")
      [token "<" 21 22 none,
        .node "type_parameter" true 22 23 none [word "type_identifier" 22 (some "name")],
        token ">" 23 24 none]
    let parameters := ParseTree.node "formal_parameters" true 24 29 (some "parameters")
      [token "(" 24 25 none,
        .node "required_parameter" true 25 28 none
          [word "identifier" 25 (some "pattern"),
            .node "type_annotation" true 26 28 (some "type")
              [token ":" 26 27 none, word "type_identifier" 27 none]],
        token ")" 28 29 none]
    let body := ParseTree.node "statement_block" true 29 32 (some "body")
      [token "\x7b" 29 30 none,
        .node "expression_statement" true 30 31 none [word "identifier" 30 none],
        token "\x7d" 31 32 none]
    let function := ParseTree.node "function_declaration" true 11 32 none
      [token "function" 11 19 none, word "identifier" 20 (some "name"), typeParameters, parameters,
        body]
    let tree := ParseTree.node "program" true 0 32 none [outerAlias, function]
    let value (source : SourceFile) (n : Node) := ((ofSources {} [source]).resolve n).value
    ∃ source, SourceFile.ofParsed
        (Utf8.encode (Text.ofString "type T=\"x\";function f<T>(p:T)\x7bp\x7d"))
        (Text.ofString "a.ts") 100 ⟨tree, false⟩ = .ok source ∧
      ∃ outer ∈ source.bound.root.parts, outer.kindName = "TypeAliasDeclaration" ∧
      ∃ leaf ∈ outer.names, leaf.identifier? = some (Text.ofString "T") ∧
      ∃ statement ∈ source.bound.root.parts, statement.kindName = "ExpressionStatement" ∧
      ∃ place ∈ statement.parts, place.identifier? = some (Text.ofString "p") ∧
        value source place = some (.text (Text.ofString "x")) ∧
        value (source.renamed leaf.id (Text.ofString "K")) place = none := by
  intro token word text outerAlias typeParameters parameters body function tree value
  exact exists_ok_of_any (by decide +kernel)

end StaticLiteral.Program
