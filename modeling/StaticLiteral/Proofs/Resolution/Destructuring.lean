import StaticLiteral.Proofs.Binding.Destructuring
import StaticLiteral.Proofs.Depth
import StaticLiteral.Proofs.Resolution.Valueless
import StaticLiteral.Proofs.Values

/-!
# References to names in patterns

A name in a pattern is a variable without a value: nothing follows it into what is taken apart.
`Program.symbol_at_of_innermost` says when a reference finds such a variable, and `resolve_of_blank`
that it then has no value, be it found directly or through imports. `destructured_names_unresolved`
puts this together.
-/

namespace StaticLiteral

open Binding

namespace Fact

/-- The declaration is among the facts, and no other one of the name comes behind it in its
scope. -/
def IsLast (facts : List Fact) (d : Declared ScopeId BoundSymbol) : Prop :=
  ∃ before after, facts = before ++ .declares d :: after ∧
    ∀ s, .declares { d with symbol := s } ∉ after

variable {facts : List Fact} {d : Declared ScopeId BoundSymbol}

/-- The last declaration of a name is a fact. -/
theorem IsLast.mem (h : IsLast facts d) : .declares d ∈ facts := by
  obtain ⟨before, after, rfl, _⟩ := h
  exact List.mem_append_right _ List.mem_cons_self

/-- A name is what its last declaration says. -/
theorem declared_in_of_last (h : IsLast facts d) :
    declaredIn? facts d.frame d.space d.name = some d.symbol := by
  obtain ⟨before, after, rfl, hafter⟩ := h
  have hnone : (after.filterMap declared?).reverse.find? (fun e =>
      e.frame = d.frame && e.space = d.space && e.name = d.name) = none := by
    refine List.find?_eq_none.mpr fun e he hsame => ?_
    obtain ⟨fact, hfact, heq⟩ := List.mem_filterMap.mp (List.mem_reverse.mp he)
    cases fact with
    | declares other =>
        obtain rfl : other = e := Option.some.inj heq
        simp only [Bool.and_eq_true, decide_eq_true_eq] at hsame
        obtain ⟨⟨hframe, hspace⟩, hname⟩ := hsame
        refine hafter other.symbol ?_
        rwa [← hframe, ← hspace, ← hname]
    | _ => cases heq
  -- Seen from the end, the declaration is the first one of the name.
  simp [declaredIn?, Declared.latest?, declared?, List.find?_append, hnone]

end Fact

namespace BoundFile

variable {path : Text} {source : SourceFile} {m pattern : Node} {target : Site → Site}
  {manner : Manner}

/-- In a well-formed file, binding comes to everything that declares a pattern and is not hidden,
and there is a scope for the names in the pattern. -/
theorem exists_scope_of_destructured (hwell : (ofSource path source).root.WellFormed)
    (hm : m ∈ (ofSource path source).root.parts) (hhides : ¬ (ofSource path source).Hides m)
    (hd : Destructures m target manner pattern) :
    ∃ inner frame outer, Visits (site path source) (ofSource path source).root inner m ∧
      (target inner).scope = frame :: outer := by
  obtain ⟨hrecorded, hrole⟩ := hd.recorded
  have hexposed : Exposed (ofSource path source).root m :=
    exposed_root hrecorded (fun h => absurd h hrole) hhides
  obtain ⟨inner, hvisits⟩ := visits_of_exposed_statement (site path source) hwell hexposed hm hrole
  have hfile : [⟨.file path, .file⟩, ⟨.global, .global⟩] <:+ inner.scope :=
    hvisits.suffix (by simp) (List.suffix_refl _)
  have hsuffix := hd.suffix (by simp) hfile
  obtain ⟨frame, outer, hscope⟩ : ∃ frame outer, (target inner).scope = frame :: outer :=
    List.exists_cons_of_ne_nil fun h => by simp [h] at hsuffix
  exact ⟨inner, frame, outer, hvisits, hscope⟩

/-- In a file, the key of an element of a pattern is not declared. -/
theorem not_declared_of_key {j : Info} {name key : Node} {init : Option Node} {isRest : Bool}
    (helement : .bindingElement j name (some key) init isRest ∈ (ofSource path source).root.parts) :
    (∀ d, .declares d ∈ (ofSource path source).facts → d.symbol.id ≠ .node key.id) ∧
      ∀ s, .names key.id s ∉ (ofSource path source).facts := by
  obtain ⟨visible, hsettled⟩ := exists_settled path source
  have hkey : ∀ {s}, .names key.id s ∉ ofNode (site path source) (ofSource path source).root :=
    not_names_of_key (laid_root path source) helement
  constructor
  · intro d hd hid
    obtain ⟨origin, horigin, heq⟩ := hsettled _ hd
    cases origin with
    | declares e =>
        obtain ⟨x, hx⟩ := exists_names_of_declares horigin
        obtain rfl := Fact.declares.inj heq
        have hsame : e.symbol.id = .node key.id := (id_settle path visible e.symbol).symm.trans hid
        obtain rfl := SymbolId.node.inj ((Binding.id_of_names hx).symm.trans hsame)
        exact hkey hx
    | _ => cases heq
  · intro s hs
    obtain ⟨origin, horigin, heq⟩ := hsettled _ hs
    cases origin with
    | names x t =>
        obtain ⟨rfl, _⟩ := Fact.names.inj heq
        exact hkey horigin
    | _ => cases heq

end BoundFile

namespace Program

variable {p : Program} {s : BoundSymbol} {text : Text}

/-- What a file makes a node the name of is the symbol of the node. -/
theorem symbol_at_of_names {config : Config} {sources : List SourceFile} {f : BoundFile} {m : Node}
    (hf : f ∈ (ofSources config sources).files) (hm : m ∈ f.root.parts)
    (h : .names m.id s ∈ f.facts) : (ofSources config sources).symbolAt? m = some s := by
  have hplaced := facts_of_placed hf hm
  obtain ⟨path, source, rfl⟩ := (files_of_sources config sources).1 f hf
  rw [symbolAt?, hplaced, BoundFile.named_eq h]

/-- A symbol that a reference leads to after some aliases is known by its identity. -/
theorem iterate_aliased_eq_of_id_eq {config : Config} {sources : List SourceFile} {r : Node}
    {a : BoundSymbol} {n : Nat}
    (hs : s ∈ (ofSources config sources).symbols)
    (hat : (ofSources config sources).symbolAt? r = some a)
    (hid : ((ofSources config sources).aliased^[n] a).id = s.id) :
    (ofSources config sources).aliased^[n] a = s :=
  symbol_eq_of_id_eq (iterate_aliased_mem_symbols (symbol_at_mem_symbols hat) n) hs hid

/-- A name is looked up in the innermost scope that declares it. -/
theorem lookup_of_innermost {space : Space} {r : Node} {frame : Frame ScopeId}
    {inner outer : BoundScope} (hscope : p.scopeOf? r = some (inner ++ frame :: outer))
    (hinner : ∀ g ∈ inner, p.declared? g.id space text = none)
    (h : p.declared? frame.id space text = some s) : p.lookup? space text r = some s := by
  have hnone : inner.findSome? (fun g => p.declared? g.id space text) = none :=
    List.findSome?_eq_none_iff.mpr hinner
  rw [lookup?, hscope, Option.bind_some, ScopeChain.lookup, List.findSome?_append, hnone,
    Option.none_or, List.findSome?_cons, h]

/-- A reference finds the last declaration of its name in the innermost scope that declares it. -/
theorem symbol_at_of_innermost {config : Config} {sources : List SourceFile} {f : BoundFile}
    {i : Info} {frame : Frame ScopeId} {inner outer : BoundScope}
    (hf : f ∈ (ofSources config sources).files) (hi : .identifier i text ∈ f.root.parts)
    (hname : ¬ f.Names (.identifier i text))
    (hscope : (ofSources config sources).scopeOf? (.identifier i text) =
      some (inner ++ frame :: outer))
    (hinner : ∀ g ∈ inner, (ofSources config sources).declared? g.id .value text = none)
    (hlast : Fact.IsLast f.facts ⟨frame.id, .value, text, s⟩) :
    (ofSources config sources).symbolAt? (.identifier i text) = some s := by
  have hframe : frame.id.IsOf f.path :=
    is_of_of_mem hf (List.mem_filterMap.mpr ⟨_, hlast.mem, rfl⟩)
  rw [symbol_at_of_not_name hf hi hname]
  refine lookup_of_innermost hscope hinner ?_
  rw [declared_of_is_of hframe, factsOf, file_eq_of_mem hf]
  exact Fact.declared_in_of_last hlast

end Program

namespace Resolution

variable {config : Config} {sources : List SourceFile}

/-- Every name in a pattern is declared, by the element that it is the name of and in the scope that
the place of the pattern asks for, and it is the name of that variable; no key of an element is
declared or the name of anything. This holds of every pattern in a well-formed file that is bound,
unless the pattern is inside of something that stands for a name and was not understood. A reference
finds the variable if no scope inside of that one declares the name, and no later declaration in the
scope replaces it. A reference that finds the variable, be it through aliases, has no value. -/
theorem destructured_names_unresolved {f : BoundFile} {m pattern : Node} {target : Site → Site}
    {manner : Manner} (hf : f ∈ (Program.ofSources config sources).files)
    (hwell : f.root.WellFormed) (hbound : f.isTooDeep = false) (hm : m ∈ f.root.parts)
    (hhides : ¬ f.Hides m) (hd : Destructures m target manner pattern) :
    let p := Program.ofSources config sources
    (∃ site frame outer, Visits (BoundFile.site f.path f.source) f.root site m ∧
      (target site).scope = frame :: outer ∧
      ∀ i j text key init isRest,
        .bindingElement j (.identifier i text) key init isRest ∈ pattern.patternElements →
        let s := manner.symbolOf (.bindingElement j (.identifier i text) key init isRest) i text
        .declares ⟨frame.id, .value, text, s⟩ ∈ f.facts ∧
        p.symbolAt? (.identifier i text) = some s ∧
        (∀ k inner rest, .identifier k text ∈ f.root.parts → ¬ f.Names (.identifier k text) →
          p.scopeOf? (.identifier k text) = some (inner ++ frame :: rest) →
          (∀ g ∈ inner, p.declared? g.id .value text = none) →
          Fact.IsLast f.facts ⟨frame.id, .value, text, s⟩ →
          p.symbolAt? (.identifier k text) = some s) ∧
        ∀ k word a n, p.symbolAt? (.identifier k word) = some a → p.aliased^[n] a = s →
          p.resolve (.identifier k word) = ⟨none, none⟩) ∧
    ∀ j name key init isRest,
      .bindingElement j name (some key) init isRest ∈ pattern.patternElements →
      (∀ d, .declares d ∈ f.facts → d.symbol.id ≠ .node key.id) ∧
        ∀ s, .names key.id s ∉ f.facts := by
  intro p
  have hpattern : ∀ element ∈ pattern.patternElements, element ∈ f.root.parts := fun _ h =>
    Node.parts_subset hm (Node.parts_subset hd.mem_parts (Node.pattern_elements_subset_parts _ h))
  obtain ⟨path, source, rfl⟩ := (Program.files_of_sources config sources).1 f hf
  obtain ⟨site, frame, outer, hvisits, hscope⟩ :=
    BoundFile.exists_scope_of_destructured hwell hm hhides hd
  refine ⟨⟨site, frame, outer, hvisits, hscope, fun i j text key init isRest helement => ?_⟩,
    fun j name key init isRest helement => BoundFile.not_declared_of_key (hpattern _ helement)⟩
  intro s
  have hkind : s.kind = .blockScopedVariable ∨ s.kind = .functionScopedVariable := hd.kind
  have halias : s.kind.isAlias = false := by rcases hkind with h | h <;> rw [h] <;> rfl
  have hname : Node.identifier i text ∈ (BoundFile.ofSource path source).root.parts :=
    Node.parts_subset (hpattern _ helement)
      (Node.mem_parts_of_mem_names (List.mem_cons_self : _ ∈ Node.names _))
  refine ⟨?_, Program.symbol_at_of_names hf hname ?_, fun k inner rest hk => ?_, ?_⟩
  · exact BoundFile.mem_facts_of_visits hbound hvisits (fun _ h => Option.some.inj h ▸ halias)
      (declares_of_destructured hd hscope helement)
  · exact BoundFile.names_of_visits hbound hvisits halias (names_of_destructured hd helement)
  · exact Program.symbol_at_of_innermost hf hk
  · intro k word a n hat h
    exact resolve_of_blank halias (.inPattern hkind rfl) hat h

/-- The law at a constant from an object with a nested array and a rest, one of whose names is also
imported by another file. -/
theorem destructured_names_unresolved_through_import :
    let name (t : String) := Node.identifier {} (Text.ofString t)
    let element := Node.bindingElement {} (name "a") none
      (some (.stringLiteral {} (Text.ofString "x"))) false
    let pattern := Node.objectBindingPattern {}
      [.bindingElement {} (.arrayBindingPattern {} [.omittedExpression {}, element])
          (some (name "k")) none false,
        .bindingElement {} (name "b") none none true]
    let statement := Node.variableStatement {} .const
      [.variableDeclaration {} pattern none (some (name "o"))] true false
    let source : SourceFile :=
      { fileName := Text.ofString "f"
        statements := [statement, .expressionStatement {} (name "a")] }
    let importer : SourceFile :=
      { fileName := Text.ofString "g"
        statements :=
          [.importDeclaration {} (Text.ofString "./f")
            [.importSpecifier {} (name "c") (some (Text.ofString "a")) false],
          .expressionStatement {} (name "c")] }
    let p := Program.ofSources {} [source, importer]
    let f := source.bound
    let place := Node.place (Text.ofString "f")
    let placed := place [0, 0, 0, 0, 0] pattern
    f ∈ p.files ∧ f.root.WellFormed ∧ f.isTooDeep = false ∧ ¬ f.Hides (place [0, 0] statement) ∧
      (∃ target manner, Destructures (place [0, 0] statement) target manner placed) ∧
      (∃ frame e, .declares ⟨frame, .value, Text.ofString "a", e⟩ ∈ f.facts ∧
        e.declaration = some (place [1, 0, 0, 0, 0, 0, 0, 0, 0, 0] element)) ∧
      p.resolve (place [0, 1, 0] (name "a")) = ⟨none, none⟩ ∧
      p.resolve (.place (Text.ofString "g") [0, 1, 0] (name "c")) = ⟨none, none⟩ := by
  intro name element pattern statement source importer p f place placed
  have hd : Destructures (place [0, 0] statement)
      (fun site => if DeclarationKind.const = .const ∨ DeclarationKind.const = .let then site
        else site.hoisted) (.ofKeyword .const true) placed := .statement (List.mem_singleton_self _)
  have hfile : f ∈ p.files := List.mem_of_getElem? (i := 0) rfl
  have hwell : f.root.WellFormed := show ∀ m ∈ f.root.parts, m.isFormed by decide +kernel
  have hhides : ¬ f.Hides (place [0, 0] statement) := by decide +kernel
  have hbound : f.isTooDeep = false := by decide +kernel
  have hm : place [0, 0] statement ∈ f.root.parts := List.mem_of_getElem? (i := 1) (by cbv)
  obtain ⟨⟨site, frame, outer, _, _, hnames⟩, hkeys⟩ :=
    destructured_names_unresolved hfile hwell hbound hm hhides hd
  have helement : place [1, 0, 0, 0, 0, 0, 0, 0, 0, 0] element ∈ placed.patternElements :=
    List.mem_of_getElem? (i := 1) rfl
  obtain ⟨hdeclares, hat, _, hresolve⟩ := hnames _ _ _ _ _ _ helement
  have hmem := Program.symbol_at_mem_symbols hat
  -- What a reference leads to is the variable if it has its identity.
  have hfinds : ∀ (r : Node) (k : Info) (word : Text) (n : Nat), r = .identifier k word →
      (p.symbolAt? r).map (fun a => (p.aliased^[n] a).id) =
        some (.node ⟨Text.ofString "f", 0 :: 1 :: List.replicate 9 0⟩) →
      p.resolve r = ⟨none, none⟩ := by
    rintro r k word n rfl h
    obtain ⟨a, ha, hid⟩ := Option.map_eq_some_iff.mp h
    exact hresolve k word a n ha (Program.iterate_aliased_eq_of_id_eq hmem ha hid)
  exact ⟨hfile, hwell, hbound, hhides, ⟨_, _, hd⟩, ⟨_, _, hdeclares, rfl⟩,
    hfinds _ _ _ 0 rfl (by decide +kernel), hfinds _ _ _ 1 rfl (by decide +kernel)⟩

/-- A name in a pattern is lost at a node: among the node's children are something that declares the
pattern, and a statement that is a reference of the name and stands for the name itself. -/
def LosesAt (p : Program) (word : Text) (q : Node) : Prop :=
  ∃ m ∈ q.children, ∃ target manner pattern, Destructures m target manner pattern ∧
    (∃ element ∈ pattern.patternElements, ∃ leaf ∈ element.declaredNames,
      leaf.identifier? = some word) ∧
    ∃ i r, .expressionStatement i r ∈ q.children ∧ r.identifier? = some word ∧
      (p.resolve r).value = some (.text word)

/-- A name is lost between two statements that are all the children of a node. -/
def losesBetween (p : Program) (word : Text) (q : Node) : Bool :=
  match q.children with
  | [.variableStatement _ _ [.variableDeclaration _ pattern _ _] _ _, .expressionStatement _ r] =>
      (pattern.patternElements.any fun element => element.declaredNames.any fun leaf =>
        decide (leaf.identifier? = some word)) &&
      decide (r.identifier? = some word ∧ (p.resolve r).value = some (.text word))
  | _ => false

/-- What is lost between the two children of a node is lost at the node. -/
theorem loses_at_of_between {p : Program} {word : Text} {q : Node}
    (h : losesBetween p word q) : LosesAt p word q := by
  unfold losesBetween at h
  split at h
  · rename_i i r hchildren
    simp only [Bool.and_eq_true, List.any_eq_true, decide_eq_true_eq] at h
    obtain ⟨helement, hname, hvalue⟩ := h
    refine ⟨_, hchildren ▸ List.mem_cons_self, _, _, _,
      .statement (List.mem_singleton_self _), helement, i, r, ?_, hname, hvalue⟩
    exact hchildren ▸ List.mem_cons_of_mem _ List.mem_cons_self
  · cases h

/-- References next to a pattern stand for their own names if the pattern is inside of something
that stands for a variable and was not understood, or in the initial value of a variable that is
caught, or in a file that is too deep. -/
theorem destructured_names_lost :
    let token (type : String) (start stop : Nat) := ParseTree.node type false start stop none []
    let word (type : String) (start : Nat) (field : Option String) :=
      ParseTree.node type true start (start + 1) field []
    let declaration := ParseTree.node "variable_declaration" true 14 24 none
      [token "var" 14 17,
        .node "variable_declarator" true 18 23 none
          [.node "array_pattern" true 18 21 (some "name")
            [token "[" 18 19, word "identifier" 19 none, token "]" 20 21],
          token "=" 21 22, word "identifier" 22 (some "value")],
        token ";" 23 24]
    let arrow := ParseTree.node "arrow_function" true 9 26 (some "index")
      [.node "formal_parameters" true 9 11 (some "parameters") [token "(" 9 10, token ")" 10 11],
        token "=>" 11 13,
        .node "statement_block" true 13 26 (some "body")
          [token "\x7b" 13 14, declaration,
            .node "expression_statement" true 24 25 none [word "identifier" 24 none],
            token "\x7d" 25 26]]
    let outer := ParseTree.node "array_pattern" true 6 28 (some "name")
      [token "[" 6 7,
        .node "subscript_expression" true 7 27 none
          [word "identifier" 7 (some "object"), token "[" 8 9, arrow, token "]" 26 27],
        token "]" 27 28]
    let tree := ParseTree.node "program" true 0 30 none
      [.node "lexical_declaration" true 0 30 none
        [token "const" 0 5,
          .node "variable_declarator" true 6 30 none
            [outer, token "=" 28 29, word "identifier" 29 (some "value")]]]
    let text := Text.ofString "const [a[()=>\x7bvar [z]=w;z\x7d]]=y"
    let name (text : String) := Node.identifier {} (Text.ofString text)
    let pattern := Node.arrayBindingPattern {} [.bindingElement {} (name "z") none none false]
    let statements (init : Node) : List Node :=
      [.variableStatement {} .var [.variableDeclaration {} pattern none (some init)] false false,
        .expressionStatement {} (name "z")]
    let function := Node.functionExpression {} none [] (some (.block {} (statements (name "w"))))
    let caught : SourceFile :=
      { fileName := Text.ofString "b.ts"
        statements :=
          [.catchClause {} (some (.variableDeclaration {} (name "e") none (some function))) none] }
    let deep : SourceFile :=
      { fileName := Text.ofString "c.ts"
        statements := statements (Nat.repeat (.parenthesizedExpression {}) 1000 (name "w")) }
    let isLost (source : SourceFile) : Prop :=
      ∃ q ∈ source.bound.root.parts, LosesAt (Program.ofSources {} [source]) (Text.ofString "z") q
    (∃ source, SourceFile.ofParsed (Utf8.encode text) (Text.ofString "a.ts") 100 ⟨tree, false⟩ =
        .ok source ∧ source.bound.isTooDeep = false ∧ isLost source) ∧
      (caught.bound.isTooDeep = false ∧ isLost caught) ∧ deep.bound.isTooDeep ∧ isLost deep := by
  intro token word declaration arrow outer tree text name pattern statements function caught deep
    isLost
  have hlost : ∀ source : SourceFile, source.bound.root.parts.any
      (losesBetween (Program.ofSources {} [source]) (Text.ofString "z")) → isLost source := by
    intro source h
    obtain ⟨q, hq, hloses⟩ := List.any_eq_true.mp h
    exact ⟨q, hq, loses_at_of_between hloses⟩
  refine ⟨?_, ⟨by decide +kernel, hlost caught (by decide +kernel)⟩, by decide +kernel,
    hlost deep (by decide +kernel)⟩
  obtain ⟨source, hparsed, hbound, hshows⟩ : ∃ source,
      SourceFile.ofParsed (Utf8.encode text) (Text.ofString "a.ts") 100 ⟨tree, false⟩ =
        .ok source ∧ source.bound.isTooDeep = false ∧
      source.bound.root.parts.any
        (losesBetween (Program.ofSources {} [source]) (Text.ofString "z")) :=
    exists_ok_of_any (by decide +kernel)
  exact ⟨source, hparsed, hbound, hlost source hshows⟩

end Resolution

end StaticLiteral
