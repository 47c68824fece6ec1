import StaticLiteral.Proofs.Binding.Hoisting
import StaticLiteral.Proofs.Program.Coverage

/-!
# The scope of a file

The scope of a file that was parsed and bound holds the names that the file declares around itself,
and no others: `BoundFile.names_in_scope`.
-/

namespace StaticLiteral

open Binding

namespace Fact

variable {facts : List Fact} {scope : ScopeId} {space : Space} {name : Text} {s : BoundSymbol}

/-- A name that is declared in a scope is among its names. -/
theorem mem_names_of_declares (h : .declares ⟨scope, space, name, s⟩ ∈ facts) :
    name ∈ (namesIn facts scope space).map (·.1) := by
  have hd : ⟨scope, space, name, s⟩ ∈ facts.filterMap declared? :=
    List.mem_filterMap.mpr ⟨_, h, rfl⟩
  obtain ⟨t, ht⟩ : ∃ t, Declared.latest? (facts.filterMap declared?) scope space name = some t := by
    refine Option.isSome_iff_exists.mp ?_
    rw [Declared.latest?, Option.isSome_map, List.find?_isSome]
    exact ⟨_, List.mem_reverse.mpr hd, by simp⟩
  refine List.mem_map.mpr ⟨(name, t), List.mem_filterMap.mpr ⟨name, ?_, by rw [ht]; rfl⟩, rfl⟩
  rw [Declared.names, List.mem_eraseDups]
  exact List.mem_map.mpr ⟨_, List.mem_filter.mpr ⟨hd, by simp⟩, rfl⟩

/-- A name of a scope is declared there. -/
theorem declares_of_mem_names (h : (name, s) ∈ namesIn facts scope space) :
    .declares ⟨scope, space, name, s⟩ ∈ facts := by
  obtain ⟨_, _, hlatest⟩ := List.mem_filterMap.mp h
  obtain ⟨t, ht, heq⟩ := Option.map_eq_some_iff.mp hlatest
  obtain ⟨rfl, rfl⟩ := Prod.mk.inj heq
  obtain ⟨d, hfind, rfl⟩ := Option.map_eq_some_iff.mp ht
  have hmem := List.mem_reverse.mp (List.mem_of_find?_eq_some hfind)
  have hfound := List.find?_some hfind
  simp only [Bool.and_eq_true, decide_eq_true_eq] at hfound
  obtain ⟨⟨rfl, rfl⟩, rfl⟩ := hfound
  obtain ⟨fact, hfact, hd⟩ := List.mem_filterMap.mp hmem
  cases fact with
  | declares e => exact Option.some.inj hd ▸ hfact
  | _ => cases hd

end Fact

namespace BoundFile

variable {path name : Text} {source : SourceFile} {x : NodeId}

/-- Settling aliases makes no difference to what is declared where. -/
theorem adds_facts_iff (hbound : (ofSource path source).isTooDeep = false) :
    Adds path name x (ofSource path source).facts ↔
      Adds path name x (ofNode (site path source) (ofSource path source).root) := by
  obtain ⟨visible, hfacts⟩ := facts_of_root hbound
  rw [hfacts]
  constructor
  · rintro ⟨s, hs, hid⟩
    obtain ⟨origin, horigin, heq⟩ := List.mem_map.mp hs
    cases origin with
    | declares d =>
        obtain ⟨frame, space, other, t⟩ := d
        obtain ⟨rfl, rfl, rfl, rfl⟩ := Declared.mk.inj (Fact.declares.inj heq)
        exact ⟨t, horigin, (id_settle path visible t).symm.trans hid⟩
    | _ => cases heq
  · rintro ⟨s, hs, hid⟩
    refine ⟨settle path visible s, List.mem_map.mpr ⟨_, hs, rfl⟩, ?_⟩
    rw [id_settle, hid]

/-- Of a file that was parsed and bound, the scope declares what the tree declares around itself. -/
theorem adds_facts_iff_declares (hparsed : source.IsParsed)
    (hbound : (ofSource path source).isTooDeep = false)
    (hclosed : (ofSource path source).root.HasClosedPatterns) :
    Adds path name x (ofSource path source).facts ↔
      ∃ hoists leaf, (ofSource path source).root.Declares hoists leaf ∧ IsName name x leaf := by
  have hregular : Regular path (site path source).scope := by simp [Regular, site]
  have hholds : ∀ hoists, Holds path hoists (site path source).scope := by
    intro hoists
    cases hoists <;> rfl
  rw [adds_facts_iff hbound, adds_iff hregular (well_formed_root hparsed) hclosed]
  simp only [Gives, hholds, true_and]

/-- The scope of a file that was parsed and bound, and whose patterns are closed, holds the names
that the file declares around itself, and no others: those declared outside of blocks, loops, catch
clauses, functions and namespaces, and those that are hoisted out of blocks, loops and catch
clauses. Each is there for one of the nodes that declare it so. -/
theorem names_in_scope (hparsed : source.IsParsed)
    (hbound : (ofSource path source).isTooDeep = false)
    (hclosed : (ofSource path source).root.HasClosedPatterns) :
    let f := ofSource path source
    let table := Fact.namesIn f.facts (.file path) .value
    (∀ name, name ∈ table.map (·.1) ↔
      ∃ hoists leaf, f.root.Declares hoists leaf ∧ leaf.identifier? = some name) ∧
    ∀ row ∈ table, ∃ hoists leaf, f.root.Declares hoists leaf ∧
      leaf.identifier? = some row.1 ∧ row.2.id = .node leaf.id := by
  intro f table
  have hrow : ∀ row ∈ table, ∃ hoists leaf, f.root.Declares hoists leaf ∧
      leaf.identifier? = some row.1 ∧ row.2.id = .node leaf.id := by
    rintro ⟨name, s⟩ hmem
    have hfact := Fact.declares_of_mem_names hmem
    obtain ⟨fact, hx, _⟩ := exists_node_of_mem hfact rfl
    obtain ⟨hoists, leaf, hdeclares, hname, rfl⟩ :=
      (adds_facts_iff_declares hparsed hbound hclosed).mp ⟨s, hfact, hx⟩
    exact ⟨hoists, leaf, hdeclares, hname, hx⟩
  refine ⟨fun name => ⟨fun hmem => ?_, fun ⟨hoists, leaf, hdeclares, hname⟩ => ?_⟩, hrow⟩
  · obtain ⟨row, hrowmem, rfl⟩ := List.mem_map.mp hmem
    obtain ⟨hoists, leaf, hdeclares, hname, _⟩ := hrow row hrowmem
    exact ⟨hoists, leaf, hdeclares, hname⟩
  · obtain ⟨s, hfact, _⟩ := (adds_facts_iff_declares hparsed hbound hclosed).mpr
      ⟨hoists, leaf, hdeclares, hname, rfl⟩
    exact Fact.mem_names_of_declares hfact

/-- The law at a block with a variable that is hoisted and one that is not. -/
theorem names_in_scope_of_block :
    let token (type : String) (start stop : Nat) := ParseTree.node type false start stop none []
    let name (type : String) (start : Nat) (field : Option String) :=
      ParseTree.node type true start (start + 1) field []
    let pattern := ParseTree.node "object_pattern" true 4 9 (some "name")
      [token "\x7b" 4 5,
        .node "object_assignment_pattern" true 5 8 none
          [name "shorthand_property_identifier_pattern" 5 (some "left"), token "=" 6 7,
            name "number" 7 (some "right")],
        token "\x7d" 8 9]
    let hoisted := ParseTree.node "variable_declaration" true 1 12 none
      [token "var" 1 4,
        .node "variable_declarator" true 4 11 none
          [pattern, token "=" 9 10, name "identifier" 10 (some "value")],
        token ";" 11 12]
    let lexical := ParseTree.node "lexical_declaration" true 12 17 none
      [token "let" 12 15,
        .node "variable_declarator" true 16 17 none [name "identifier" 16 (some "name")]]
    let tree := ParseTree.node "program" true 0 18 none
      [.node "statement_block" true 0 18 none
        [token "\x7b" 0 1, hoisted, lexical, token "\x7d" 17 18]]
    ∃ source, SourceFile.ofParsed (Utf8.encode (Text.ofString "\x7bvar\x7ba=1\x7d=o;let b\x7d"))
        (Text.ofString "a.ts") 100 ⟨tree, false⟩ = .ok source ∧
      let f := ofSource (Text.ofString "a.ts") source
      f.isTooDeep = false ∧ f.root.HasClosedPatterns ∧
        (Fact.namesIn f.facts (.file f.path) .value).map (·.1) = [Text.ofString "a"] ∧
        ∃ hoists leaf, f.root.Declares hoists leaf ∧
          leaf.identifier? = some (Text.ofString "a") := by
  intro token name pattern hoisted lexical tree
  obtain ⟨source, hparsed, hbound, hevaluated, hnames⟩ : ∃ source,
      SourceFile.ofParsed (Utf8.encode (Text.ofString "\x7bvar\x7ba=1\x7d=o;let b\x7d"))
        (Text.ofString "a.ts") 100 ⟨tree, false⟩ = .ok source ∧
      let f := ofSource (Text.ofString "a.ts") source
      f.isTooDeep = false ∧
        (∀ q ∈ f.root.parts, ∀ part ∈ q.evaluated, part.beside.isEmpty ∧ part.scopedNames.isEmpty) ∧
        (Fact.namesIn f.facts (.file f.path) .value).map (·.1) = [Text.ofString "a"] :=
    exists_ok_of_any (by decide)
  have hclosed : (ofSource (Text.ofString "a.ts") source).root.HasClosedPatterns :=
    fun q hq part hpart => Node.not_declares_of_plain (hevaluated q hq part hpart).1
      (hevaluated q hq part hpart).2
  have hsource : source.IsParsed := ⟨_, _, _, _, source, hparsed, rfl⟩
  refine ⟨source, hparsed, hbound, hclosed, hnames, ?_⟩
  exact ((names_in_scope hsource hbound hclosed).1 _).mp (hnames ▸ List.mem_singleton_self _)

/-- The scope of a file does not hold a namespace inside of what stands for a variable and was not
understood, but it does hold what is declared in the type of a variable that is caught, and in the
name of a method. -/
theorem names_in_scope_of_computed_names :
    let token (type : String) (start stop : Nat) := ParseTree.node type false start stop none []
    let name (text : String) (start : Nat) (field : Option String) :=
      ParseTree.node text true start (start + 1) field []
    let block (start : Nat) := ParseTree.node "statement_block" true start (start + 2) (some "body")
      [token "\x7b" start (start + 1), token "\x7d" (start + 1) (start + 2)]
    let module (start : Nat) (field : String) :=
      ParseTree.node "internal_module" true start (start + 13) (some field)
        [token "namespace" start (start + 9), name "identifier" (start + 10) (some "name"),
          block (start + 11)]
    let computed (start : Nat) :=
      ParseTree.node "computed_property_name" true start (start + 17) (some "name")
        [token "[" start (start + 1),
          .node "binary_expression" true (start + 1) (start + 16) none
            [name "number" (start + 1) (some "left"), token "+" (start + 2) (start + 3),
              module (start + 3) "right"],
          token "]" (start + 16) (start + 17)]
    let declaration := ParseTree.node "lexical_declaration" true 0 27 none
      [token "const" 0 5,
        .node "variable_declarator" true 6 26 none
          [.node "array_pattern" true 6 24 (some "name")
            [token "[" 6 7,
              .node "subscript_expression" true 7 23 none
                [name "identifier" 7 (some "object"), token "[" 8 9, module 9 "index",
                  token "]" 22 23],
              token "]" 23 24],
            token "=" 24 25, name "identifier" 25 (some "value")],
        token ";" 26 27]
    let caught := ParseTree.node "catch_clause" true 32 64 (some "handler")
      [token "catch" 32 37, token "(" 37 38, name "identifier" 38 (some "parameter"),
        .node "type_annotation" true 39 61 (some "type")
          [token ":" 39 40,
            .node "object_type" true 40 61 none
              [token "\x7b" 40 41,
                .node "property_signature" true 41 60 none
                  [computed 41,
                    .node "type_annotation" true 58 60 (some "type")
                      [token ":" 58 59, name "type_identifier" 59 none]],
                token "\x7d" 60 61]],
        token ")" 61 62, block 62]
    let method := ParseTree.node "method_definition" true 66 87 none
      [computed 66, .node "formal_parameters" true 83 85 (some "parameters")
        [token "(" 83 84, token ")" 84 85], block 85]
    let tree := ParseTree.node "program" true 0 89 none
      [declaration,
        .node "try_statement" true 27 64 none [token "try" 27 30, block 30, caught],
        .node "expression_statement" true 64 89 none
          [.node "parenthesized_expression" true 64 89 none
            [token "(" 64 65,
              .node "object" true 65 88 none [token "\x7b" 65 66, method, token "\x7d" 87 88],
              token ")" 88 89]]]
    let text := Text.ofString ("const [a[namespace N\x7b\x7d]]=y;try\x7b\x7dcatch(e:" ++
      "\x7b[1+namespace O\x7b\x7d]:T\x7d)\x7b\x7d(\x7b[1+namespace P\x7b\x7d]()\x7b\x7d\x7d)")
    let plain (n : Node) (k : Nat) : Option Node :=
      if ["Block", "ForInStatement", "ForOfStatement", "CatchClause", "FunctionDeclaration",
        "FunctionExpression", "MethodDeclaration", "ModuleDeclaration"].contains n.kindName
      then none
      else n.children[k]?
    let declared (n : Node) := n.scopedNames.filterMap Node.identifier?
    ∃ source, SourceFile.ofParsed (Utf8.encode text) (Text.ofString "a.ts") 100 ⟨tree, false⟩ =
        .ok source ∧
      let f := ofSource (Text.ofString "a.ts") source
      (Fact.namesIn f.facts (.file f.path) .value).map (·.1) =
          [Text.ofString "O", Text.ofString "P"] ∧
        ([0, 0, 0, 0, 0, 1].foldlM plain f.root).map declared = some [Text.ofString "N"] ∧
        (∃ q ∈ f.root.parts, q.kindName = "CatchClause" ∧
          ∃ m ∈ q.parts, declared m = [Text.ofString "O"]) ∧
        ∃ q ∈ f.root.parts, q.kindName = "MethodDeclaration" ∧
          ∃ m ∈ q.parts, declared m = [Text.ofString "P"] := by
  intro token name block module computed declaration caught method tree text plain declared
  exact exists_ok_of_any (by decide +kernel)

end BoundFile

end StaticLiteral
