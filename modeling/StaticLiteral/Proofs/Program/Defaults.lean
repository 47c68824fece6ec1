import StaticLiteral.Proofs.Binding.Defaults
import StaticLiteral.Proofs.Depth
import StaticLiteral.Proofs.Values

/-!
# Defaults of patterns in files

A default or a computed key of a pattern is looked up from inside of the scope of the statement or
loop that declares the pattern, unless the variables of a pattern around it are hoisted out of that
scope. `Program.default_scopes` says so of every use of a name in a file that was bound, and that
what is declared around the statement is then found as from its initial values.
-/

namespace StaticLiteral

open Binding

namespace BoundFile

/-- The identifier is used: it is no name, or the name of a shorthand in an object literal. -/
def Uses (f : BoundFile) (r : Node) : Prop :=
  ¬ f.Names r ∨ ∃ i properties, .objectLiteral i properties ∈ f.root.parts ∧
    ∃ j, .shorthandPropertyAssignment j r ∈ properties

variable {path : Text} {source : SourceFile} {m r : Node} {i : Info} {text : Text}

/-- What is inside of something hidden is hidden. -/
theorem hides_of_mem_parts {f : BoundFile} (hlaid : f.root.Laid) (hm : m ∈ f.root.parts)
    (hr : r ∈ m.parts) (h : f.Hides m) : f.Hides r := by
  obtain ⟨q, hq, u, hu, hrole, part, hpart, hid⟩ := h
  have hname := Node.mem_parts_of_mem_names (Node.declared_names_subset_names q hu)
  have hplaced := Node.parts_subset hq (Node.parts_subset hname hpart)
  obtain rfl := hlaid.eq_of_id_eq hplaced hm hid
  exact ⟨q, hq, u, hu, hrole, r, Node.parts_subset hpart hr, rfl⟩

/-- Binding a well-formed file records a scope for every use that is not hidden. -/
theorem exists_refers_of_use (hwell : (ofSource path source).root.WellFormed)
    (hm : .identifier i text ∈ (ofSource path source).root.parts)
    (huse : (ofSource path source).Uses (.identifier i text))
    (hhides : ¬ (ofSource path source).Hides (.identifier i text)) :
    ∃ scope, .refers i.id scope ∈ ofNode (site path source) (ofSource path source).root := by
  rcases huse with hname | ⟨k, properties, hliteral, j, hmem⟩
  · exact refers_of_exposed hwell (exposed_root rfl (fun _ => hname) hhides) hm _
  · have hinside : .identifier i text ∈ (Node.objectLiteral k properties).parts := by
      have hproperty : .shorthandPropertyAssignment j (.identifier i text) ∈
          (Node.objectLiteral k properties).children := by
        simpa [Node.children_eq, Node.fields, Field.contents] using hmem
      exact Node.parts_subset_of_mem_children hproperty
        (Node.mem_parts_of_mem_names (List.mem_singleton_self _))
    have hshown := fun h => hhides (hides_of_mem_parts (laid_root path source) hliteral hinside h)
    obtain ⟨target, hvisits⟩ := visits_of_exposed_statement (site path source) hwell
      (exposed_root rfl (fun hrole => absurd hrole (by simp [Node.role])) hshown) hliteral
      (by simp [Node.role])
    refine ⟨target.scope, hvisits.facts_subset ?_⟩
    rw [of_node_eq]
    refine List.mem_append_right _ (List.mem_flatMap.mpr
      ⟨.note (.shorthandPropertyAssignment j (.identifier i text)) [.refers i.id target.scope],
        List.mem_flatMap.mpr ⟨_, hmem, ?_⟩, List.mem_singleton_self _⟩)
    exact List.mem_cons_of_mem _ (List.mem_singleton_self _)

end BoundFile

namespace Program

/-- Every use of a name in a default or a computed key of a pattern is looked up from some scope, in
a well-formed file that is bound, unless it is inside of something that stands for a name and was
not understood. The initial values of the statement, or what the loop runs over, are looked up from
the scope of the statement. The scope of the use ends with that one exactly if every pattern of
hoisted variables around the use stays inside; if the pattern itself is the only one, exactly unless
its variables are hoisted out of a block. Then the use finds what the initial values find, if no
scope in between declares the name. -/
theorem default_scopes {config : Config} {sources : List SourceFile} {f : BoundFile}
    {m pattern part : Node} {target : Site → Site} {manner : Manner} {i : Info} {text : Text}
    (hf : f ∈ (ofSources config sources).files) (hwell : f.root.WellFormed)
    (hbound : f.isTooDeep = false) (hm : m ∈ f.root.parts)
    (hd : Destructures m target manner pattern) (hpart : part ∈ pattern.evaluated)
    (hr : .identifier i text ∈ part.parts) (huse : f.Uses (.identifier i text))
    (hhides : ¬ f.Hides (.identifier i text)) :
    let p := ofSources config sources
    let r := Node.identifier i text
    (∃ site, Visits (BoundFile.site f.path f.source) f.root site m) ∧
    ∀ site, Visits (BoundFile.site f.path f.source) f.root site m →
      (∀ j name, .identifier j name ∈ m.initialValues →
        p.scopeOf? (.identifier j name) = some site.scope) ∧
      ∃ scope, p.scopeOf? r = some scope ∧
        (site.scope <:+ scope ↔ StaysInside site m r) ∧
        ((∀ k ∈ m.parts, ∀ other ∈ k.hoistedPatterns, ∀ q ∈ other.evaluated,
            r ∈ q.parts → k = m) →
          (site.scope <:+ scope ↔
            ¬ (pattern ∈ m.hoistedPatterns ∧ ∃ frame ∈ site.scope.head?, frame.kind = .block))) ∧
        ∀ opened, scope = opened ++ site.scope →
          (∀ frame ∈ opened, p.declared? frame.id .value text = none) →
          p.lookup? .value text r = site.scope.lookup p.declared? .value text := by
  intro p r
  obtain ⟨path, source, rfl⟩ := (files_of_sources config sources).1 f hf
  have hlaid := BoundFile.laid_root path source
  have hinside : r ∈ m.parts := by
    -- Which steps bind what is evaluated does not depend on the site.
    obtain ⟨declaration, _, _, hsteps⟩ := hd.exists_declaration ⟨[], [], none⟩
    exact parts_subset_parts (hsteps (visit_mem_pattern_steps hpart)) hr
  have hplaced := Node.parts_subset hm hinside
  obtain ⟨recorded, horigin⟩ := BoundFile.exists_refers_of_use hwell hplaced huse hhides
  obtain ⟨scope, hscope, hrefers⟩ := scope_of_refers hf hbound hplaced horigin
  constructor
  · obtain ⟨hrecorded, hrole⟩ := hd.recorded
    have hshown := fun h => hhides (BoundFile.hides_of_mem_parts hlaid hm hinside h)
    exact visits_of_exposed_statement _ hwell
      (BoundFile.exposed_root hrecorded (fun h => absurd h hrole) hshown) hm hrole
  intro site hvisits
  have hfile : [⟨.file path, .file⟩, ⟨.global, .global⟩] <:+ site.scope :=
    hvisits.suffix (by simp) (List.suffix_refl _)
  constructor
  · intro j name hinit
    have hnext := hvisits.next (visit_of_initial hinit)
    obtain ⟨found, hfound, hrefers⟩ := scope_of_refers hf hbound hnext.mem_parts
      (hnext.facts_subset (List.mem_singleton_self _))
    have hlast := refers_of_visits hlaid hnext (Node.mem_parts_self _) hrefers
    obtain ⟨_, rfl⟩ := Fact.refers.inj (List.mem_singleton.mp hlast)
    exact hfound
  have hframes := frame_ne_of_visits hlaid hvisits (by simp [BoundFile.site])
  have hstays := suffix_of_refers_iff (hlaid.of_mem_parts hm) hframes hinside
    (refers_of_visits hlaid hvisits hinside hrefers)
  refine ⟨scope, hscope, hstays, fun halone => ?_, fun opened heq hnone => ?_⟩
  · exact hstays.trans (stays_inside_iff hd hpart hr hfile.length_le halone)
  · rw [lookup?, hscope, Option.bind_some, heq, ScopeChain.lookup, List.findSome?_append,
      List.findSome?_eq_none_iff.mpr hnone, Option.none_or]
    rfl

/-- The law at a constant with a pattern in a block, and at a variable that is hoisted out of it. -/
theorem default_scopes_in_block :
    let name (t : String) := Node.identifier {} (Text.ofString t)
    let statement (keyword : DeclarationKind) (pattern value : Node) :=
      Node.variableStatement {} keyword [.variableDeclaration {} pattern none (some value)]
        false false
    let pattern (t : String) := Node.objectBindingPattern {}
      [.bindingElement {} (name t) none (some (name "k")) false]
    let source : SourceFile :=
      { fileName := Text.ofString "f"
        statements := [.block {}
          [statement .const (name "k") (.numericLiteral {} (Text.ofString "1")),
            statement .const (pattern "a") (name "k"), statement .var (pattern "b") (name "k")]] }
    let p := ofSources {} [source]
    let place := Node.place (Text.ofString "f")
    let initial (k : Nat) := place [2, 0, 0, k, 0, 0, 0] (name "k")
    let default (k : Nat) := place [2, 0, 0, 0, 0, 0, k, 0, 0, 0] (name "k")
    (∃ outer scope, p.scopeOf? (initial 1) = some outer ∧ p.scopeOf? (default 1) = some scope ∧
      outer <:+ scope) ∧
    ∃ outer scope, p.scopeOf? (initial 2) = some outer ∧ p.scopeOf? (default 2) = some scope ∧
      ¬ outer <:+ scope := by
  intro name statement pattern source p place initial default
  have hfile : source.bound ∈ p.files := List.mem_singleton_self _
  have hwell : source.bound.root.WellFormed :=
    show ∀ m ∈ source.bound.root.parts, m.isFormed by decide
  have hbound : source.bound.isTooDeep = false := by decide
  constructor
  · let m := place [1, 0, 0, 0] (statement .const (pattern "a") (name "k"))
    let whole := place [0, 0, 0, 1, 0, 0, 0] (pattern "a")
    have hm : m ∈ source.bound.root.parts := List.mem_of_getElem? (i := 6) (by cbv)
    have hd : Destructures m (fun site => if DeclarationKind.const = .const ∨
        DeclarationKind.const = .let then site else site.hoisted) (.ofKeyword .const false) whole :=
      .statement (List.mem_singleton_self _)
    have hpart : default 1 ∈ whole.evaluated := List.mem_of_getElem? (i := 0) rfl
    have hempty : ∀ k ∈ m.parts, k.hoistedPatterns.isEmpty := by decide
    obtain ⟨⟨site, hvisits⟩, hall⟩ := default_scopes hfile hwell hbound hm hd hpart
      (Node.mem_parts_self _) (.inl (by decide)) (by decide)
    obtain ⟨hinitial, scope, hscope, _, halone, _⟩ := hall site hvisits
    refine ⟨site.scope, scope, hinitial _ _ (List.mem_singleton_self _), hscope, ?_⟩
    refine (halone fun k hk other hother => ?_).mpr fun h => ?_
    · simp [List.isEmpty_iff.mp (hempty k hk)] at hother
    · simp [List.isEmpty_iff.mp (hempty m (Node.mem_parts_self m))] at h
  · let m := place [2, 0, 0, 0] (statement .var (pattern "b") (name "k"))
    let whole := place [0, 0, 0, 2, 0, 0, 0] (pattern "b")
    have hm : m ∈ source.bound.root.parts := List.mem_of_getElem? (i := 13) (by cbv)
    have hd : Destructures m (fun site => if DeclarationKind.var = .const ∨
        DeclarationKind.var = .let then site else site.hoisted) (.ofKeyword .var false) whole :=
      .statement (List.mem_singleton_self _)
    have hpart : default 2 ∈ whole.evaluated := List.mem_of_getElem? (i := 0) rfl
    have hempty : ∀ k ∈ m.children.flatMap Node.parts, k.hoistedPatterns.isEmpty := by
      decide
    obtain ⟨⟨site, hvisits⟩, hall⟩ := default_scopes hfile hwell hbound hm hd hpart
      (Node.mem_parts_self _) (.inl (by decide)) (by decide)
    obtain ⟨hinitial, scope, hscope, _, halone, _⟩ := hall site hvisits
    have houter : p.scopeOf? (initial 2) = some site.scope :=
      hinitial _ _ (List.mem_singleton_self _)
    have hblock : ((p.scopeOf? (initial 2)).bind List.head?).map Frame.kind = some .block := by
      decide
    rw [houter] at hblock
    refine ⟨site.scope, scope, houter, hscope, fun hsuffix => ?_⟩
    refine (halone fun k hk other hother _ _ _ => ?_).mp hsuffix
      ⟨List.mem_singleton_self _, Option.map_eq_some_iff.mp hblock⟩
    rw [Node.parts_eq] at hk
    rcases List.mem_cons.mp hk with rfl | hk
    · rfl
    · simp [List.isEmpty_iff.mp (hempty k hk)] at hother

/-- A default in a pattern of `var` in a block does not find the constant of the block, which the
initial value of the statement finds. -/
theorem default_outside_of_block :
    let token (type : String) (start stop : Nat) := ParseTree.node type false start stop none []
    let word (type : String) (start : Nat) (field : Option String) :=
      ParseTree.node type true start (start + 1) field []
    let constant := ParseTree.node "lexical_declaration" true 1 11 none
      [token "const" 1 6,
        .node "variable_declarator" true 7 10 none
          [word "identifier" 7 (some "name"), token "=" 8 9, word "number" 9 (some "value")],
        token ";" 10 11]
    let pattern := ParseTree.node "object_pattern" true 14 19 (some "name")
      [token "\x7b" 14 15,
        .node "object_assignment_pattern" true 15 18 none
          [word "shorthand_property_identifier_pattern" 15 (some "left"), token "=" 16 17,
            word "identifier" 17 (some "right")],
        token "\x7d" 18 19]
    let hoisted := ParseTree.node "variable_declaration" true 11 21 none
      [token "var" 11 14,
        .node "variable_declarator" true 14 21 none
          [pattern, token "=" 19 20, word "identifier" 20 (some "value")]]
    let tree := ParseTree.node "program" true 0 22 none
      [.node "statement_block" true 0 22 none
        [token "\x7b" 0 1, constant, hoisted, token "\x7d" 21 22]]
    let isUse (n : Node) : Bool := n.identifier? = some (Text.ofString "k")
    let value (source : SourceFile) (n : Node) := ((ofSources {} [source]).resolve n).value
    let isInside (source : SourceFile) (n m : Node) : Bool :=
      ((ofSources {} [source]).scopeOf? n).any fun outer =>
        ((ofSources {} [source]).scopeOf? m).any fun scope => outer <:+ scope
    ∃ source, SourceFile.ofParsed (Utf8.encode (Text.ofString "\x7bconst k=1;var\x7ba=k\x7d=k\x7d"))
        (Text.ofString "a.ts") 100 ⟨tree, false⟩ = .ok source ∧
      ∃ m ∈ source.bound.root.parts, ∃ initial ∈ m.initialValues,
      ∃ pattern ∈ m.hoistedPatterns, ∃ default ∈ pattern.evaluated,
        isUse initial ∧ isUse default ∧ ¬ isInside source initial default ∧
        (value source initial).map Value.type = some .numericLiteral ∧
        value source default = some (.text (Text.ofString "k")) := by
  intro token word constant pattern hoisted tree isUse value isInside
  exact exists_ok_of_any (by decide)

end Program

end StaticLiteral
