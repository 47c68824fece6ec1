import StaticLiteral.Proofs.Binding.Coherence
import StaticLiteral.Proofs.Binding.Patterns
import StaticLiteral.Proofs.Syntax.Exports

/-!
# What a node notes

`noted_of_mem_steps` says once what a node establishes by itself about a part of its tree: that it
declares a name, that a member belongs to its owner, that a shorthand uses a name, or that a list of
exports has an entry. What holds of all of these follows from it by cases, without looking at the
kinds of nodes again: `symbol_of_noted` says what their symbols are like.
-/

namespace StaticLiteral.Binding

open Node

/-- The node stands in a place of a name in the tree, and is not the key of an element. -/
def IsNameIn (n m : Node) : Prop := ∃ q ∈ n.parts, m ∈ q.ownNames

/-- An alias of this kind points from the file that is bound, to the module that the node names if
any. -/
def PointsFrom (site : Site) (n : Node) (kind : SymbolKind) : Prop :=
  ∀ origin, kind = .aliasOf origin → origin.sourceFile = some site.fileName ∧
    ∀ module, origin.module = some module → n.moduleSpecifier? = some module

/-- What a node notes about a part of its tree. A name is declared at some site near the node. -/
inductive Noted (site : Site) (n : Node) : Node → List Fact → Prop where
  | declared {target : Site} {spaces : List Space} {exported isConst : Bool} {kind : SymbolKind}
      {declaration name : Node} (hname : IsNameIn n name) (hdeclaration : DeclarerIn n declaration)
      (hexported : exported = true → name ∈ n.exported) (hkind : PointsFrom site n kind) :
      Noted site n name
        (target.declare spaces exported (.declaredBy kind declaration isConst) name)
  | member {owner : SymbolId} {kind : SymbolKind} {member name : Node} {facts : List Fact}
      (hname : IsNameIn n name) (hmember : DeclarerIn n member) (hkind : PointsFrom site n kind)
      (h : memberFacts owner kind member name = some facts) : Noted site n name facts
  | shorthand (part name : Node) : Noted site n part [.refers name.id site.scope]
  | specifier {part : Node} {name : Text} {origin : AliasOrigin} (hpart : DeclarerIn n part)
      (hexported : part ∈ n.exported) (hkind : PointsFrom site n (.aliasOf origin)) :
      Noted site n part
        (site.exporting name (.declaredBy (.aliasOf origin) part false (.node part.id) name))

variable {site target inner : Site} {manner : Manner} {n c part name : Node} {facts : List Fact}
  {owner : SymbolId} {kind : SymbolKind}

/-- A name in a child is one in the tree. -/
theorem IsNameIn.of_mem_children {m : Node} (hc : c ∈ n.children) (h : IsNameIn c m) :
    IsNameIn n m := by
  obtain ⟨q, hq, hm⟩ := h
  exact ⟨q, parts_subset_of_mem_children hc hq, hm⟩

/-- A name of a node is one in its tree. -/
theorem IsNameIn.of_names (h : name ∈ n.ownNames) : IsNameIn n name := ⟨n, mem_parts_self n, h⟩

/-- What has a name of its own is no mere name. -/
theorem declarer_of_own_names (h : name ∈ n.ownNames) : DeclarerIn n n := by
  refine ⟨mem_parts_self n, ?_⟩
  cases n with
  | identifier => simp [ownNames, names] at h
  | _ => rfl

/-- What is no alias points nowhere. -/
theorem points_from_of_not_alias (h : kind.isAlias = false) : PointsFrom site n kind := by
  rintro origin rfl
  cases h

/-- Variables are no aliases. -/
theorem not_alias_of_keyword (keyword : DeclarationKind) (exported : Bool) :
    (Manner.ofKeyword keyword exported).kind.isAlias = false := by
  unfold Manner.ofKeyword
  dsimp only
  split <;> rfl

/-- The variable of a loop is no alias. -/
theorem not_alias_of_loop_keyword (keyword : DeclarationKind) :
    (Manner.ofLoopKeyword keyword).kind.isAlias = false := by
  unfold Manner.ofLoopKeyword
  dsimp only
  split <;> rfl

/-! ## What the parts of a node note -/

/-- Nodes that are bound on their own are not noted. -/
theorem note_not_mem_visit_all {ns : List Node} : .note part facts ∉ visitAll site ns := by
  simp [visitAll]

/-- A body is not noted. -/
theorem note_not_mem_body {body : Option Node} : .note part facts ∉ bodySteps site body := by
  unfold bodySteps
  split <;> exact note_not_mem_visit_all

/-- A pattern in a child notes its leaves. -/
theorem noted_of_pattern (hc : c ∈ n.children) (hname : name ∈ c.declaredNames)
    (hexported : manner.exported = true → name.leaves ⊆ n.exported)
    (hkind : manner.kind.isAlias = false)
    (h : .note part facts ∈ patternSteps target manner c name) : Noted site n part facts := by
  rcases of_mem_pattern_steps h with ⟨leaf, hleaf, d, hd, hstep⟩ | ⟨_, _, hstep⟩
  · obtain ⟨rfl, rfl⟩ := Step.note.inj hstep
    obtain ⟨q, hq, hdeclared⟩ := exists_declared_of_leaf hleaf hname
    have hin : IsNameIn c part := ⟨q, hq, declared_names_subset_own_names q hdeclared⟩
    have hdeclaration : DeclarerIn c d := by
      rcases hd with rfl | hd
      · exact declarer_of_own_names (declared_names_subset_own_names _ hname)
      · exact hd.of_mem_children (names_subset_children c (declared_names_subset_names c hname))
    exact .declared (hin.of_mem_children hc) (hdeclaration.of_mem_children hc)
      (fun h => hexported h hleaf) (points_from_of_not_alias hkind)
  · cases hstep

/-- A variable of a statement notes the names in it. -/
theorem noted_of_declarator (hc : c ∈ n.children)
    (hexported : manner.exported = true → ∀ name ∈ c.declaredNames, name.leaves ⊆ n.exported)
    (hkind : manner.kind.isAlias = false)
    (h : .note part facts ∈ declaratorSteps inner target manner c) : Noted site n part facts := by
  cases c with
  | variableDeclaration i name type init =>
      simp only [declaratorSteps, List.mem_append, note_not_mem_visit_all, or_false] at h
      have hname := List.mem_singleton_self name
      exact noted_of_pattern hc hname (fun h => hexported h name hname) hkind h
  | _ => cases h

/-- The variable of a loop notes the names in it. -/
theorem noted_of_loop (hc : c ∈ n.children) (hexported : manner.exported = false)
    (hkind : manner.kind.isAlias = false) (h : .note part facts ∈ loopSteps target manner c) :
    Noted site n part facts := by
  cases c with
  | variableDeclaration i name type init =>
      exact noted_of_pattern hc (List.mem_singleton_self name) (by simp [hexported]) hkind h
  | _ => cases h

/-- What a clause catches notes the names in it. -/
theorem noted_of_caught (hc : c ∈ n.children)
    (h : .note part facts ∈ caughtSteps target inner c) : Noted site n part facts := by
  cases c with
  | variableDeclaration i name type init =>
      simp only [caughtSteps, List.mem_append, note_not_mem_visit_all, or_false] at h
      exact noted_of_pattern hc (List.mem_singleton_self name) (fun h => Bool.noConfusion h) rfl h
  | _ => cases h

/-- A parameter notes the names in it. -/
theorem noted_of_parameter (hc : c ∈ n.children) (h : .note part facts ∈ parameterSteps inner c) :
    Noted site n part facts := by
  cases c with
  | parameter i name type init =>
      simp only [parameterSteps, List.mem_append, note_not_mem_visit_all, or_false] at h
      exact noted_of_pattern hc (List.mem_singleton_self name) (fun h => Bool.noConfusion h) rfl h
  | _ => cases h

/-- What is inside of a function notes its parameters. -/
theorem noted_of_inner (h : .note part facts ∈ innerSteps target n) : Noted site n part facts := by
  cases n with
  | functionDeclaration i name parameters body exported
  | functionExpression i name parameters body =>
      simp only [innerSteps, List.mem_append, List.mem_flatMap, note_not_mem_body, or_false] at h
      obtain ⟨p, hp, h⟩ := h
      refine noted_of_parameter ?_ h
      simp [children_eq, fields, Field.contents, hp]
  | methodDeclaration i name body => exact absurd h note_not_mem_body
  | _ => cases h

/-- The name of a member is noted unless it is computed. -/
theorem noted_of_member_name (hc : c ∈ n.children) (hname : name ∈ c.ownNames)
    (hkind : kind.isAlias = false) (h : .note part facts = memberStep target owner kind c name) :
    Noted site n part facts := by
  unfold memberStep at h
  split at h
  case h_1 hfacts =>
    obtain ⟨rfl, rfl⟩ := Step.note.inj h
    have hin : IsNameIn c part := .of_names hname
    exact .member (hin.of_mem_children hc) ((declarer_of_own_names hname).of_mem_children hc)
      (points_from_of_not_alias hkind) hfacts
  case h_2 => cases h

/-- A member of a type or an enumeration notes its name. -/
theorem noted_of_member (hc : c ∈ n.children) (hkind : kind.isAlias = false)
    (h : .note part facts ∈ memberSteps target owner kind c) : Noted site n part facts := by
  cases c with
  | propertySignature i name rest | enumMember i name rest =>
      simp only [memberSteps, List.mem_cons, note_not_mem_visit_all, or_false] at h
      exact noted_of_member_name hc (List.mem_singleton_self name) hkind h
  | _ => cases h

/-- A property notes its name, and a shorthand the use of it. -/
theorem noted_of_property (hc : c ∈ n.children)
    (h : .note part facts ∈ propertySteps site owner c) : Noted site n part facts := by
  cases c with
  | propertyAssignment i name init =>
      simp only [propertySteps, List.mem_cons, reduceCtorEq, List.not_mem_nil, or_false] at h
      exact noted_of_member_name hc (List.mem_singleton_self name) rfl h
  | shorthandPropertyAssignment i name =>
      simp only [propertySteps, List.mem_cons, List.not_mem_nil, or_false] at h
      rcases h with h | h
      · exact noted_of_member_name hc (List.mem_singleton_self name) rfl h
      · obtain ⟨rfl, rfl⟩ := Step.note.inj h
        exact .shorthand _ name
  | methodDeclaration i name body =>
      rcases List.mem_cons.mp h with h | h
      · exact noted_of_member_name hc (List.mem_singleton_self name) rfl h
      · exact absurd h note_not_mem_body
  | _ => simp [propertySteps] at h

/-- What a statement declares under a name of its own is noted about this name. -/
theorem noted_of_name {spaces : List Space} {exported isConst : Bool}
    (hname : name ∈ n.ownNames) (hexported : exported = true → name ∈ n.exported)
    (hkind : kind.isAlias = false)
    (h : Step.note part facts =
      .note name (target.declare spaces exported (.declaredBy kind n isConst) name)) :
    Noted site n part facts := by
  obtain ⟨rfl, rfl⟩ := Step.note.inj h
  exact .declared (.of_names hname) (declarer_of_own_names hname) hexported
    (points_from_of_not_alias hkind)

/-! ## What a node notes -/

/-- What a step of a node establishes by itself is noted. -/
theorem noted_of_mem_steps (h : .note part facts ∈ steps site n) : Noted site n part facts := by
  cases n with
  | variableStatement i keyword declarations exported ambient =>
      obtain ⟨d, hd, h⟩ := List.mem_flatMap.mp h
      refine noted_of_declarator ?_ (fun hexported name hname leaf hleaf => ?_)
        (not_alias_of_keyword keyword exported) h
      · simpa [children_eq, fields, Field.contents] using hd
      · obtain rfl : exported = true := hexported
        exact List.mem_flatMap.mpr ⟨d, hd, List.mem_flatMap.mpr ⟨name, hname, hleaf⟩⟩
  | forInStatement i init expression statement keyword
  | forOfStatement i init expression statement keyword =>
      simp only [steps, List.cons_append, List.mem_cons, List.mem_append, note_not_mem_body,
        reduceCtorEq, or_false, false_or] at h
      split at h
      · split at h
        · refine noted_of_loop ?_ rfl (not_alias_of_loop_keyword _) h
          simp [children_eq, fields, Field.contents]
        · simp at h
      · simp at h
  | catchClause i declaration block =>
      simp only [steps, List.mem_append, List.mem_flatMap, note_not_mem_body, or_false] at h
      obtain ⟨d, hd, h⟩ := h
      refine noted_of_caught ?_ h
      simp [children_eq, fields, Field.contents, Option.mem_toList.mp hd]
  | functionDeclaration i name parameters body exported =>
      rcases List.mem_append.mp h with h | h
      · obtain ⟨q, hq, h⟩ := List.mem_map.mp h
        exact noted_of_name hq (fun hexported => by simpa [Node.exported, hexported] using hq) rfl
          h.symm
      · exact noted_of_inner h
  | functionExpression i name parameters body =>
      rcases List.mem_append.mp h with h | h
      · obtain ⟨q, hq, h⟩ := List.mem_map.mp h
        exact noted_of_name hq (fun h => Bool.noConfusion h) rfl h.symm
      · exact noted_of_inner h
  | classDeclaration i name exported =>
      obtain ⟨q, hq, h⟩ := List.mem_map.mp h
      exact noted_of_name hq (fun hexported => by simpa [Node.exported, hexported] using hq) rfl
        h.symm
  | typeAliasDeclaration i name type exported =>
      simp only [steps, List.mem_cons, reduceCtorEq, List.not_mem_nil, or_false] at h
      exact noted_of_name (List.mem_singleton_self name)
        (fun hexported => by simp [Node.exported, hexported]) rfl h
  | interfaceDeclaration i name members exported
  | enumDeclaration i name members isConst exported =>
      rcases List.mem_cons.mp h with h | h
      · exact noted_of_name (List.mem_singleton_self name)
          (fun hexported => by simp [Node.exported, hexported]) rfl h
      · obtain ⟨c, hc, h⟩ := List.mem_flatMap.mp h
        refine noted_of_member ?_ rfl h
        simp [children_eq, fields, Field.contents, hc]
  | moduleDeclaration i name body exported =>
      rcases List.mem_cons.mp h with h | h
      · exact noted_of_name (List.mem_singleton_self name)
          (fun hexported => by simp [Node.exported, hexported]) rfl h
      · exact absurd h note_not_mem_body
  | importDeclaration i module specifiers =>
      obtain ⟨c, hc, h⟩ := List.mem_flatMap.mp h
      cases c with
      | importSpecifier j name propertyName isNamespace =>
          obtain ⟨rfl, rfl⟩ := Step.note.inj (List.mem_singleton.mp h)
          have hspecifier : IsNameIn (.importSpecifier j part propertyName isNamespace) part :=
            .of_names (List.mem_singleton_self part)
          have hchild : .importSpecifier j part propertyName isNamespace ∈
              (Node.importDeclaration i module specifiers).children := by
            simpa [children_eq, fields, Field.contents] using hc
          simp only [importFacts, List.append_nil]
          refine .declared (hspecifier.of_mem_children hchild)
            ((declarer_of_own_names (List.mem_singleton_self part)).of_mem_children hchild)
            (fun hexported => Bool.noConfusion hexported) fun origin horigin => ?_
          obtain rfl := SymbolKind.aliasOf.inj horigin
          exact ⟨rfl, fun module hmodule => hmodule⟩
      | _ => simp [importSteps] at h
  | exportDeclaration i specifiers module isStar =>
      cases isStar with
      | true => simp [steps] at h
      | false =>
          obtain ⟨c, hc, h⟩ := List.mem_flatMap.mp h
          cases c with
          | exportSpecifier j name propertyName =>
              obtain ⟨rfl, rfl⟩ := Step.note.inj (List.mem_singleton.mp h)
              simp only [exportFacts, List.append_nil]
              have hchild : .exportSpecifier j name propertyName ∈
                  (Node.exportDeclaration i specifiers module false).children := by
                simpa [children_eq, fields, Field.contents] using hc
              have hspecifier : DeclarerIn (.exportSpecifier j name propertyName)
                  (.exportSpecifier j name propertyName) := ⟨mem_parts_self _, rfl⟩
              refine .specifier (hspecifier.of_mem_children hchild) hc fun origin horigin => ?_
              obtain rfl := SymbolKind.aliasOf.inj horigin
              exact ⟨rfl, fun module hmodule => hmodule⟩
          | _ => simp [exportSteps] at h
  | objectLiteral i properties =>
      obtain ⟨c, hc, h⟩ := List.mem_flatMap.mp h
      refine noted_of_property ?_ h
      simpa [children_eq, fields, Field.contents] using hc
  | typeLiteral i members =>
      obtain ⟨c, hc, h⟩ := List.mem_flatMap.mp h
      refine noted_of_member ?_ rfl h
      simpa [children_eq, fields, Field.contents] using hc
  | _ => exact absurd h note_not_mem_visit_all

/-! ## The symbols that are noted -/

variable {fact : Fact} {s : BoundSymbol}

/-- The symbol of what is noted points from the file if it is an alias, and is declared by a part of
the tree that is no mere name. -/
theorem symbol_of_noted (h : Noted site n part facts)
    (hfact : fact ∈ facts) (hs : fact.symbol? = some s) :
    PointsFrom site n s.kind ∧ ∃ d, DeclarerIn n d ∧ s.declaration = some d := by
  cases h with
  | declared _ hdeclaration _ hkind =>
      obtain ⟨_, _, _, rfl⟩ := symbol_of_declare hfact hs
      exact ⟨hkind, _, hdeclaration, rfl⟩
  | member _ hmember hkind h =>
      obtain ⟨_, hsymbol⟩ := symbol_of_member h
      obtain rfl := hsymbol _ hfact _ hs
      exact ⟨hkind, _, hmember, rfl⟩
  | shorthand =>
      obtain rfl := List.mem_singleton.mp hfact
      cases hs
  | specifier hpart _ hkind =>
      obtain rfl := symbol_of_exporting hfact hs
      exact ⟨hkind, _, hpart, rfl⟩

/-- So it is with the symbol that a node establishes about itself. A default that is no name is
declared by its value. -/
theorem symbol_of_own (h : fact ∈ ownFacts site n) (hs : fact.symbol? = some s) :
    PointsFrom site n s.kind ∧ ∃ d, DeclarerIn n d ∧ s.declaration = some d := by
  cases n with
  | exportAssignment i e =>
      obtain rfl := symbol_of_exporting h hs
      cases e with
      | identifier j text =>
          refine ⟨fun origin hkind => ?_, _, ⟨mem_parts_self _, rfl⟩, rfl⟩
          obtain rfl := SymbolKind.aliasOf.inj hkind
          exact ⟨rfl, nofun⟩
      | _ =>
          refine ⟨points_from_of_not_alias rfl, _, ⟨?_, rfl⟩, rfl⟩
          refine parts_subset_of_mem_children ?_ (mem_parts_self _)
          simp [children_eq, fields, Field.contents]
  | exportDeclaration i specifiers module isStar =>
      cases isStar <;> cases module <;> simp only [ownFacts, starFacts, List.not_mem_nil] at h
      split at h
      · obtain rfl := List.mem_singleton.mp h
        cases hs
      · simp at h
  | identifier | typeReference =>
      obtain rfl := List.mem_singleton.mp h
      cases hs
  | objectLiteral i properties | typeLiteral i members =>
      obtain rfl := List.mem_singleton.mp h
      obtain rfl := Option.some.inj hs
      exact ⟨points_from_of_not_alias rfl, _, ⟨mem_parts_self _, rfl⟩, rfl⟩
  | _ => simp [ownFacts] at h

end StaticLiteral.Binding
