import StaticLiteral.Proofs.Depth
import StaticLiteral.Proofs.ParseTree.Expressions

/-!
# The forms of files made from parse trees

Types, patterns and statements made with sound ways further down are well formed, so
`Makers.Sound.above` goes one level up. `SourceFile.well_formed_of_parsed` draws the conclusion: the
statements of a file are well formed, whatever its parse tree.
-/

namespace StaticLiteral

open Node

namespace MakeSyntax

namespace Makers

variable {m : Makers}

/-! ## Types -/

/-- A member of a tuple type is well formed. -/
theorem Sound.tuple_member (h : m.Sound) (n : ParseTree) :
    Makes WellFormed (m.tupleMember n) := by
  unfold tupleMember
  split
  · refine .bind (h.type_annotation _) fun type htype => .pure ?_
    cases type with
    | none => exact well_formed_of_leaf rfl rfl
    | some type => exact htype type rfl
  · exact h.type n

/-- The property signatures of a type are well formed. -/
theorem Sound.property_signatures (h : m.Sound) (n : ParseTree) :
    Makes (fun ps => ∀ p ∈ ps, p.WellFormed ∧ p.role = .signature) (m.propertySignatures n) := by
  unfold propertySignatures
  refine .mapM fun c _ => .bind (h.property_name _) fun name hname => ?_
  refine .bind (h.type_annotation _) fun type htype => .bind (.any _) fun i _ => ?_
  refine .pure ⟨.of_fields rfl ?_, rfl⟩
  simpa [fields, Field.contents] using ⟨hname, htype⟩

/-- A reference to a type is well formed if its arguments are. -/
theorem well_formed_type_reference {i : Info} {name : Text} {es : List Node}
    (h : ∀ e ∈ es, e.WellFormed) : (typeReference i (.identifier i name) es).WellFormed := by
  have hname : (Node.identifier i name).WellFormed := well_formed_of_leaf rfl rfl
  exact .of_fields rfl (by simpa [fields, Field.contents] using ⟨hname, h⟩)

/-- The members that a well-formed type adds to a union are well formed. -/
theorem well_formed_of_mem_union {type q : Node} (h : type.WellFormed)
    (hq : q ∈ unionMembers type) : q.WellFormed := by
  unfold unionMembers at hq
  split at hq
  · refine (well_formed_iff.mp h).2 q ?_
    simpa [children_eq, fields, Field.contents] using hq
  · obtain rfl := List.mem_singleton.mp hq
    exact h

/-- A reference to a generic type is well formed. -/
theorem Sound.generic_type (h : m.Sound) (n : ParseTree) :
    Makes WellFormed (m.genericType n) := by
  unfold genericType
  refine .bind (.any _) fun i _ => ?_
  have hend : ∀ (name : Text) (es : List Node), (∀ e ∈ es, e.WellFormed) →
      Makes WellFormed (Pure.pure (Node.typeReference i (.identifier i name) es)) :=
    fun name es hes => .pure (well_formed_type_reference hes)
  dsimp only
  split
  all_goals
    refine .bind (.any _) fun name _ => ?_
    split
    · exact .bind (.mapM fun c _ => h.type c) (hend name)
    · exact .bind (.pure (by simp)) (hend name)

/-- A type of any sort is well formed. -/
theorem Sound.type_of_type (h : m.Sound) (n : ParseTree) : Makes WellFormed (m.typeOfType n) := by
  have hwrapper : ∀ (i : Info) (make : MakeSyntax Node) (node : Node → Node),
      Makes WellFormed make → (∀ e, (node e).isFormed ∧ (node e).children = [e]) →
      Makes WellFormed (make >>= fun e => Pure.pure (node e)) := fun i make node hmake hnode => by
    refine .bind hmake fun e he => .pure ?_
    exact well_formed_iff.mpr ⟨(hnode e).1, by simpa [(hnode e).2] using he⟩
  unfold typeOfType
  refine .bind (.any _) fun i _ => ?_
  split
  · exact hwrapper i _ _ (h.expression _) fun _ => ⟨rfl, rfl⟩
  · exact .bind (.any _) fun t _ => .pure (well_formed_of_leaf rfl rfl)
  · refine .bind (.mapM fun c _ => h.tuple_member c) fun es hes => .pure (.of_fields rfl ?_)
    simpa [fields, Field.contents] using hes
  · exact hwrapper i _ _ (h.type _) fun _ => ⟨rfl, rfl⟩
  · exact hwrapper i _ _ (h.type _) fun _ => ⟨rfl, rfl⟩
  · exact hwrapper i _ _ (h.type _) fun _ => ⟨rfl, rfl⟩
  · exact h.generic_type n
  · exact .bind (.any _) fun t _ => .pure (well_formed_type_reference (by simp))
  · exact .bind (.any _) fun t _ => .pure (well_formed_type_reference (by simp))
  · refine .bind (h.property_signatures n) fun es hes => .pure (.of_fields ?_ ?_)
    · simpa [isFormed] using fun e he => (hes e he).2
    · simpa [fields, Field.contents] using fun e he => (hes e he).1
  · refine .bind (.mapM fun c _ => h.type c) fun es hes => .pure (.of_fields rfl ?_)
    simp only [fields, Field.contents, List.flatMap_cons, List.flatMap_nil, List.append_nil]
    intro q hq
    obtain ⟨e, he, hq⟩ := List.mem_flatMap.mp hq
    exact well_formed_of_mem_union (hes e he) hq
  · exact h.type _
  · exact .pure (well_formed_of_leaf rfl rfl)

/-! ## Patterns -/

/-- A tree that cannot declare anything else is unknown. -/
theorem Sound.make_binding_name (h : m.Sound) (n : ParseTree) :
    Makes (fun q => q.WellFormed ∧ q.isBindingName) (m.makeBindingName n) := by
  have hname : Makes (fun q => q.WellFormed ∧ q.isBindingName) (identifier n) :=
    .mono (makes_identifier n) fun q hq => ⟨hq.1, by simp [isBindingName, hq.2]⟩
  unfold makeBindingName
  split
  · exact hname
  · exact hname
  · exact hname
  · refine .bind (.any _) fun i _ => .bind (.mapM fun c _ => h.bindingElement c) fun es hes => ?_
    refine .pure ⟨.of_fields ?_ ?_, rfl⟩
    · simpa [isFormed] using fun e he => .inl (hes e he).2
    · simpa [fields, Field.contents] using fun e he => (hes e he).1
  · refine .bind (.any _) fun i _ => ?_
    refine .bind (makes_elements (P := fun e => e.WellFormed ∧ (e.role = .element ∨ e.role = .hole))
      (fun i => ⟨well_formed_of_leaf rfl rfl, .inr rfl⟩)
      (fun c => .mono (h.bindingElement c) fun e he => ⟨he.1, .inl he.2⟩) true _) fun es hes => ?_
    refine .pure ⟨.of_fields ?_ ?_, rfl⟩
    · simpa [isFormed] using fun e he => (hes e he).2
    · simpa [fields, Field.contents] using fun e he => (hes e he).1
  · exact .mono (h.unknown n) fun q hq => ⟨hq.1, by simp [isBindingName, hq.2]⟩

/-- An element is well formed if its fields are and its name can declare something. -/
theorem well_formed_element {i : Info} {name : Node} {key init : Option Node} {isRest : Bool}
    (hname : name.WellFormed ∧ name.isBindingName) (hkey : ∀ q ∈ key, q.WellFormed)
    (hinit : ∀ q ∈ init, q.WellFormed) :
    (Node.bindingElement i name key init isRest).WellFormed := by
  refine .of_fields hname.2 ?_
  simpa [fields, Field.contents, or_imp, forall_and] using ⟨hname.1, hkey, hinit⟩

/-- An element that is renamed stays one that is well formed. -/
theorem well_formed_renamed {i : Info} {key e : Node} (he : e.WellFormed ∧ e.role = .element)
    (hkey : key.WellFormed) : (renamed i key e).WellFormed ∧ (renamed i key e).role = .element := by
  obtain ⟨hwhole, hrole⟩ := he
  obtain ⟨j, name, old, init, isRest, rfl⟩ := exists_element hrole
  obtain ⟨hformed, hchildren⟩ := well_formed_iff.mp hwhole
  simp only [children_eq, fields, Field.contents, List.flatMap_cons, List.flatMap_nil,
    List.append_nil, List.singleton_append, List.forall_mem_cons, List.forall_mem_append,
    Option.mem_toList] at hchildren
  refine ⟨well_formed_element ⟨hchildren.1, hformed⟩ ?_ hchildren.2.2, rfl⟩
  simpa using hkey

/-- An element of a pattern is well formed. -/
theorem Sound.make_binding_element (h : m.Sound) (n : ParseTree) :
    Makes (fun q => q.WellFormed ∧ q.role = .element) (m.makeBindingElement n) := by
  have hnone : ∀ q ∈ (none : Option Node), q.WellFormed := by simp
  unfold makeBindingElement
  refine .bind (.any _) fun i _ => ?_
  split
  · have hend : ∀ e : Node, e.WellFormed ∧ e.role = .element →
        Makes (fun q => q.WellFormed ∧ q.role = .element)
          (m.propertyName (n.child? "key") >>= fun key => Pure.pure (renamed i key e)) :=
      fun e he => .bind (h.property_name _) fun key hkey => .pure (well_formed_renamed he hkey)
    dsimp only
    split
    · exact .bind (h.bindingElement _) hend
    · have hname : missing.WellFormed ∧ missing.isBindingName := ⟨well_formed_missing, rfl⟩
      exact .bind (.pure ⟨well_formed_element hname hnone hnone, rfl⟩) hend
  · refine .bind (h.binding_name_or_missing _) fun name hname => ?_
    refine .bind (h.optional_expression _) fun init hinit => .pure ⟨?_, rfl⟩
    exact well_formed_element hname hnone hinit
  · refine .bind (h.binding_name_or_missing _) fun name hname => ?_
    refine .bind (h.optional_expression _) fun init hinit => .pure ⟨?_, rfl⟩
    exact well_formed_element hname hnone hinit
  · refine .bind (h.binding_name_or_missing _) fun name hname => .pure ⟨?_, rfl⟩
    exact well_formed_element hname hnone hnone
  · refine .bind (h.bindingName _) fun name hname => .pure ⟨?_, rfl⟩
    exact well_formed_element hname hnone hnone

/-! ## Statements -/

/-- The variables of a statement are well formed. -/
theorem Sound.variable_statement (h : m.Sound) {keyword : DeclarationKind}
    (hkeyword : keyword.isKnown) (n : ParseTree) :
    Makes WellFormed (m.variableStatement keyword n) := by
  unfold Makers.variableStatement
  refine .bind (P := fun ds => ∀ d ∈ ds, d.WellFormed ∧ d.role = .variable) (.mapM fun d _ => ?_)
    fun ds hds => ?_
  · refine .bind (h.binding_name_or_missing _) fun name hname => ?_
    refine .bind (h.type_annotation _) fun type htype => ?_
    refine .bind (h.optional_expression _) fun init hinit => .bind (.any _) fun i _ => ?_
    refine .pure ⟨.of_fields hname.2 ?_, rfl⟩
    simpa [fields, Field.contents, or_imp, forall_and] using ⟨hname.1, htype, hinit⟩
  · refine .bind (.any _) fun i _ => .pure (.of_fields ?_ ?_)
    · simpa [isFormed, hkeyword] using fun d hd => (hds d hd).2
    · simpa [fields, Field.contents] using fun d hd => (hds d hd).1

/-- A mark leaves a statement well formed. -/
theorem well_formed_marked {n : Node} (h : n.WellFormed) :
    n.asExported.WellFormed ∧ n.asAmbient.WellFormed := by
  obtain ⟨hformed, hchildren⟩ := well_formed_iff.mp h
  constructor
  · have hsame : n.asExported.isFormed = n.isFormed ∧ n.asExported.children = n.children := by
      cases n <;> exact ⟨rfl, rfl⟩
    exact well_formed_iff.mpr ⟨hsame.1 ▸ hformed, hsame.2 ▸ hchildren⟩
  · have hsame : n.asAmbient.isFormed = n.isFormed ∧ n.asAmbient.children = n.children := by
      cases n <;> exact ⟨rfl, rfl⟩
    exact well_formed_iff.mpr ⟨hsame.1 ▸ hformed, hsame.2 ▸ hchildren⟩

/-- A statement that is well formed is so if it is there. -/
theorem makes_some {make : MakeSyntax Node} (h : Makes WellFormed make) :
    Makes (fun s => ∀ q ∈ s, q.WellFormed) (some <$> make) :=
  .map h fun e he => by simpa using he

/-- One entry of an export list is well formed. -/
theorem makes_export_specifier (n : ParseTree) :
    Makes (fun q => q.WellFormed ∧ q.role = .exported) (exportSpecifier n) := by
  have hend : ∀ localName name : Text, Makes (fun q => q.WellFormed ∧ q.role = .exported)
      (info n >>= fun i => Pure.pure (Node.exportSpecifier i name localName)) :=
    fun _ _ => .bind (.any _) fun i _ => .pure ⟨well_formed_of_leaf rfl rfl, rfl⟩
  unfold exportSpecifier
  refine .bind (.any _) fun localName _ => ?_
  dsimp only
  split
  · exact .bind (.any _) fun name _ => hend localName name
  · exact .bind (.any _) fun name _ => hend localName name

/-- An export list is well formed if its entries are. -/
theorem well_formed_exports (i : Info) (module : Option Text) {es : List Node}
    (hes : ∀ e ∈ es, e.WellFormed ∧ e.role = .exported) :
    (Node.exportDeclaration i es module false).WellFormed := by
  refine .of_fields ?_ ?_
  · simpa [isFormed] using fun e he => (hes e he).2
  · simpa [fields, Field.contents] using fun e he => (hes e he).1

/-- An export is well formed if it leaves a statement. -/
theorem Sound.export_statement (h : m.Sound) (n : ParseTree) :
    Makes (fun s => ∀ q ∈ s, q.WellFormed) (m.exportStatement n) := by
  unfold exportStatement
  split
  · refine .bind (h.statement _) fun s hs => .pure ?_
    simpa using fun q hq => (well_formed_marked (hs q hq)).1
  · dsimp only
    split
    all_goals
      refine .bind (.any _) fun module _ => ?_
      split
      · split
        · exact .pure (by simp)
        · refine .bind (.any _) fun i _ => .bind (h.expression _) fun e he => .pure ?_
          have hwhole : (Node.exportAssignment i e).WellFormed :=
            .of_fields rfl (by simpa [fields, Field.contents] using he)
          simpa using hwhole
      · split
        · refine .bind (.mapM fun c _ => makes_export_specifier c) fun es hes => ?_
          refine .bind (.any _) fun i _ => .pure ?_
          simpa using well_formed_exports i module hes
        · split
          · refine .bind (.any _) fun i _ => .pure ?_
            simpa using well_formed_of_leaf rfl rfl
          · exact .bind (h.unknown n) fun q hq => .pure (by simpa using hq.1)

/-- An import specifier is well formed if its name is one. -/
theorem well_formed_import_specifier {i : Info} {name : Node} {propertyName : Option Text}
    {isNamespace : Bool} (hname : name.WellFormed ∧ name.role = .name) :
    (Node.importSpecifier i name propertyName isNamespace).WellFormed := by
  refine .of_fields (by simpa [isFormed] using hname.2) ?_
  simpa [fields, Field.contents] using hname.1

/-- One entry of an import list is well formed. -/
theorem makes_import_specifier (n : ParseTree) :
    Makes (fun q => q.WellFormed ∧ q.role = .imported) (importSpecifier n) := by
  unfold importSpecifier
  refine .bind (.any _) fun _ _ => .bind (.any _) fun localText _ => ?_
  split
  · exact .throw _
  · refine .bind (.any _) fun i _ => .bind (.any _) fun j _ => .pure ⟨?_, rfl⟩
    exact well_formed_import_specifier ⟨well_formed_of_leaf rfl rfl, rfl⟩

/-- The specifiers of one part of an import clause are well formed. -/
theorem makes_import_part (n : ParseTree) :
    Makes (fun es => ∀ e ∈ es, e.WellFormed ∧ e.role = .imported) (importPart n) := by
  unfold importPart
  split
  · refine .bind (.any _) fun i _ => .bind (makes_identifier n) fun name hname => .pure ?_
    simpa [role] using well_formed_import_specifier hname
  · split
    · refine .bind (.any _) fun i _ => .bind (makes_identifier _) fun name hname => .pure ?_
      simpa [role] using well_formed_import_specifier hname
    · exact .pure (by simp)
  · exact .mapM fun c _ => makes_import_specifier c
  · exact .pure (by simp)

/-- An import is well formed. -/
theorem Sound.import_statement (h : m.Sound) (n : ParseTree) :
    Makes WellFormed (m.importStatement n) := by
  unfold importStatement
  split
  · exact .mono (h.unknown n) fun _ hq => hq.1
  · dsimp only
    refine .bind (.mapM fun c _ => makes_import_part c) fun parts hparts => ?_
    refine .bind (.any _) fun module _ => .bind (.any _) fun i _ => .pure (.of_fields ?_ ?_)
    · simpa [isFormed] using fun part hpart e he => (hparts part hpart e he).2
    · simpa [fields, Field.contents] using fun e part hpart he => (hparts part hpart e he).1

/-- A function declaration is well formed. -/
theorem Sound.function_declaration (h : m.Sound) (n : ParseTree) :
    Makes WellFormed (m.functionDeclaration n) := by
  unfold Makers.functionDeclaration
  refine .bind (makes_optional_identifier _) fun name hname => ?_
  refine .bind (h.parameters n) fun ps hps => .bind (h.optional_block _) fun body hbody => ?_
  exact .bind (.any _) fun i _ => .pure ((well_formed_function hname hps hbody).2 false)

/-- A class declaration is well formed. -/
theorem makes_class_declaration (n : ParseTree) : Makes WellFormed (classDeclaration n) := by
  unfold classDeclaration
  refine .bind (.any _) fun i _ => .bind (makes_optional_identifier _) fun name hname => ?_
  refine .pure (.of_fields ?_ ?_)
  · simpa [isFormed, Option.all_eq_true] using fun q hq => (hname q hq).2
  · simpa [fields, Field.contents] using fun q hq => (hname q hq).1

/-- A type alias is well formed. -/
theorem Sound.type_alias_declaration (h : m.Sound) (n : ParseTree) :
    Makes WellFormed (m.typeAliasDeclaration n) := by
  unfold Makers.typeAliasDeclaration
  split
  · refine .bind (.any _) fun i _ => .bind (makes_identifier _) fun name hname => ?_
    refine .bind (h.type _) fun type htype => .pure (.of_fields ?_ ?_)
    · simpa [isFormed] using hname.2
    · simpa [fields, Field.contents] using ⟨hname.1, htype⟩
  · exact .mono (h.unknown n) fun _ hq => hq.1

/-- An interface is well formed. -/
theorem Sound.interface_declaration (h : m.Sound) (n : ParseTree) :
    Makes WellFormed (m.interfaceDeclaration n) := by
  unfold Makers.interfaceDeclaration
  split
  · exact .mono (h.unknown n) fun _ hq => hq.1
  · next tree _ =>
      have hend : ∀ ms : List Node, (∀ e ∈ ms, e.WellFormed ∧ e.role = .signature) →
          Makes WellFormed (info n >>= fun i => identifier tree >>= fun name =>
            Pure.pure (Node.interfaceDeclaration i name ms false)) := fun ms hms => by
        refine .bind (.any _) fun i _ => .bind (makes_identifier tree) fun name hname => ?_
        refine .pure (.of_fields ?_ ?_)
        · simpa [isFormed] using ⟨hname.2, fun e he => (hms e he).2⟩
        · simpa [fields, Field.contents] using ⟨hname.1, fun e he => (hms e he).1⟩
      dsimp only
      split
      · exact .bind (h.property_signatures _) hend
      · exact .bind (.pure (by simp)) hend

/-- A member of an enum is well formed. -/
theorem Sound.make_enum_member (h : m.Sound) (n : ParseTree) :
    Makes (fun q => q.WellFormed ∧ q.role = .enumMember) (m.makeEnumMember n) := by
  unfold makeEnumMember
  split
  · refine .bind (h.property_name _) fun name hname => ?_
    refine .bind (h.optional_expression _) fun init hinit => .bind (.any _) fun i _ => ?_
    refine .pure ⟨.of_fields rfl ?_, rfl⟩
    simpa [fields, Field.contents] using ⟨hname, hinit⟩
  · refine .bind (.any _) fun i _ => .bind (h.property_name _) fun name hname => ?_
    exact .pure ⟨.of_fields rfl (by simpa [fields, Field.contents] using hname), rfl⟩

/-- An enum is well formed. -/
theorem Sound.enum_declaration (h : m.Sound) (n : ParseTree) :
    Makes WellFormed (m.enumDeclaration n) := by
  unfold Makers.enumDeclaration
  split
  · exact .mono (h.unknown n) fun _ hq => hq.1
  · next tree _ =>
      have hend : ∀ ms : List Node, (∀ e ∈ ms, e.WellFormed ∧ e.role = .enumMember) →
          Makes WellFormed (info n >>= fun i => identifier tree >>= fun name =>
            Pure.pure (Node.enumDeclaration i name ms (n.hasToken "const") false)) :=
        fun ms hms => by
          refine .bind (.any _) fun i _ => .bind (makes_identifier tree) fun name hname => ?_
          refine .pure (.of_fields ?_ ?_)
          · simpa [isFormed] using ⟨hname.2, fun e he => (hms e he).2⟩
          · simpa [fields, Field.contents] using ⟨hname.1, fun e he => (hms e he).1⟩
      dsimp only
      split
      · exact .bind (.mapM fun c _ => h.make_enum_member c) hend
      · exact .bind (.pure (by simp)) hend

/-- The name of a namespace or module is well formed. -/
theorem makes_module_name (n : ParseTree) :
    Makes (fun q => q.WellFormed ∧ q.isModuleName) (moduleName n) := by
  unfold moduleName
  split
  · exact makes_string n
  · refine .bind (.any _) fun t _ => .bind (.any _) fun i _ => .pure ⟨?_, rfl⟩
    exact well_formed_of_leaf rfl rfl
  · unfold identifier
    refine .bind (.any _) fun i _ => .bind (.any _) fun t _ => .pure ⟨?_, rfl⟩
    exact well_formed_of_leaf rfl rfl

/-- A namespace or module is well formed. -/
theorem Sound.module_declaration (h : m.Sound) (n : ParseTree) :
    Makes WellFormed (m.moduleDeclaration n) := by
  unfold Makers.moduleDeclaration
  split
  · exact .mono (h.unknown n) fun _ hq => hq.1
  · refine .bind (makes_module_name _) fun name hname => ?_
    refine .bind (h.optional_block _) fun body hbody => .bind (.any _) fun i _ => ?_
    refine .pure (.of_fields hname.2 ?_)
    simpa [fields, Field.contents] using ⟨hname.1, hbody⟩

/-- A statement that is an expression is well formed if it is there. -/
theorem Sound.expression_statement (h : m.Sound) (n : ParseTree) :
    Makes (fun s => ∀ q ∈ s, q.WellFormed) (m.expressionStatement n) := by
  unfold Makers.expressionStatement
  split
  · exact .pure (by simp)
  · split
    · exact .bind (h.module_declaration _) fun q hq => .pure (by simpa using hq)
    · refine .bind (.any _) fun i _ => .bind (h.expression _) fun e he => .pure ?_
      have hwhole : (Node.expressionStatement i e).WellFormed :=
        .of_fields rfl (by simpa [fields, Field.contents] using he)
      simpa using hwhole

/-- A declaration without a value elsewhere is well formed if it is there. -/
theorem Sound.ambient_declaration (h : m.Sound) (n : ParseTree) :
    Makes (fun s => ∀ q ∈ s, q.WellFormed) (m.ambientDeclaration n) := by
  unfold ambientDeclaration
  split
  · exact .pure (by simp)
  · refine .bind (h.statement _) fun s hs => .pure ?_
    simpa using fun q hq => (well_formed_marked (hs q hq)).2

/-- The keyword of a loop is one that introduces variables. -/
theorem known_of_loop_keyword {n : ParseTree} {keyword : DeclarationKind}
    (h : loopKeyword? n = some keyword) : keyword.isKnown := by
  obtain ⟨c, hfind, rfl⟩ := Option.map_eq_some_iff.mp h
  have hc := List.find?_some hfind
  simp only [List.contains_cons, List.contains_nil, Bool.or_false, Bool.or_eq_true,
    beq_iff_eq] at hc
  rcases hc with hc | hc | hc <;> simp only [symbol, hc] <;> rfl

/-- What a loop assigns to is well formed; with a keyword it is a variable of the loop. -/
theorem Sound.loop_target (h : m.Sound) (isDeclared : Bool) (left : Option ParseTree) :
    Makes (fun q => q.WellFormed ∧ (isDeclared → q.isLoopVariable))
      (m.loopTarget isDeclared left) := by
  unfold loopTarget
  split
  · refine .bind (h.binding_name_or_missing _) fun name hname => ?_
    have hend : ∀ i : Info, True → Makes (fun q => q.WellFormed ∧ (isDeclared → q.isLoopVariable))
        (Pure.pure (Node.variableDeclaration i name none none)) := fun i _ => by
      refine .pure ⟨.of_fields hname.2 ?_, fun _ => rfl⟩
      simpa [fields, Field.contents] using hname.1
    dsimp only
    split
    · exact .bind (.any _) hend
    · exact .bind (.any _) hend
  · next hdeclared =>
      exact .mono (h.expression_or_missing _) fun q hq => ⟨hq, fun h => absurd h hdeclared⟩

/-- A loop is well formed if its fields are and a keyword stands before a variable. -/
theorem well_formed_loop {i : Info} {init e : Node} {statement : Option Node}
    {keyword : Option DeclarationKind}
    (hkeyword : ∀ k, keyword = some k → k.isKnown ∧ init.isLoopVariable) (hinit : init.WellFormed)
    (he : e.WellFormed) (hstatement : ∀ q ∈ statement, q.WellFormed) :
    (Node.forInStatement i init e statement keyword).WellFormed ∧
      (Node.forOfStatement i init e statement keyword).WellFormed := by
  cases keyword with
  | none =>
      refine ⟨.of_fields rfl ?_, .of_fields rfl ?_⟩ <;>
        simpa [fields, Field.contents] using ⟨hinit, he, hstatement⟩
  | some k =>
      have hk := Bool.and_eq_true_iff.mpr (hkeyword k rfl)
      refine ⟨.of_fields hk ?_, .of_fields hk ?_⟩ <;>
        simpa [fields, Field.contents] using ⟨hinit, he, hstatement⟩

/-- A loop is well formed. -/
theorem Sound.for_in_statement (h : m.Sound) (n : ParseTree) :
    Makes WellFormed (m.forInStatement n) := by
  unfold Makers.forInStatement
  dsimp only
  refine .bind (h.loop_target _ _) fun init hinit => ?_
  refine .bind (h.expression_or_missing _) fun e he => ?_
  have hkeyword : ∀ keyword, loopKeyword? n = some keyword →
      keyword.isKnown ∧ init.isLoopVariable := fun keyword hkeyword =>
    ⟨known_of_loop_keyword hkeyword, hinit.2 (by simp [hkeyword])⟩
  split
  all_goals
    refine .bind (P := fun s => ∀ q ∈ s, q.WellFormed) ?_ fun statement hstatement => ?_
    · first
      | exact h.statement _
      | exact .pure (by simp)
    · split
      · refine .bind (.any _) fun i _ => .pure ?_
        exact (well_formed_loop hkeyword hinit.1 he hstatement).2
      · refine .bind (.any _) fun i _ => .pure ?_
        exact (well_formed_loop hkeyword hinit.1 he hstatement).1

/-- A catch clause is well formed. -/
theorem Sound.catch_clause (h : m.Sound) (n : ParseTree) :
    Makes WellFormed (m.catchClause n) := by
  have hend : ∀ declaration : Option Node, (∀ q ∈ declaration, q.WellFormed ∧ q.isCaught) →
      Makes WellFormed (m.optionalBlock (n.child? "body") >>= fun body => info n >>= fun i =>
        Pure.pure (Node.catchClause i declaration body)) := fun declaration hdeclaration => by
    refine .bind (h.optional_block _) fun body hbody => .bind (.any _) fun i _ => ?_
    refine .pure (.of_fields ?_ ?_)
    · simpa [isFormed, Option.all_eq_true] using fun q hq => (hdeclaration q hq).2
    · simpa [fields, Field.contents, or_imp, forall_and]
        using ⟨fun q hq => (hdeclaration q hq).1, hbody⟩
  unfold Makers.catchClause
  dsimp only
  split
  · refine .bind (h.bindingName _) fun name hname => ?_
    refine .bind (h.type_annotation _) fun type htype => .bind (.any _) fun i _ => ?_
    refine .bind (.pure (P := fun d => ∀ q ∈ d, q.WellFormed ∧ q.isCaught) ?_) hend
    have hwhole : (Node.variableDeclaration i name type none).WellFormed := by
      refine .of_fields hname.2 ?_
      simpa [fields, Field.contents] using ⟨hname.1, htype⟩
    simpa [isCaught] using hwhole
  · exact .bind (.pure (by simp)) hend

/-- What is made of a tree with the symbol of a statement is well formed. -/
theorem Sound.statement_of_type (h : m.Sound) {n : ParseTree} {make : MakeSyntax (Option Node)}
    (hmake : m.statementOfType? n = some make) : Makes (fun s => ∀ q ∈ s, q.WellFormed) make := by
  have hlexical : (if n.hasToken "let" then DeclarationKind.let else .const).isKnown := by
    split <;> rfl
  unfold statementOfType? at hmake
  split at hmake <;> try obtain rfl := Option.some.inj hmake
  · exact h.expression_statement n
  · exact makes_some (h.variable_statement hlexical n)
  · exact makes_some (h.variable_statement rfl n)
  · exact h.ambient_declaration n
  · exact h.export_statement n
  · exact makes_some (h.import_statement n)
  · exact makes_some (h.function_declaration n)
  · exact makes_some (h.function_declaration n)
  · exact makes_some (h.function_declaration n)
  · exact makes_some (makes_class_declaration n)
  · exact makes_some (makes_class_declaration n)
  · exact makes_some (h.type_alias_declaration n)
  · exact makes_some (h.interface_declaration n)
  · exact makes_some (h.enum_declaration n)
  · exact makes_some (h.module_declaration n)
  · exact makes_some (h.module_declaration n)
  · exact makes_some (h.for_in_statement n)
  · exact makes_some (h.catch_clause n)
  · exact makes_some (h.block n)
  · cases hmake

/-- One level up, the ways to make syntax still make well-formed trees. -/
theorem Sound.above (h : m.Sound) : m.above.Sound where
  statement n := by
    show Makes _ (m.makeStatement n)
    unfold makeStatement
    split
    · exact .pure (by simp)
    · refine .guarded (fun i => by simpa using well_formed_cut_off n i) ?_
      split
      · next hmake => exact h.statement_of_type hmake
      · exact makes_some (.mono (h.unknown n) fun _ hq => hq.1)
  generic n := by
    show Makes _ (m.makeGeneric n)
    unfold makeGeneric
    split
    · next hmake =>
        refine .bind (.guarded (fun i => by simpa using well_formed_cut_off n i)
          (h.statement_of_type hmake)) fun s hs => ?_
        split
        · next q => exact .pure (hs q rfl)
        · exact .mono (h.unknown n) fun _ hq => hq.1
    · exact h.expression n
  expression n := .guarded (well_formed_cut_off n) (h.expression_of_type n)
  type n := .guarded (well_formed_cut_off_type n) (h.type_of_type n)
  bindingName := h.make_binding_name
  bindingElement := h.make_binding_element

/-- The ways to make syntax of any depth make well-formed trees. -/
theorem sound_of_depth (depth : Nat) : (ofDepth depth).Sound := by
  induction depth with
  | zero => exact ⟨fun _ => .throw _, fun _ => .throw _, fun _ => .throw _, fun _ => .throw _,
      fun _ => .throw _, fun _ => .throw _⟩
  | succ depth ih => exact ih.above

end Makers

end MakeSyntax

open MakeSyntax

namespace SourceFile

/-- A statement of a file is well formed if it is there, also where its tree is too deep. -/
theorem well_formed_of_statement_from {depth : Nat} {ctx : SyntaxContext}
    {anomalies rest : List Anomaly} {tree : ParseTree} {statement : Option Node}
    (h : statementFrom depth ctx anomalies tree = .ok (statement, rest)) :
    ∀ n ∈ statement, n.WellFormed := by
  unfold statementFrom at h
  split at h
  · next hrun =>
      obtain ⟨rfl, rfl⟩ := Prod.mk.inj (Except.ok.inj h)
      exact (Makers.sound_of_depth depth).statement tree ctx anomalies _ _ hrun
  · obtain ⟨rfl, _⟩ := Prod.mk.inj (Except.ok.inj h)
    simpa using well_formed_cut_off tree _
  · cases h

/-- The statements of a file are well formed. -/
theorem well_formed_of_statements_from {depth : Nat} {ctx : SyntaxContext}
    {anomalies rest : List Anomaly} {trees : List ParseTree} {statements : List Node}
    (h : statementsFrom depth ctx anomalies trees = .ok (statements, rest)) :
    ∀ n ∈ statements, n.WellFormed := by
  induction trees generalizing anomalies statements with
  | nil =>
      obtain ⟨rfl, rfl⟩ := Prod.mk.inj (Except.ok.inj h)
      simp
  | cons tree trees ih =>
      obtain ⟨⟨statement, noted⟩, hstatement, h⟩ := bind_eq_ok_iff.mp h
      obtain ⟨⟨following, last⟩, hfollowing, h⟩ := bind_eq_ok_iff.mp h
      obtain ⟨rfl, rfl⟩ := Prod.mk.inj (Except.ok.inj h)
      refine List.forall_mem_append.mpr ⟨?_, ih hfollowing⟩
      simpa using well_formed_of_statement_from hstatement

/-- The statements of a file that was parsed are well formed. -/
theorem well_formed_of_parsed {bytes : List UInt8} {fileName : Text} {maxNesting : Int}
    {parsed : ParsedSource} {source : SourceFile}
    (h : ofParsed bytes fileName maxNesting parsed = .ok source) :
    ∀ n ∈ source.statements, n.WellFormed := by
  obtain ⟨⟨statements, anomalies⟩, hstatements, h⟩ := bind_eq_ok_iff.mp h
  obtain rfl := Except.ok.inj h
  exact well_formed_of_statements_from hstatements

end SourceFile

end StaticLiteral
