import Mathlib.Data.List.Perm.Subperm
import StaticLiteral.Proofs.Syntax.Parts
import StaticLiteral.Semantic.Binding

/-!
# Binding step by step

Binding a node establishes a few facts about the node itself and then takes steps: facts about a
node below, or a node below that is bound on its own. `of_node_eq` says that this is all that
binding does, and `steps_subperm` that no node below is met by two steps. Every property of binding
is proved of one step and carried over whole trees from there.
-/

namespace StaticLiteral

namespace Binding

/-- One step of binding a node. -/
inductive Step where
  | note (part : Node) (facts : List Fact)
  | visit (site : Site) (part : Node)

namespace Step

/-- The facts that a step establishes. -/
def facts : Step → List Fact
  | note _ facts => facts
  | visit site part => ofNode site part

/-- The nodes that a step meets. -/
def parts : Step → List Node
  | note part _ => [part]
  | visit _ part => part.parts

end Step

/-- Nodes side by side are bound on their own. -/
def visitAll (site : Site) (ns : List Node) : List Step := ns.map (.visit site)

/-- The steps of a body. A block shares the scope of what it is the body of. -/
def bodySteps (site : Site) : Option Node → List Step
  | some (.block _ statements) => visitAll site statements
  | body => visitAll site body.toList

/-- The steps of the key of an element of a pattern. -/
def keySteps (target : Site) : Option Node → List Step
  | some key => if key.identifier?.isSome then [] else [.visit target key]
  | none => []

mutual

/-- The steps of a name or a pattern that `declaration` declares. -/
def patternSteps (target : Site) (manner : Manner) (declaration : Node) : Node → List Step
  | .objectBindingPattern _ elements | .arrayBindingPattern _ elements =>
    elementSteps target manner elements
  | name => [.note name (target.declare [.value] manner.exported
      (.declaredBy manner.kind declaration manner.isConst) name)]

/-- The steps of the elements of a pattern. -/
def elementSteps (target : Site) (manner : Manner) : List Node → List Step
  | [] => []
  | element@(.bindingElement _ name key init _) :: rest =>
    keySteps target key ++ patternSteps target manner element name
      ++ visitAll target init.toList ++ elementSteps target manner rest
  | _ :: rest => elementSteps target manner rest

end

/-- The steps of a variable of a statement. -/
def declaratorSteps (site target : Site) (manner : Manner) : Node → List Step
  | declaration@(.variableDeclaration _ name type init) =>
    patternSteps target manner declaration name ++ visitAll site type.toList
      ++ visitAll site init.toList
  | _ => []

/-- The steps of the variable of a loop. -/
def loopSteps (target : Site) (manner : Manner) : Node → List Step
  | declaration@(.variableDeclaration _ name _ _) => patternSteps target manner declaration name
  | _ => []

/-- The steps of what a clause catches. -/
def caughtSteps (site inner : Site) : Node → List Step
  | declaration@(.variableDeclaration _ name type _) =>
    patternSteps inner .ofParameter declaration name ++ visitAll site type.toList
  | _ => []

/-- The steps of a parameter. -/
def parameterSteps (inner : Site) : Node → List Step
  | parameter@(.parameter _ name type init) =>
    patternSteps inner .ofParameter parameter name ++ visitAll inner type.toList
      ++ visitAll inner init.toList
  | _ => []

/-- The step of the name of a member. -/
def memberStep (site : Site) (owner : SymbolId) (kind : SymbolKind) (member name : Node) : Step :=
  match memberFacts owner kind member name with
  | some facts => .note name facts
  | none => .visit site name

/-- The steps of a member of a type or an enumeration. -/
def memberSteps (site : Site) (owner : SymbolId) (kind : SymbolKind) : Node → List Step
  | member@(.propertySignature _ name rest) | member@(.enumMember _ name rest) =>
    memberStep site owner kind member name :: visitAll site rest.toList
  | _ => []

/-- The steps inside a function: those of its parameters and of its body. -/
def innerSteps (site : Site) : Node → List Step
  | .functionDeclaration i _ parameters body _ =>
    parameters.flatMap (parameterSteps (site.enterFunction i.id))
      ++ bodySteps (site.enterFunction i.id) body
  | .functionExpression i _ parameters body =>
    parameters.flatMap (parameterSteps (site.enter .function i.id))
      ++ bodySteps (site.enter .function i.id) body
  | .methodDeclaration i _ body => bodySteps (site.enterFunction i.id) body
  | _ => []

/-- The steps of a property of an object literal. -/
def propertySteps (site : Site) (owner : SymbolId) : Node → List Step
  | property@(.propertyAssignment _ name init) =>
    [memberStep site owner .property property name, .visit site init]
  | property@(.shorthandPropertyAssignment _ name) =>
    [memberStep site owner .property property name, .note property [.refers name.id site.scope]]
  | property@(.methodDeclaration _ name _) =>
    memberStep site owner .property property name :: innerSteps site property
  | property => [.visit site property]

/-- The step of an import. -/
def importSteps (site : Site) (module : Text) : Node → List Step
  | specifier@(.importSpecifier _ name _ _) => [.note name (importFacts site module [specifier])]
  | _ => []

/-- The step of an export. -/
def exportSteps (site : Site) (module : Option Text) : Node → List Step
  | specifier@(.exportSpecifier ..) => [.note specifier (exportFacts site module [specifier])]
  | _ => []

/-- The facts that a node establishes about itself, before all steps. -/
def ownFacts (site : Site) : Node → List Fact
  | .identifier i _ => [.refers i.id site.scope]
  | .typeReference _ name _ => [.refers name.id site.scope]
  | .exportDeclaration _ _ module true => starFacts site module
  | node@(.exportAssignment _ expression) => defaultFacts site node expression
  | node@(.objectLiteral i _) => [.isLiteral i.id (literalSymbol .objectLiteral "__object" node)]
  | node@(.typeLiteral i _) => [.isLiteral i.id (literalSymbol .typeLiteral "__type" node)]
  | _ => []

/-- The steps of binding a node. -/
def steps (site : Site) : Node → List Step
  | .typeReference _ _ arguments => visitAll site arguments
  | .variableStatement _ keyword declarations exported _ =>
    let manner := Manner.ofKeyword keyword exported
    let target := if manner.kind = .blockScopedVariable then site else site.hoisted
    declarations.flatMap (declaratorSteps site target manner)
  | .forInStatement i init expression statement keyword
  | .forOfStatement i init expression statement keyword =>
    let inner := site.enter .block i.id
    .visit site expression
      :: (match keyword with
        | some keyword =>
          if init.isVariableDeclaration then
            loopSteps (if keyword = .var then site.hoisted else inner) (.ofLoopKeyword keyword) init
          else [.visit site init]
        | none => [.visit site init])
      ++ bodySteps inner statement
  | .catchClause i declaration block =>
    let inner := site.enter .block i.id
    declaration.toList.flatMap (caughtSteps site inner) ++ bodySteps inner block
  | node@(.functionDeclaration _ name _ _ exported) =>
    name.toList.map (fun name => .note name
        (site.hoisted.declare [.value] exported (.declaredBy .function node false) name))
      ++ innerSteps site node
  | node@(.functionExpression i name _ _) =>
    name.toList.map (fun name => .note name ((site.enter .function i.id).declare [.value] false
        (.declaredBy .function node false) name))
      ++ innerSteps site node
  | .block i statements => visitAll (site.enter .block i.id) statements
  | node@(.classDeclaration _ name exported) =>
    name.toList.map fun name => .note name
      (site.declare [.value, .type] exported (.declaredBy .classDefinition node false) name)
  | node@(.typeAliasDeclaration _ name type exported) =>
    [.note name (site.declare [.type] exported (.declaredBy .typeAlias node false) name),
      .visit site type]
  | node@(.interfaceDeclaration _ name members exported) =>
    .note name (site.declare [.type] exported (.declaredBy .interface node false) name)
      :: members.flatMap (memberSteps site (.node name.id) .property)
  | node@(.enumDeclaration _ name members _ exported) =>
    .note name (site.declare [.value, .type] exported (.declaredBy .enum node false) name)
      :: members.flatMap (memberSteps site (.node name.id) .enumMember)
  | node@(.moduleDeclaration i name body exported) =>
    .note name (site.declare [.value, .type] exported (.declaredBy .namespaceBlock node false) name)
      :: bodySteps (site.enterNamespace i.id name) body
  | .importDeclaration _ module specifiers => specifiers.flatMap (importSteps site module)
  | .exportDeclaration _ specifiers module isStar =>
    if isStar then [] else specifiers.flatMap (exportSteps site module)
  | .objectLiteral i properties => properties.flatMap (propertySteps site (.node i.id))
  | .typeLiteral i members => members.flatMap (memberSteps site (.node i.id) .property)
  | node => visitAll site node.children

/-! ## The facts of the steps -/

/-- A note establishes its facts. -/
@[simp]
theorem facts_note (part : Node) (facts : List Fact) : (Step.note part facts).facts = facts := rfl

/-- A visit establishes the facts of the node that is visited. -/
@[simp]
theorem facts_visit (site : Site) (part : Node) : (Step.visit site part).facts = ofNode site part :=
  rfl

variable (site target inner : Site) (manner : Manner)

/-- Nodes side by side are bound one after the other. -/
@[simp]
theorem facts_visit_all (ns : List Node) :
    (visitAll site ns).flatMap Step.facts = ofNodes site ns := by
  induction ns with
  | nil => rfl
  | cons n ns ih =>
      simp only [visitAll, List.map_cons, List.flatMap_cons, facts_visit] at ih ⊢
      rw [ih, ofNodes]

/-- Nodes of two lists are bound one list after the other. -/
@[simp]
theorem of_nodes_append (ns ms : List Node) :
    ofNodes site (ns ++ ms) = ofNodes site ns ++ ofNodes site ms := by
  induction ns with
  | nil => rfl
  | cons n ns ih => simp [ofNodes, ih]

/-- A node that may be missing is bound if it is there. -/
@[simp]
theorem of_nodes_to_list (n : Option Node) : ofNodes site n.toList = ofOption site n := by
  cases n <;> simp [ofNodes, ofOption]

/-- The steps of a body establish its facts. -/
@[simp]
theorem facts_body_steps (body : Option Node) :
    (bodySteps site body).flatMap Step.facts = ofBody site body := by
  cases body with
  | none => rfl
  | some n =>
      cases n with
      | block i statements => simp [bodySteps, ofBody]
      | _ => simp [bodySteps, ofBody, ofNodes]

mutual

/-- The steps of a pattern establish its facts. -/
@[simp]
theorem facts_pattern_steps (manner : Manner) (declaration : Node) : ∀ name : Node,
    (patternSteps target manner declaration name).flatMap Step.facts =
      ofPattern target manner declaration name := by
  intro name
  cases name with
  | objectBindingPattern i elements | arrayBindingPattern i elements =>
      rw [patternSteps, ofPattern]
      exact facts_element_steps manner elements
  | _ => simp [patternSteps, ofPattern]

/-- The steps of the elements of a pattern establish their facts. -/
theorem facts_element_steps (manner : Manner) : ∀ elements : List Node,
    (elementSteps target manner elements).flatMap Step.facts = ofElements target manner elements
  | [] => rfl
  | element :: rest => by
      have ih := facts_element_steps manner rest
      cases element with
      | bindingElement i name key init isRest =>
          have hname := facts_pattern_steps manner (.bindingElement i name key init isRest) name
          cases key with
          | none => simp [elementSteps, ofElements, keySteps, hname, ih]
          | some key =>
              by_cases hkey : key.identifier?.isSome <;>
                simp [elementSteps, ofElements, keySteps, hkey, hname, ih]
      | _ => simpa [elementSteps, ofElements] using ih

end

/-- The steps of the variables of a statement establish their facts. -/
theorem facts_declarator_steps (declarations : List Node) :
    (declarations.flatMap (declaratorSteps site target manner)).flatMap Step.facts =
      ofDeclarators site target manner declarations := by
  induction declarations with
  | nil => rfl
  | cons declaration rest ih =>
      cases declaration <;> simp_all [declaratorSteps, ofDeclarators]

/-- The steps of the variable of a loop establish its facts. -/
@[simp]
theorem facts_loop_steps (declaration : Node) :
    (loopSteps target manner declaration).flatMap Step.facts =
      ofLoopVariable target manner declaration := by
  cases declaration <;> simp [loopSteps, ofLoopVariable]

/-- The steps of what a clause catches establish its facts. -/
theorem facts_caught_steps (declaration : Option Node) :
    (declaration.toList.flatMap (caughtSteps site inner)).flatMap Step.facts =
      ofCaught site inner declaration := by
  cases declaration with
  | none => rfl
  | some declaration => cases declaration <;> simp [caughtSteps, ofCaught]

/-- The steps of parameters establish their facts. -/
theorem facts_parameter_steps (parameters : List Node) :
    (parameters.flatMap (parameterSteps inner)).flatMap Step.facts =
      ofParameters inner parameters := by
  induction parameters with
  | nil => rfl
  | cons parameter rest ih => cases parameter <;> simp_all [parameterSteps, ofParameters]

/-- The step of the name of a member establishes its entry, or binds a name that is computed. -/
@[simp]
theorem facts_member_step (owner : SymbolId) (kind : SymbolKind) (member name : Node) :
    (memberStep site owner kind member name).facts =
      (memberFacts owner kind member name).getD (ofNode site name) := by
  unfold memberStep
  split <;> simp [*]

/-- The steps of members establish their facts. -/
theorem facts_member_steps (owner : SymbolId) (kind : SymbolKind) (members : List Node) :
    (members.flatMap (memberSteps site owner kind)).flatMap Step.facts =
      ofMembers site owner kind members := by
  induction members with
  | nil => rfl
  | cons member rest ih => cases member <;> simp_all [memberSteps, ofMembers]

/-- The steps of properties establish their facts. -/
theorem facts_property_steps (owner : SymbolId) (properties : List Node) :
    (properties.flatMap (propertySteps site owner)).flatMap Step.facts =
      ofProperties site owner properties := by
  induction properties with
  | nil => rfl
  | cons property rest ih =>
      cases property <;> simp_all [propertySteps, innerSteps, ofProperties]

/-- The steps of imports establish their facts. -/
theorem facts_import_steps (module : Text) (specifiers : List Node) :
    (specifiers.flatMap (importSteps site module)).flatMap Step.facts =
      importFacts site module specifiers := by
  induction specifiers with
  | nil => rfl
  | cons specifier rest ih => cases specifier <;> simp_all [importSteps, importFacts]

/-- The steps of exports establish their facts. -/
theorem facts_export_steps (module : Option Text) (specifiers : List Node) :
    (specifiers.flatMap (exportSteps site module)).flatMap Step.facts =
      exportFacts site module specifiers := by
  induction specifiers with
  | nil => rfl
  | cons specifier rest ih => cases specifier <;> simp_all [exportSteps, exportFacts]

/-- Binding a node establishes its own facts and those of its steps. -/
theorem of_node_eq (n : Node) :
    ofNode site n = ownFacts site n ++ (steps site n).flatMap Step.facts := by
  cases n with
  | forInStatement i init expression statement keyword
  | forOfStatement i init expression statement keyword =>
      cases keyword with
      | none => simp [ofNode, ownFacts, steps]
      | some keyword =>
          by_cases hinit : init.isVariableDeclaration <;>
            simp [ofNode, ownFacts, steps, hinit]
  | catchClause i declaration block =>
      simp [ofNode, ownFacts, steps, facts_caught_steps]
  | variableStatement i keyword declarations exported ambient =>
      simp [ofNode, ownFacts, steps, facts_declarator_steps]
  | functionDeclaration i name parameters body exported
  | functionExpression i name parameters body =>
      cases name <;> simp [ofNode, ownFacts, steps, innerSteps, facts_parameter_steps]
  | classDeclaration i name exported => cases name <;> simp [ofNode, ownFacts, steps]
  | interfaceDeclaration i name members exported | enumDeclaration i name members isConst exported
  | typeLiteral i members => simp [ofNode, ownFacts, steps, facts_member_steps]
  | importDeclaration i module specifiers => simp [ofNode, ownFacts, steps, facts_import_steps]
  | exportDeclaration i specifiers module isStar =>
      cases isStar <;> simp [ofNode, ownFacts, steps, facts_export_steps]
  | objectLiteral i properties => simp [ofNode, ownFacts, steps, facts_property_steps]
  | block i statements | typeReference i name arguments | typeAliasDeclaration i name type exported
  | moduleDeclaration i name body exported => simp [ofNode, ownFacts, steps]
  | _ => simp [ofNode, ownFacts, steps, Node.children_eq, Node.fields, Field.contents, ofNodes]

/-! ## The nodes that the steps meet -/

open Node
open scoped List

/-- A note covers the node that it is about. -/
@[simp]
theorem parts_note (part : Node) (facts : List Fact) : (Step.note part facts).parts = [part] := rfl

/-- A visit covers the node that is visited, with all below it. -/
@[simp]
theorem parts_visit (part : Node) : (Step.visit site part).parts = part.parts := rfl

/-- Nodes side by side are met with their parts. -/
@[simp]
theorem parts_visit_all (ns : List Node) :
    (visitAll site ns).flatMap Step.parts = ns.flatMap parts := by
  simp [visitAll, List.flatMap_map]

/-- Lists that are nowhere longer are together not longer. -/
theorem flat_map_subperm {α β : Type} {f g : α → List β} (h : ∀ x, f x <+~ g x) (xs : List α) :
    xs.flatMap f <+~ xs.flatMap g := by
  induction xs with
  | nil => exact .refl _
  | cons x xs ih => exact (h x).append ih

/-- A node has itself and the parts of some of its children as parts. -/
theorem subperm_parts {n : Node} {ms : List Node} (h : ms <+~ n.children.flatMap parts) :
    ms <+~ n.parts := by
  rw [parts_eq]
  exact h.cons_right n

/-- A node alone is among its parts. -/
theorem self_subperm (n : Node) : [n] <+~ n.parts := List.singleton_subperm_iff.mpr n.mem_parts_self

/-- The steps of a body meet its parts. -/
theorem body_steps_subperm (body : Option Node) :
    (bodySteps site body).flatMap Step.parts <+~ body.toList.flatMap parts := by
  cases body with
  | none => exact .refl _
  | some n =>
      cases n with
      | block i statements =>
          simp only [bodySteps, parts_visit_all, Option.toList, List.flatMap_cons,
            List.flatMap_nil, List.append_nil]
          exact subperm_parts (by simp [children_eq, fields, Field.contents, List.Subperm.refl])
      | _ => simp [bodySteps, List.Subperm.refl]

/-- The step of a key meets its parts. -/
theorem key_steps_subperm (key : Option Node) :
    (keySteps target key).flatMap Step.parts <+~ key.toList.flatMap parts := by
  cases key with
  | none => exact .refl _
  | some key =>
      simp only [keySteps]
      split
      · exact List.nil_subperm
      · simp [List.Subperm.refl]

mutual

/-- The steps of a pattern meet its parts. -/
theorem pattern_steps_subperm (manner : Manner) (declaration : Node) : ∀ name : Node,
    (patternSteps target manner declaration name).flatMap Step.parts <+~ name.parts := by
  intro name
  cases name with
  | objectBindingPattern i elements | arrayBindingPattern i elements =>
      rw [patternSteps]
      refine subperm_parts ?_
      simpa [children_eq, fields, Field.contents] using element_steps_subperm manner elements
  | _ => simpa [patternSteps] using mem_parts_self _

/-- The steps of the elements of a pattern meet their parts. -/
theorem element_steps_subperm (manner : Manner) : ∀ elements : List Node,
    (elementSteps target manner elements).flatMap Step.parts <+~ elements.flatMap parts
  | [] => .refl _
  | element :: rest => by
      have ih := element_steps_subperm manner rest
      cases element with
      | bindingElement i name key init isRest =>
          have hname := pattern_steps_subperm manner (.bindingElement i name key init isRest) name
          have hkey := key_steps_subperm target key
          simp only [elementSteps, List.flatMap_append, List.flatMap_cons, parts_visit_all]
          refine List.Subperm.append (subperm_parts ?_) ih
          simp only [children_eq, fields, Field.contents, List.flatMap_cons, List.flatMap_nil,
            List.flatMap_append, List.append_nil]
          -- The key is met before the name that stands in front of it.
          have hswap := hname.append hkey
          exact ((List.perm_append_comm.append_right _).subperm.trans
            (hswap.append (.refl _))).trans (by simp only [List.append_assoc, List.Subperm.refl])
      | _ =>
          simp only [elementSteps, List.flatMap_cons]
          exact ih.trans (List.sublist_append_right _ _).subperm

end

/-- The steps of a variable of a statement meet its parts. -/
theorem declarator_steps_subperm (declaration : Node) :
    (declaratorSteps site target manner declaration).flatMap Step.parts <+~ declaration.parts := by
  cases declaration with
  | variableDeclaration i name type init =>
      refine subperm_parts ?_
      simp only [declaratorSteps, List.flatMap_append, parts_visit_all, children_eq, fields,
        Field.contents, List.flatMap_cons, List.flatMap_nil, List.append_nil, List.append_assoc]
      exact (pattern_steps_subperm target manner _ name).append (.refl _)
  | _ => exact List.nil_subperm

/-- The steps of the variable of a loop meet its parts. -/
theorem loop_steps_subperm (declaration : Node) :
    (loopSteps target manner declaration).flatMap Step.parts <+~ declaration.parts := by
  cases declaration with
  | variableDeclaration i name type init =>
      refine subperm_parts ((pattern_steps_subperm target manner _ name).trans ?_)
      simp only [children_eq, fields, Field.contents, List.flatMap_cons, List.cons_append,
        List.nil_append]
      exact (List.sublist_append_left _ _).subperm
  | _ => exact List.nil_subperm

/-- The steps of what a clause catches meet its parts. -/
theorem caught_steps_subperm (declaration : Node) :
    (caughtSteps site inner declaration).flatMap Step.parts <+~ declaration.parts := by
  cases declaration with
  | variableDeclaration i name type init =>
      refine subperm_parts ?_
      simp only [caughtSteps, List.flatMap_append, parts_visit_all, children_eq, fields,
        Field.contents, List.flatMap_cons, List.flatMap_nil, List.append_nil]
      refine (pattern_steps_subperm inner .ofParameter _ name).append ?_
      exact (List.sublist_append_left _ _).subperm
  | _ => exact List.nil_subperm

/-- The steps of a parameter meet its parts. -/
theorem parameter_steps_subperm (parameter : Node) :
    (parameterSteps inner parameter).flatMap Step.parts <+~ parameter.parts := by
  cases parameter with
  | parameter i name type init =>
      refine subperm_parts ?_
      simp only [parameterSteps, List.flatMap_append, parts_visit_all, children_eq, fields,
        Field.contents, List.flatMap_cons, List.flatMap_nil, List.append_nil, List.append_assoc]
      exact (pattern_steps_subperm inner .ofParameter _ name).append (.refl _)
  | _ => exact List.nil_subperm

/-- The step of the name of a member meets the parts of the name. -/
theorem member_step_subperm (owner : SymbolId) (kind : SymbolKind) (member name : Node) :
    (memberStep site owner kind member name).parts <+~ name.parts := by
  unfold memberStep
  split
  · exact self_subperm name
  · exact .refl _

/-- The steps of a member meet its parts. -/
theorem member_steps_subperm (owner : SymbolId) (kind : SymbolKind) (member : Node) :
    (memberSteps site owner kind member).flatMap Step.parts <+~ member.parts := by
  cases member with
  | propertySignature i name rest | enumMember i name rest =>
      refine subperm_parts ?_
      simp only [memberSteps, List.flatMap_cons, parts_visit_all, children_eq, fields,
        Field.contents, List.flatMap_nil, List.append_nil, List.cons_append, List.nil_append]
      exact (member_step_subperm site owner kind _ name).append (.refl _)
  | _ => exact List.nil_subperm

/-- The steps inside a function meet the parts of its parameters and of its body. -/
theorem inner_steps_subperm (n : Node) :
    (innerSteps site n).flatMap Step.parts <+~ n.inner.flatMap parts := by
  cases n with
  | functionDeclaration i name parameters body exported
  | functionExpression i name parameters body =>
      simp only [innerSteps, Node.inner, List.flatMap_append, List.flatMap_assoc]
      exact (flat_map_subperm (parameter_steps_subperm _) parameters).append
        (body_steps_subperm _ body)
  | methodDeclaration i name body => exact body_steps_subperm _ body
  | _ => exact List.nil_subperm

/-- The steps of a property of an object literal meet its parts. -/
theorem property_steps_subperm (owner : SymbolId) (property : Node) :
    (propertySteps site owner property).flatMap Step.parts <+~ property.parts := by
  cases property with
  | propertyAssignment i name init =>
      refine subperm_parts ?_
      simp only [propertySteps, List.flatMap_cons, List.flatMap_nil, parts_visit, children_eq,
        fields, Field.contents, List.append_nil, List.cons_append, List.nil_append]
      exact (member_step_subperm site owner .property _ name).append (.refl _)
  | shorthandPropertyAssignment i name =>
      simp only [propertySteps, List.flatMap_cons, List.flatMap_nil, parts_note, List.append_nil]
      rw [parts_eq (.shorthandPropertyAssignment i name)]
      simp only [children_eq, fields, Field.contents, List.flatMap_cons, List.flatMap_nil,
        List.append_nil]
      refine ((member_step_subperm site owner .property _ name).append (.refl _)).trans ?_
      exact List.perm_append_comm.subperm
  | methodDeclaration i name body =>
      refine subperm_parts ?_
      simp only [propertySteps, List.flatMap_cons, children_eq, fields, Field.contents,
        List.flatMap_nil, List.append_nil, List.cons_append, List.nil_append]
      exact (member_step_subperm site owner .property _ name).append
        (inner_steps_subperm site (.methodDeclaration i name body))
  | _ => simp [propertySteps, List.Subperm.refl]

/-- The step of an import meets parts of the specifier. -/
theorem import_steps_subperm (module : Text) (specifier : Node) :
    (importSteps site module specifier).flatMap Step.parts <+~ specifier.parts := by
  cases specifier with
  | importSpecifier i name propertyName isNamespace =>
      refine subperm_parts ?_
      simpa [importSteps, children_eq, fields, Field.contents] using mem_parts_self name
  | _ => exact List.nil_subperm

/-- The step of an export meets the specifier. -/
theorem export_steps_subperm (module : Option Text) (specifier : Node) :
    (exportSteps site module specifier).flatMap Step.parts <+~ specifier.parts := by
  cases specifier with
  | exportSpecifier i name propertyName => exact self_subperm _
  | _ => exact List.nil_subperm

/-- The step of the name of a function meets it. -/
theorem name_steps_subperm (name : Option Node) (facts : Node → List Fact) :
    (name.toList.map fun name => Step.note name (facts name)).flatMap Step.parts <+~
      name.toList.flatMap parts := by
  rw [List.flatMap_map]
  exact flat_map_subperm self_subperm name.toList

/-- The steps of a node meet its parts below it, and none of them twice. -/
theorem steps_subperm (n : Node) :
    (steps site n).flatMap Step.parts <+~ n.children.flatMap parts := by
  cases n with
  | typeReference i name arguments =>
      simp only [steps, parts_visit_all, children_eq, fields, Field.contents, List.flatMap_cons,
        List.flatMap_nil, List.append_nil, List.cons_append, List.nil_append]
      exact (List.sublist_append_right _ _).subperm
  | variableStatement i keyword declarations exported ambient =>
      simp only [steps, List.flatMap_assoc, children_eq, fields, Field.contents,
        List.flatMap_cons, List.flatMap_nil, List.append_nil, List.nil_append]
      exact flat_map_subperm (declarator_steps_subperm _ _ _) declarations
  | forInStatement i init expression statement keyword
  | forOfStatement i init expression statement keyword =>
      simp only [steps, List.flatMap_append, List.flatMap_cons, parts_visit, children_eq, fields,
        Field.contents, List.flatMap_nil, List.append_nil, List.cons_append, List.nil_append]
      rw [← List.append_assoc, ← List.append_assoc]
      refine List.Subperm.append ?_ (body_steps_subperm _ statement)
      -- The expression is met before the variable that stands in front of it.
      refine List.Subperm.trans (List.Subperm.append (.refl _) ?_) List.perm_append_comm.subperm
      cases keyword with
      | none => simp [List.Subperm.refl]
      | some keyword =>
          dsimp only
          split
          · exact loop_steps_subperm _ _ init
          · simp [List.Subperm.refl]
  | catchClause i declaration block =>
      simp only [steps, List.flatMap_append, List.flatMap_assoc, children_eq, fields,
        Field.contents, List.flatMap_cons, List.flatMap_nil, List.append_nil]
      exact (flat_map_subperm (caught_steps_subperm _ _) _).append (body_steps_subperm _ block)
  | functionDeclaration i name parameters body exported =>
      simp only [steps, List.flatMap_append, children_eq, fields, Field.contents,
        List.flatMap_cons, List.flatMap_nil, List.append_nil]
      refine (name_steps_subperm name _).append ?_
      simpa [Node.inner] using
        inner_steps_subperm site (.functionDeclaration i name parameters body exported)
  | functionExpression i name parameters body =>
      simp only [steps, List.flatMap_append, children_eq, fields, Field.contents,
        List.flatMap_cons, List.flatMap_nil, List.append_nil]
      refine (name_steps_subperm name _).append ?_
      simpa [Node.inner] using inner_steps_subperm site (.functionExpression i name parameters body)
  | block i statements => simp [steps, children_eq, fields, Field.contents, List.Subperm.refl]
  | classDeclaration i name exported =>
      simp only [steps, children_eq, fields, Field.contents, List.flatMap_cons, List.flatMap_nil,
        List.append_nil]
      exact name_steps_subperm name _
  | typeAliasDeclaration i name type exported =>
      simp only [steps, List.flatMap_cons, List.flatMap_nil, parts_visit, children_eq, fields,
        Field.contents, List.append_nil, List.cons_append, List.nil_append]
      exact (self_subperm name).append (.refl _)
  | interfaceDeclaration i name members exported
  | enumDeclaration i name members isConst exported =>
      simp only [steps, List.flatMap_cons, List.flatMap_nil, List.flatMap_assoc, children_eq,
        fields, Field.contents, List.append_nil, List.cons_append, List.nil_append]
      exact (self_subperm name).append (flat_map_subperm (member_steps_subperm _ _ _) members)
  | moduleDeclaration i name body exported =>
      simp only [steps, List.flatMap_cons, List.flatMap_nil, children_eq, fields, Field.contents,
        List.append_nil, List.cons_append, List.nil_append]
      exact (self_subperm name).append (body_steps_subperm _ body)
  | importDeclaration i module specifiers =>
      simp only [steps, List.flatMap_assoc, children_eq, fields, Field.contents,
        List.flatMap_cons, List.flatMap_nil, List.append_nil, List.nil_append]
      exact flat_map_subperm (import_steps_subperm _ _) specifiers
  | exportDeclaration i specifiers module isStar =>
      cases isStar with
      | true => exact List.nil_subperm
      | false =>
          simp only [steps, List.flatMap_assoc, children_eq, fields, Field.contents,
            List.flatMap_cons, List.flatMap_nil, List.append_nil, Bool.false_eq_true, if_false]
          exact flat_map_subperm (export_steps_subperm _ _) specifiers
  | objectLiteral i properties =>
      simp only [steps, List.flatMap_assoc, children_eq, fields, Field.contents,
        List.flatMap_cons, List.flatMap_nil, List.append_nil]
      exact flat_map_subperm (property_steps_subperm _ _) properties
  | typeLiteral i members =>
      simp only [steps, List.flatMap_assoc, children_eq, fields, Field.contents,
        List.flatMap_cons, List.flatMap_nil, List.append_nil]
      exact flat_map_subperm (member_steps_subperm _ _ _) members
  | _ => simp only [steps, parts_visit_all, List.Subperm.refl]

/-- A step meets only parts below the node. -/
theorem parts_subset_below {site : Site} {n : Node} {step : Step} (h : step ∈ steps site n) :
    step.parts ⊆ n.children.flatMap parts := fun _ hpart =>
  (steps_subperm site n).subset (List.mem_flatMap.mpr ⟨step, h, hpart⟩)

/-- A step meets only parts of the node. -/
theorem parts_subset_parts {site : Site} {n : Node} {step : Step} (h : step ∈ steps site n) :
    step.parts ⊆ n.parts :=
  List.Subset.trans (parts_subset_below h) (below_subset_parts n)

end Binding

end StaticLiteral
