import StaticLiteral.Proofs.Binding.Steps

/-!
# Binding under another file name

The name that a file is given reaches the facts about it in one place only: an alias records the
file that it stands in. So a tree that is bound under another name takes the same steps, and the
facts differ in what their aliases record (`of_node_named`).
-/

namespace StaticLiteral

/-- The symbol as it is in the file of this name: an alias records the name. -/
def Symbol.inFile (file : Text) (symbol : BoundSymbol) : BoundSymbol :=
  match symbol.kind with
  | .aliasOf origin => { symbol with kind := .aliasOf { origin with sourceFile := some file } }
  | _ => symbol

/-- The fact as it is in the file of this name. -/
def Fact.inFile (file : Text) (fact : Fact) : Fact := fact.mapSymbol (Symbol.inFile file)

/-- The same place in a file of this name. -/
def Site.named (file : Text) (site : Site) : Site := { site with fileName := file }

variable {file : Text} {symbol : BoundSymbol}

namespace Symbol

/-- An alias records the file. -/
theorem in_file_of_alias {origin : AliasOrigin} (h : symbol.kind = .aliasOf origin) :
    symbol.inFile file =
      { symbol with kind := .aliasOf { origin with sourceFile := some file } } := by
  rw [inFile, h]

/-- Only aliases record their file. -/
theorem in_file_of_not_alias (h : symbol.kind.isAlias = false) : symbol.inFile file = symbol := by
  unfold inFile
  split
  · simp_all [SymbolKind.isAlias]
  · rfl

/-- The file of an alias is no part of its identity. -/
@[simp]
theorem id_in_file (file : Text) (symbol : BoundSymbol) : (symbol.inFile file).id = symbol.id := by
  unfold inFile
  split <;> rfl

/-- The file that is recorded last counts. -/
@[simp]
theorem in_file_in_file (first second : Text) (symbol : BoundSymbol) :
    (symbol.inFile first).inFile second = symbol.inFile second := by
  cases hkind : symbol.kind with
  | aliasOf origin => rw [in_file_of_alias hkind, in_file_of_alias rfl, in_file_of_alias hkind]
  | _ =>
      have hplain : symbol.inFile first = symbol := in_file_of_not_alias (by rw [hkind]; rfl)
      rw [hplain]

end Symbol

namespace Binding

open Node

variable {site target inner : Site} {manner : Manner} {n d name : Node}

/-- The step as it is in the file of this name. -/
def Step.named (file : Text) : Step → Step
  | note part facts => note part (facts.map (Fact.inFile file))
  | visit site part => visit (site.named file) part

/-- Declaring a name that is no alias is the same in every file. -/
theorem declare_named (spaces : List Space) (exported : Bool) {kind : SymbolKind} (d : Node)
    (isConst : Bool) (hkind : kind.isAlias = false) (name : Node) :
    (site.named file).declare spaces exported (.declaredBy kind d isConst) name =
      (site.declare spaces exported (.declaredBy kind d isConst) name).map (Fact.inFile file) := by
  cases name with
  | identifier i text =>
      have hplain : Symbol.inFile file (.declaredBy kind d isConst (.node i.id) text) =
          .declaredBy kind d isConst (.node i.id) text := Symbol.in_file_of_not_alias hkind
      cases exported <;>
        simp [Site.declare, Site.exporting, Site.named, Fact.inFile, Fact.mapSymbol, hplain,
          List.map_flatMap, Function.comp_def]
  | _ => rfl

/-- Nor is entering a member. -/
theorem member_facts_named (owner : SymbolId) {kind : SymbolKind} (member : Node)
    (hkind : kind.isAlias = false) (name : Node) :
    (memberFacts owner kind member name).map (List.map (Fact.inFile file)) =
      memberFacts owner kind member name := by
  have hplain : ∀ (i : Info) (text : Text),
      Symbol.inFile file (.declaredBy kind member false (.node i.id) text) =
        .declaredBy kind member false (.node i.id) text :=
    fun _ _ => Symbol.in_file_of_not_alias hkind
  cases name <;> simp [memberFacts, Fact.inFile, Fact.mapSymbol, hplain]

/-! ## The same steps -/

/-- Visiting several nodes is the same in a file of another name. -/
theorem visit_all_named (ns : List Node) :
    visitAll (site.named file) ns = (visitAll site ns).map (Step.named file) := by
  simp [visitAll, Step.named, Function.comp_def]

/-- The steps of a body are the same in a file of another name. -/
theorem body_steps_named (body : Option Node) :
    bodySteps (site.named file) body = (bodySteps site body).map (Step.named file) := by
  unfold bodySteps
  split <;> exact visit_all_named _

/-- The steps of a key are the same in a file of another name. -/
theorem key_steps_named (key : Option Node) :
    keySteps (target.named file) key = (keySteps target key).map (Step.named file) := by
  cases key with
  | none => rfl
  | some key =>
      rw [keySteps, keySteps]
      split <;> rfl

mutual

/-- The steps of a pattern are the same in a file of another name. -/
theorem pattern_steps_named (hkind : manner.kind.isAlias = false) (d name : Node) :
    patternSteps (target.named file) manner d name =
      (patternSteps target manner d name).map (Step.named file) := by
  cases name with
  | objectBindingPattern i elements | arrayBindingPattern i elements =>
      exact element_steps_named hkind elements
  | _ => simp [patternSteps, Step.named, declare_named _ _ _ _ hkind]

/-- The steps of the elements of a pattern are the same in a file of another name. -/
theorem element_steps_named (hkind : manner.kind.isAlias = false) : ∀ elements : List Node,
    elementSteps (target.named file) manner elements =
      (elementSteps target manner elements).map (Step.named file)
  | [] => rfl
  | element :: rest => by
      cases element with
      | bindingElement i name key init isRest =>
          simp only [elementSteps, List.map_append, key_steps_named,
            pattern_steps_named hkind _ name, visit_all_named, element_steps_named hkind rest]
      | _ => exact element_steps_named hkind rest

end

/-- The steps of a declaration are the same in a file of another name. -/
theorem declarator_steps_named (hkind : manner.kind.isAlias = false) (d : Node) :
    declaratorSteps (site.named file) (target.named file) manner d =
      (declaratorSteps site target manner d).map (Step.named file) := by
  cases d <;> simp [declaratorSteps, pattern_steps_named hkind, visit_all_named]

/-- The steps of the declaration of a loop are the same in a file of another name. -/
theorem loop_steps_named (hkind : manner.kind.isAlias = false) (d : Node) :
    loopSteps (target.named file) manner d = (loopSteps target manner d).map (Step.named file) := by
  cases d <;> simp [loopSteps, pattern_steps_named hkind]

/-- The steps of what is caught are the same in a file of another name. -/
theorem caught_steps_named (d : Node) : caughtSteps (site.named file) (inner.named file) d =
    (caughtSteps site inner d).map (Step.named file) := by
  have hparameter : Manner.ofParameter.kind.isAlias = false := rfl
  cases d <;> simp [caughtSteps, pattern_steps_named hparameter, visit_all_named]

/-- The steps of a parameter are the same in a file of another name. -/
theorem parameter_steps_named (d : Node) :
    parameterSteps (inner.named file) d = (parameterSteps inner d).map (Step.named file) := by
  have hparameter : Manner.ofParameter.kind.isAlias = false := rfl
  cases d <;> simp [parameterSteps, pattern_steps_named hparameter, visit_all_named]

/-- The step of a member that is no alias is the same in a file of another name. -/
theorem member_step_named (owner : SymbolId) {kind : SymbolKind} (hkind : kind.isAlias = false)
    (member name : Node) : memberStep (site.named file) owner kind member name =
      (memberStep site owner kind member name).named file := by
  have hfacts : (memberFacts owner kind member name).map (List.map (Fact.inFile file)) =
      memberFacts owner kind member name := member_facts_named owner member hkind name
  unfold memberStep
  cases hmember : memberFacts owner kind member name with
  | none => rfl
  | some facts =>
      rw [hmember] at hfacts
      rw [Step.named, Option.some.inj hfacts]

/-- The steps of a member that is no alias are the same in a file of another name. -/
theorem member_steps_named (owner : SymbolId) {kind : SymbolKind} (hkind : kind.isAlias = false)
    (member : Node) : memberSteps (site.named file) owner kind member =
      (memberSteps site owner kind member).map (Step.named file) := by
  cases member <;> simp [memberSteps, member_step_named owner hkind, visit_all_named]

/-- Entering a function does not change the name of the file. -/
theorem enter_function_named (id : NodeId) :
    (site.named file).enterFunction id = (site.enterFunction id).named file := by
  simp only [Site.enterFunction, Site.named]
  split <;> rfl

/-- Steps of several nodes are the same in a file of another name if those of each node are. -/
theorem flat_map_named {f g : Node → List Step} (h : ∀ n, f n = (g n).map (Step.named file))
    (ns : List Node) : ns.flatMap f = (ns.flatMap g).map (Step.named file) := by
  rw [List.map_flatMap]
  exact List.flatMap_congr fun n _ => h n

/-- The steps inside a function are the same in a file of another name. -/
theorem inner_steps_named (n : Node) :
    innerSteps (site.named file) n = (innerSteps site n).map (Step.named file) := by
  have henter : ∀ id, (site.named file).enter .function id =
      (site.enter .function id).named file := fun _ => rfl
  cases n <;> simp [innerSteps, enter_function_named, henter, body_steps_named,
    flat_map_named parameter_steps_named]

/-- The steps of a property are the same in a file of another name. -/
theorem property_steps_named (owner : SymbolId) (property : Node) :
    propertySteps (site.named file) owner property =
      (propertySteps site owner property).map (Step.named file) := by
  have hproperty : SymbolKind.property.isAlias = false := rfl
  have hrefers : ∀ id, Fact.inFile file (.refers id site.scope) = .refers id site.scope :=
    fun _ => rfl
  have hscope : (site.named file).scope = site.scope := rfl
  cases property <;> simp [propertySteps, member_step_named owner hproperty, inner_steps_named,
    Step.named, hrefers, hscope]

/-- What is imported or exported records the file. -/
theorem declare_alias_named (spaces : List Space) {origin : AliasOrigin} (d name : Node) :
    (site.named file).declare spaces false
        (.declaredBy (.aliasOf { origin with sourceFile := some file }) d false) name =
      (site.declare spaces false (.declaredBy (.aliasOf origin) d false) name).map
        (Fact.inFile file) := by
  cases name <;> simp [Site.declare, Site.named, Fact.inFile, Fact.mapSymbol, List.map_flatMap,
    Function.comp_def, Symbol.inFile, Symbol.declaredBy]

/-- The alias of an import names the file that it is in. -/
theorem import_steps_named (module : Text) (specifier : Node) :
    importSteps (site.named file) module specifier =
      (importSteps site module specifier).map (Step.named file) := by
  cases specifier with
  | importSpecifier i name propertyName isNamespace =>
      simp only [importSteps, importFacts, List.append_nil, List.map_singleton, Step.named,
        ← declare_alias_named]
      rfl
  | _ => rfl

/-- An alias is exported from the file that it names. -/
theorem exporting_named (name : Text) (symbol : BoundSymbol) :
    (site.named file).exporting name (symbol.inFile file) =
      (site.exporting name symbol).map (Fact.inFile file) := by
  simp [Site.exporting, Site.named, Fact.inFile, Fact.mapSymbol]

/-- The alias of an export names the file that it is in. -/
theorem export_steps_named (module : Option Text) (specifier : Node) :
    exportSteps (site.named file) module specifier =
      (exportSteps site module specifier).map (Step.named file) := by
  cases specifier with
  | exportSpecifier i name propertyName =>
      simp only [exportSteps, exportFacts, List.append_nil, List.map_singleton, Step.named,
        ← exporting_named]
      rfl
  | _ => rfl

/-- What a node itself establishes is the same in a file of another name. -/
theorem own_facts_named (n : Node) :
    ownFacts (site.named file) n = (ownFacts site n).map (Fact.inFile file) := by
  cases n with
  | exportDeclaration i specifiers module isStar =>
      cases isStar with
      | false => rfl
      | true =>
          cases module with
          | none => rfl
          | some module =>
              by_cases h : site.exports = some .exports <;>
                simp [ownFacts, starFacts, Site.named, h, Fact.inFile, Fact.mapSymbol]
  | exportAssignment i expression =>
      simp only [ownFacts, defaultFacts, ← exporting_named]
      cases expression <;> rfl
  | _ => rfl

/-- The kinds of variables are no aliases. -/
theorem of_keyword_not_alias (keyword : DeclarationKind) (exported : Bool) :
    (Manner.ofKeyword keyword exported).kind.isAlias = false ∧
      (Manner.ofLoopKeyword keyword).kind.isAlias = false := by
  cases keyword <;> exact ⟨rfl, rfl⟩

/-- A node is bound in the same steps under every file name. -/
theorem steps_named (n : Node) :
    steps (site.named file) n = (steps site n).map (Step.named file) := by
  have henter : ∀ kind id, (site.named file).enter kind id = (site.enter kind id).named file :=
    fun _ _ => rfl
  have hhoisted : (site.named file).hoisted = site.hoisted.named file := rfl
  cases n with
  | variableStatement i keyword declarations exported ambient =>
      have htarget : (if (Manner.ofKeyword keyword exported).kind = .blockScopedVariable
            then site.named file else (site.named file).hoisted) =
          (if (Manner.ofKeyword keyword exported).kind = .blockScopedVariable
            then site else site.hoisted).named file := by
        rw [hhoisted]
        split <;> rfl
      simp only [steps, htarget]
      exact flat_map_named (declarator_steps_named (of_keyword_not_alias keyword exported).1) _
  | forInStatement i init expression statement keyword
  | forOfStatement i init expression statement keyword =>
      simp only [steps, henter, body_steps_named, List.map_append, List.map_cons]
      congr 2
      cases keyword with
      | none => rfl
      | some keyword =>
          have hloop : ∀ target : Site, loopSteps (target.named file) (.ofLoopKeyword keyword)
              init = (loopSteps target (.ofLoopKeyword keyword) init).map (Step.named file) :=
            fun _ => loop_steps_named (of_keyword_not_alias keyword false).2 init
          dsimp only
          split
          · rw [hhoisted, ← hloop]
            split <;> rfl
          · rfl
  | catchClause i declaration block =>
      simp only [steps, henter, body_steps_named, List.map_append]
      rw [flat_map_named caught_steps_named]
  | moduleDeclaration i name body exported =>
      have hnamespace : (site.named file).enterNamespace i.id name =
          (site.enterNamespace i.id name).named file := by cases name <;> rfl
      simp [steps, hnamespace, body_steps_named, Step.named,
        declare_named _ _ _ _ (rfl : SymbolKind.namespaceBlock.isAlias = false)]
  | functionDeclaration i name parameters body exported =>
      simp [steps, hhoisted, inner_steps_named, Step.named, Function.comp_def,
        declare_named _ _ _ _ (rfl : SymbolKind.function.isAlias = false)]
  | functionExpression i name parameters body =>
      simp [steps, henter, inner_steps_named, Step.named, Function.comp_def,
        declare_named _ _ _ _ (rfl : SymbolKind.function.isAlias = false)]
  | block i statements => simp only [steps, henter, visit_all_named]
  | classDeclaration i name exported =>
      simp [steps, Step.named, Function.comp_def,
        declare_named _ _ _ _ (rfl : SymbolKind.classDefinition.isAlias = false)]
  | typeAliasDeclaration i name type exported =>
      simp [steps, Step.named,
        declare_named _ _ _ _ (rfl : SymbolKind.typeAlias.isAlias = false)]
  | interfaceDeclaration i name members exported =>
      simp [steps, Step.named, declare_named _ _ _ _ (rfl : SymbolKind.interface.isAlias = false),
        flat_map_named (member_steps_named _ (rfl : SymbolKind.property.isAlias = false))]
  | enumDeclaration i name members isConst exported =>
      simp [steps, Step.named, declare_named _ _ _ _ (rfl : SymbolKind.enum.isAlias = false),
        flat_map_named (member_steps_named _ (rfl : SymbolKind.enumMember.isAlias = false))]
  | importDeclaration i module specifiers => exact flat_map_named (import_steps_named module) _
  | exportDeclaration i specifiers module isStar =>
      cases isStar with
      | true => rfl
      | false => exact flat_map_named (export_steps_named module) _
  | objectLiteral i properties => exact flat_map_named (property_steps_named _) _
  | typeLiteral i members => exact flat_map_named (member_steps_named _ rfl) _
  | typeReference i name arguments => exact visit_all_named _
  | _ => exact visit_all_named _

/-- What binding a tree establishes under another file name differs in what aliases record. -/
theorem of_node_named (site : Site) (n : Node) :
    ofNode (site.named file) n = (ofNode site n).map (Fact.inFile file) := by
  induction n using parts_induction generalizing site with
  | step n ih =>
      rw [of_node_eq, of_node_eq, own_facts_named, steps_named, List.map_append, List.flatMap_map,
        List.map_flatMap]
      congr 1
      refine List.flatMap_congr fun step hstep => ?_
      cases step with
      | note part facts => rfl
      | visit target part => exact ih part (parts_subset_below hstep (mem_parts_self part)) target

end Binding

end StaticLiteral
