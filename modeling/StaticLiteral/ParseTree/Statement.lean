import StaticLiteral.ParseTree.Type
import StaticLiteral.Text.Blank

/-!
# Statements from parse trees

Declarations, imports, exports, loops and blocks, and the patterns that bind names. Everything else
becomes an unknown node that keeps its children.
-/

namespace StaticLiteral

/-- The declaration with its mark as exported; nodes without such a mark stay. -/
def Node.asExported : Node → Node
  | .variableStatement i kind ds _ ambient => .variableStatement i kind ds true ambient
  | .functionDeclaration i name ps body _ => .functionDeclaration i name ps body true
  | .classDeclaration i name _ => .classDeclaration i name true
  | .typeAliasDeclaration i name type _ => .typeAliasDeclaration i name type true
  | .interfaceDeclaration i name members _ => .interfaceDeclaration i name members true
  | .enumDeclaration i name members isConst _ => .enumDeclaration i name members isConst true
  | .moduleDeclaration i name body _ => .moduleDeclaration i name body true
  | n => n

/-- The variable statement with its mark as ambient; other nodes stay. -/
def Node.asAmbient : Node → Node
  | .variableStatement i kind ds exported _ => .variableStatement i kind ds exported true
  | n => n

namespace MakeSyntax.Makers

variable (m : Makers)

/-- What a declaration binds: a name, or a pattern of names. -/
def makeBindingName (n : ParseTree) : MakeSyntax Node := do
  match n.type with
  | "identifier" | "undefined" | "shorthand_property_identifier_pattern" => identifier n
  | "object_pattern" =>
    return .objectBindingPattern (← info n) (← n.named.mapM m.bindingElement)
  | "array_pattern" =>
    return .arrayBindingPattern (← info n) (← elements m.bindingElement true n.children)
  | _ => m.unknown n

/-- The element with the name of the property that it takes, and its span. -/
def renamed (i : Info) (propertyName : Node) : Node → Node
  | .bindingElement _ name _ init isRest => .bindingElement i name (some propertyName) init isRest
  | n => n

/-- One element of a pattern: renamed, with a default, the rest, or a plain name or pattern. -/
def makeBindingElement (n : ParseTree) : MakeSyntax Node := do
  let i ← info n
  match n.type with
  | "pair_pattern" =>
    let element ← match n.child? "value" with
      | some value => m.bindingElement value
      | none => pure (.bindingElement {} missing none none false)
    let key ← m.propertyName (n.child? "key")
    return renamed i key element
  | "assignment_pattern" | "object_assignment_pattern" =>
    let name ← m.bindingNameOrMissing (n.child? "left")
    let initializer ← m.optionalExpression (n.child? "right")
    return .bindingElement i name none initializer false
  | "rest_pattern" =>
    return .bindingElement i (← m.bindingNameOrMissing n.firstNamed?) none none true
  | _ => return .bindingElement i (← m.bindingName n) none none false

/-- The variables of a statement. -/
def variableStatement (kind : DeclarationKind) (n : ParseTree) : MakeSyntax Node := do
  let declarations ← (n.named.filter (·.type == "variable_declarator")).mapM fun d => do
    let name ← m.bindingNameOrMissing (d.child? "name")
    let type ← m.typeAnnotation (d.child? "type")
    let initializer ← m.optionalExpression (d.child? "value")
    return Node.variableDeclaration (← info d) name type initializer
  return .variableStatement (← info n) kind declarations false false

/-- A name in an export or import list: an identifier or a string; none is the empty name. -/
def moduleExportName : Option ParseTree → MakeSyntax Text
  | none => return []
  | some n => if n.type == "string" then stringText n else text n

/-- One entry of an export list. -/
def exportSpecifier (n : ParseTree) : MakeSyntax Node := do
  let localName ← moduleExportName (n.child? "name")
  let name ← match n.child? "alias" with
    | some aliased => moduleExportName (some aliased)
    | none => pure localName
  return .exportSpecifier (← info n) name localName

/-- An export: of a declaration, of a default value, of a list, or of everything of a module. -/
def exportStatement (n : ParseTree) : MakeSyntax (Option Node) := do
  match n.child? "declaration" with
  | some declaration => return (← m.statement declaration).map Node.asExported
  | none =>
    let module ← match n.child? "source" with
      | some source => some <$> stringText source
      | none => pure none
    if n.hasToken "default" then
      match (n.child? "value").or n.firstNamed? with
      | none => return none
      | some value => return some (.exportAssignment (← info n) (← m.expression value))
    else
      match n.named.find? (·.type == "export_clause") with
      | some clause =>
        let specifiers ←
          (clause.named.filter (·.type == "export_specifier")).mapM exportSpecifier
        return some (.exportDeclaration (← info n) specifiers module false)
      | none =>
        if n.hasToken "*" && module.isSome && !n.hasToken "namespace_export" then
          return some (.exportDeclaration (← info n) [] module true)
        else return some (← m.unknown n)

/-- One entry of an import list. It needs a name or an alias. -/
def importSpecifier (n : ParseTree) : MakeSyntax Node := do
  let name := n.child? "name"
  let imported ← moduleExportName name
  let localName := (n.child? "alias").or name
  let localText ← moduleExportName localName
  match localName with
  | none => throw .missingName
  | some tree =>
    return .importSpecifier (← info n) (.identifier (← info tree) localText) (some imported) false

/-- The specifiers of one part of an import clause. -/
def importPart (n : ParseTree) : MakeSyntax (List Node) := do
  match n.type with
  | "identifier" =>
    return [.importSpecifier (← info n) (← identifier n) (some (Text.ofString "default")) false]
  | "namespace_import" =>
    match n.firstNamed? with
    | some name => return [.importSpecifier (← info n) (← identifier name) none true]
    | none => return []
  | "named_imports" =>
    (n.named.filter (·.type == "import_specifier")).mapM importSpecifier
  | _ => return []

/-- An import. -/
def importStatement (n : ParseTree) : MakeSyntax Node := do
  match n.child? "source" with
  | none => m.unknown n
  | some source =>
    let parts := match n.named.find? (·.type == "import_clause") with
      | some clause => clause.named
      | none => []
    let specifiers ← parts.mapM importPart
    let module ← stringText source
    return .importDeclaration (← info n) module specifiers.flatten

/-- A function declaration. -/
def functionDeclaration (n : ParseTree) : MakeSyntax Node := do
  let name ← optionalIdentifier (n.child? "name")
  let parameters ← m.parameters n
  let body ← m.optionalBlock (n.child? "body")
  return .functionDeclaration (← info n) name parameters body false

/-- A class declaration; its members are not looked at. -/
def classDeclaration (n : ParseTree) : MakeSyntax Node := do
  return .classDeclaration (← info n) (← optionalIdentifier (n.child? "name")) false

/-- A type alias. -/
def typeAliasDeclaration (n : ParseTree) : MakeSyntax Node := do
  match n.child? "name", n.child? "value" with
  | some name, some value =>
    return .typeAliasDeclaration (← info n) (← identifier name) (← m.type value) false
  | _, _ => m.unknown n

/-- An interface. -/
def interfaceDeclaration (n : ParseTree) : MakeSyntax Node := do
  match n.child? "name" with
  | none => m.unknown n
  | some name =>
    let members ← match n.child? "body" with
      | some body => m.propertySignatures body
      | none => pure []
    return .interfaceDeclaration (← info n) (← identifier name) members false

/-- A member of an enum, with or without a value. -/
def makeEnumMember (n : ParseTree) : MakeSyntax Node := do
  if n.type == "enum_assignment" then
    let name ← m.propertyName (n.child? "name")
    let initializer ← m.optionalExpression (n.child? "value")
    return .enumMember (← info n) name initializer
  else return .enumMember (← info n) (← m.propertyName (some n)) none

/-- An enum. -/
def enumDeclaration (n : ParseTree) : MakeSyntax Node := do
  match n.child? "name" with
  | none => m.unknown n
  | some name =>
    let members ← match n.child? "body" with
      | some body => body.named.mapM m.makeEnumMember
      | none => pure []
    return .enumDeclaration (← info n) (← identifier name) members (n.hasToken "const") false

/-- The name of a namespace or module; of a dotted name only the first part. -/
def moduleName (n : ParseTree) : MakeSyntax Node := do
  match n.type with
  | "string" => string n
  | "nested_identifier" =>
    let first := (← text n).takeWhile (· != '.'.toNat)
    return .identifier (← info n) (Text.trim Text.isBlank first)
  | _ => identifier n

/-- A namespace, or the declaration of a module. -/
def moduleDeclaration (n : ParseTree) : MakeSyntax Node := do
  match n.child? "name" with
  | none => m.unknown n
  | some name =>
    let name ← moduleName name
    let body ← m.optionalBlock (n.child? "body")
    return .moduleDeclaration (← info n) name body false

/-- A statement that is an expression; a namespace may be written as one. -/
def expressionStatement (n : ParseTree) : MakeSyntax (Option Node) := do
  match n.firstNamed? with
  | none => return none
  | some inner =>
    if inner.type == "internal_module" then return some (← m.moduleDeclaration inner)
    else return some (.expressionStatement (← info n) (← m.expression inner))

/-- A declaration without a value elsewhere. -/
def ambientDeclaration (n : ParseTree) : MakeSyntax (Option Node) := do
  match n.firstNamed? with
  | none => return none
  | some inner => return (← m.statement inner).map Node.asAmbient

/-- The keyword of the variable that a loop declares. -/
def loopKeyword? (n : ParseTree) : Option DeclarationKind :=
  (n.children.find? fun c => ["const", "let", "var"].contains c.type).map fun c =>
    .ofText (symbol c)

/-- What a loop assigns to: a variable of its own, or an expression. -/
def loopTarget (isDeclared : Bool) (left : Option ParseTree) : MakeSyntax Node := do
  if isDeclared then
    let name ← m.bindingNameOrMissing left
    let i ← match left with
      | some left => info left
      | none => pure {}
    return .variableDeclaration i name none none
  else m.expressionOrMissing left

/-- A loop over keys or values. -/
def forInStatement (n : ParseTree) : MakeSyntax Node := do
  let keyword := loopKeyword? n
  let initializer ← m.loopTarget keyword.isSome (n.child? "left")
  let expression ← m.expressionOrMissing (n.child? "right")
  let statement ← match n.child? "body" with
    | some body => m.statement body
    | none => pure none
  if n.hasToken "of" then
    return .forOfStatement (← info n) initializer expression statement keyword
  else return .forInStatement (← info n) initializer expression statement keyword

/-- A catch clause, whose parameter may be missing. -/
def catchClause (n : ParseTree) : MakeSyntax Node := do
  let declaration ← match n.child? "parameter" with
    | some parameter =>
      let name ← m.bindingName parameter
      let type ← m.typeAnnotation (n.child? "type")
      pure (some (.variableDeclaration (← info parameter) name type none))
    | none => pure none
  let body ← m.optionalBlock (n.child? "body")
  return .catchClause (← info n) declaration body

/-- The way to make a statement of a tree, if there is one for its symbol. -/
def statementOfType? (n : ParseTree) : Option (MakeSyntax (Option Node)) :=
  match n.type with
  | "expression_statement" => some (m.expressionStatement n)
  | "lexical_declaration" =>
    some (some <$> m.variableStatement (if n.hasToken "let" then .let else .const) n)
  | "variable_declaration" => some (some <$> m.variableStatement .var n)
  | "ambient_declaration" => some (m.ambientDeclaration n)
  | "export_statement" => some (m.exportStatement n)
  | "import_statement" => some (some <$> m.importStatement n)
  | "function_declaration" | "generator_function_declaration" | "function_signature" =>
    some (some <$> m.functionDeclaration n)
  | "class_declaration" | "abstract_class_declaration" => some (some <$> classDeclaration n)
  | "type_alias_declaration" => some (some <$> m.typeAliasDeclaration n)
  | "interface_declaration" => some (some <$> m.interfaceDeclaration n)
  | "enum_declaration" => some (some <$> m.enumDeclaration n)
  | "internal_module" | "module" => some (some <$> m.moduleDeclaration n)
  | "for_in_statement" => some (some <$> m.forInStatement n)
  | "catch_clause" => some (some <$> m.catchClause n)
  | "statement_block" => some (some <$> m.block n)
  | _ => none

/-- A statement one level further down; some trees leave none. -/
def makeStatement (n : ParseTree) : MakeSyntax (Option Node) :=
  if n.isSkipped then return none
  else
    guarded n (fun i => some (cutOff n i)) <|
      match m.statementOfType? n with
      | some make => make
      | none => some <$> m.unknown n

/-- Whatever a tree is: a statement if its symbol is one of a statement, else an expression. -/
def makeGeneric (n : ParseTree) : MakeSyntax Node := do
  match m.statementOfType? n with
  | some make =>
    match ← guarded n (fun i => some (cutOff n i)) make with
    | some node => return node
    | none => m.unknown n
  | none => m.expression n

/-- All ways to make syntax, one level above `m`. -/
def above : Makers where
  statement := m.makeStatement
  generic := m.makeGeneric
  expression := m.makeExpression
  type := m.makeType
  bindingName := m.makeBindingName
  bindingElement := m.makeBindingElement

/-- The ways to make syntax for trees of some depth; deeper ones stop the work. -/
def ofDepth : Nat → Makers
  | 0 =>
    { statement := fun _ => throw .tooDeep
      generic := fun _ => throw .tooDeep
      expression := fun _ => throw .tooDeep
      type := fun _ => throw .tooDeep
      bindingName := fun _ => throw .tooDeep
      bindingElement := fun _ => throw .tooDeep }
  | depth + 1 => (ofDepth depth).above

end MakeSyntax.Makers

end StaticLiteral
