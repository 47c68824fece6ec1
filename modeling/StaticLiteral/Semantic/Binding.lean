import StaticLiteral.Semantic.Fact

/-!
# Binding

The facts that a syntax tree establishes, in the order of the tree. Functions, blocks, loops, catch
clauses and namespaces open scopes; `var` declarations and functions belong to the nearest scope
that is no block; patterns declare every name in them; object and type literals get a table of
members. Everything that no rule mentions is only searched for what is inside.
-/

namespace StaticLiteral

/-- Where a node is bound. -/
structure Site where
  /-- the name of the file, as it was given -/
  fileName : Text
  scope : BoundScope
  /-- where exported names are entered; nowhere inside a module declared by a string -/
  exports : Option Table

namespace Site

/-- Inside a new scope. -/
def enter (site : Site) (kind : ScopeKind) (id : NodeId) : Site :=
  { site with scope := ⟨.node id, kind⟩ :: site.scope }

/-- Inside the parameters and the body of a function. Directly inside a function no scope is opened
for another one. -/
def enterFunction (site : Site) (id : NodeId) : Site :=
  match site.scope with
  | ⟨_, .function⟩ :: _ => site
  | _ => site.enter .function id

/-- Where `var` declarations and functions belong. -/
def hoisted (site : Site) : Site := { site with scope := site.scope.functionChain }

/-- Enters a symbol in the table of exports, if there is one. -/
def exporting (site : Site) (name : Text) (symbol : BoundSymbol) : List Fact :=
  site.exports.toList.map fun table => .enters table name symbol

/-- Declares the symbol that `symbolOf` makes under an identifier. -/
def declare (site : Site) (spaces : List Space) (exported : Bool)
    (symbolOf : SymbolId → Text → BoundSymbol) : Node → List Fact
  | .identifier i text =>
    let symbol := symbolOf (.node i.id) text
    (site.scope.take 1).flatMap (fun frame =>
        spaces.map fun space => .declares ⟨frame.id, space, text, symbol⟩)
      ++ .names i.id symbol :: if exported then site.exporting text symbol else []
  | _ => []

end Site

/-- A symbol without members, exported or not, for the node that declares it. -/
def Symbol.declaredBy {ι : Type} (kind : SymbolKind) (declaration : Node) (isConst : Bool) (id : ι)
    (name : Text) : Symbol ι :=
  { id := id, name := name, kind := kind, declaration := some declaration, isConst := isConst }

/-- How the names in a pattern are declared. -/
structure Manner where
  kind : SymbolKind
  isConst : Bool := false
  exported : Bool := false

/-- How variables are declared after a keyword: those of `const` and `let` are scoped to blocks. -/
def Manner.ofKeyword (keyword : DeclarationKind) (exported : Bool) : Manner where
  kind := if keyword = .const ∨ keyword = .let then .blockScopedVariable
    else .functionScopedVariable
  isConst := keyword = .const
  exported := exported

/-- How the variable of a loop is declared: only `var` makes it outlive the loop. -/
def Manner.ofLoopKeyword (keyword : DeclarationKind) : Manner where
  kind := if keyword = .var then .functionScopedVariable else .blockScopedVariable
  isConst := keyword = .const

/-- How parameters are declared. -/
def Manner.ofParameter : Manner where
  kind := .functionScopedVariable

/-- The entry of a member in the table of its owner, if its name is written out. -/
def memberFacts (owner : SymbolId) (kind : SymbolKind) (declaration : Node) :
    Node → Option (List Fact)
  | .identifier i text =>
    let symbol := Symbol.declaredBy kind declaration false (.node i.id) text
    some [.enters (.members owner) text symbol, .names i.id symbol]
  | .stringLiteral i text | .numericLiteral i text =>
    some [.enters (.members owner) text (.declaredBy kind declaration false (.node i.id) text)]
  | _ => none

/-- The imports of one declaration. -/
def importFacts (site : Site) (module : Text) : List Node → List Fact
  | [] => []
  | specifier@(.importSpecifier _ name propertyName isNamespace) :: rest =>
    let origin : AliasOrigin :=
      { sourceFile := some site.fileName, module := some module
        importName := if isNamespace then none else propertyName }
    site.declare [.value, .type] false (.declaredBy (.aliasOf origin) specifier false) name
      ++ importFacts site module rest
  | _ :: rest => importFacts site module rest

/-- The exports of one declaration. -/
def exportFacts (site : Site) (module : Option Text) : List Node → List Fact
  | [] => []
  | specifier@(.exportSpecifier i name propertyName) :: rest =>
    let origin : AliasOrigin :=
      { sourceFile := some site.fileName, module := module, importName := some propertyName }
    site.exporting name (.declaredBy (.aliasOf origin) specifier false (.node i.id) name)
      ++ exportFacts site module rest
  | _ :: rest => exportFacts site module rest

/-- The export of everything that a module exports; only a file has such exports. -/
def starFacts (site : Site) : Option Text → List Fact
  | some module => if site.exports = some .exports then [.reexports module] else []
  | none => []

/-- The name under which a module exports what has no name. -/
def defaultName : Text := Text.ofString "default"

/-- The default export: another name for a variable, or a constant of its own. -/
def defaultFacts (site : Site) (declaration expression : Node) : List Fact :=
  site.exporting defaultName <|
    match expression with
    | .identifier _ text =>
      let origin : AliasOrigin := { sourceFile := some site.fileName, importName := some text }
      .declaredBy (.aliasOf origin) declaration false (.node declaration.id) defaultName
    | e => .declaredBy .blockScopedVariable e true (.node declaration.id) defaultName

/-- The symbol of a literal. -/
def literalSymbol (kind : SymbolKind) (name : String) (literal : Node) : BoundSymbol :=
  .declaredBy kind literal false (.node literal.id) (Text.ofString name)

/-- Where the body of a namespace is bound: what it exports are its members. -/
def Site.enterNamespace (site : Site) (id : NodeId) : Node → Site
  | .identifier i _ => { site.enter .module id with exports := some (.members (.node i.id)) }
  | _ => { site.enter .module id with exports := none }

namespace Binding

mutual

/-- The facts of a node. -/
def ofNode (site : Site) : Node → List Fact
  | .identifier i _ => [.refers i.id site.scope]
  | .typeReference _ name arguments => .refers name.id site.scope :: ofNodes site arguments
  | .variableStatement _ keyword declarations exported _ =>
    let manner := Manner.ofKeyword keyword exported
    let target := if manner.kind = .blockScopedVariable then site else site.hoisted
    ofDeclarators site target manner declarations
  | .forInStatement i init expression statement keyword
  | .forOfStatement i init expression statement keyword =>
    let inner := site.enter .block i.id
    ofNode site expression
      ++ (match keyword with
        | some keyword =>
          if init.isVariableDeclaration then
            ofLoopVariable (if keyword = .var then site.hoisted else inner)
              (.ofLoopKeyword keyword) init
          else ofNode site init
        | none => ofNode site init)
      ++ ofBody inner statement
  | .catchClause i declaration block =>
    let inner := site.enter .block i.id
    ofCaught site inner declaration ++ ofBody inner block
  | node@(.functionDeclaration i name parameters body exported) =>
    name.toList.flatMap (site.hoisted.declare [.value] exported (.declaredBy .function node false))
      ++ ofParameters (site.enterFunction i.id) parameters
      ++ ofBody (site.enterFunction i.id) body
  | node@(.functionExpression i name parameters body) =>
    let inner := site.enter .function i.id
    name.toList.flatMap (inner.declare [.value] false (.declaredBy .function node false))
      ++ ofParameters inner parameters ++ ofBody inner body
  | .block i statements => ofNodes (site.enter .block i.id) statements
  | node@(.classDeclaration _ name exported) =>
    name.toList.flatMap
      (site.declare [.value, .type] exported (.declaredBy .classDefinition node false))
  | node@(.typeAliasDeclaration _ name type exported) =>
    site.declare [.type] exported (.declaredBy .typeAlias node false) name ++ ofNode site type
  | node@(.interfaceDeclaration _ name members exported) =>
    site.declare [.type] exported (.declaredBy .interface node false) name
      ++ ofMembers site (.node name.id) .property members
  | node@(.enumDeclaration _ name members _ exported) =>
    site.declare [.value, .type] exported (.declaredBy .enum node false) name
      ++ ofMembers site (.node name.id) .enumMember members
  | node@(.moduleDeclaration i name body exported) =>
    site.declare [.value, .type] exported (.declaredBy .namespaceBlock node false) name
      ++ ofBody (site.enterNamespace i.id name) body
  | .importDeclaration _ module specifiers => importFacts site module specifiers
  | .exportDeclaration _ specifiers module isStar =>
    if isStar then starFacts site module else exportFacts site module specifiers
  | node@(.exportAssignment _ expression) =>
    defaultFacts site node expression ++ ofNode site expression
  | node@(.objectLiteral i properties) =>
    .isLiteral i.id (literalSymbol .objectLiteral "__object" node)
      :: ofProperties site (.node i.id) properties
  | node@(.typeLiteral i members) =>
    .isLiteral i.id (literalSymbol .typeLiteral "__type" node)
      :: ofMembers site (.node i.id) .property members
  | .sourceFile _ _ es | .objectBindingPattern _ es | .arrayBindingPattern _ es
  | .arrayLiteral _ es | .templateExpression _ _ es | .tupleType _ es | .unionType _ es
  | .unknown _ _ es => ofNodes site es
  | .expressionStatement _ e | .prefixUnaryExpression _ _ e | .spreadElement _ e
  | .shorthandPropertyAssignment _ e | .spreadAssignment _ e | .computedPropertyName _ e
  | .parenthesizedExpression _ e | .templateSpan _ e _ | .literalType _ e | .arrayType _ e
  | .typeOperator _ _ e | .importSpecifier _ e _ _ => ofNode site e
  | .propertyAssignment _ a b | .asExpression _ a b | .typeAssertion _ a b
  | .satisfiesExpression _ a b => ofNode site a ++ ofNode site b
  | .propertySignature _ a b | .enumMember _ a b | .methodDeclaration _ a b =>
    ofNode site a ++ ofOption site b
  | .variableDeclaration _ a b c | .parameter _ a b c | .bindingElement _ a b c _ =>
    ofNode site a ++ ofOption site b ++ ofOption site c
  | .exportSpecifier .. | .numericLiteral .. | .bigintLiteral .. | .stringLiteral ..
  | .templateLiteral .. | .regularExpressionLiteral .. | .trueKeyword .. | .falseKeyword ..
  | .nullKeyword .. | .omittedExpression .. | .keywordType .. | .unknownType .. => []

/-- The facts of nodes side by side. -/
def ofNodes (site : Site) : List Node → List Fact
  | [] => []
  | n :: ns => ofNode site n ++ ofNodes site ns

/-- The facts of a node that may be missing. -/
def ofOption (site : Site) : Option Node → List Fact
  | none => []
  | some n => ofNode site n

/-- The facts of a body. A block shares the scope of what it is the body of. -/
def ofBody (site : Site) : Option Node → List Fact
  | none => []
  | some (.block _ statements) => ofNodes site statements
  | some n => ofNode site n

/-- The facts of a name or a pattern that `declaration` declares. -/
def ofPattern (target : Site) (manner : Manner) (declaration : Node) : Node → List Fact
  | .objectBindingPattern _ elements | .arrayBindingPattern _ elements =>
    ofElements target manner elements
  | name => target.declare [.value] manner.exported
      (.declaredBy manner.kind declaration manner.isConst) name

/-- The facts of the elements of a pattern. Keys that are computed, and defaults, are seen from the
scope that the names are declared in. -/
def ofElements (target : Site) (manner : Manner) : List Node → List Fact
  | [] => []
  | element@(.bindingElement _ name key init _) :: rest =>
    (match key with
      | some key => if key.identifier?.isSome then [] else ofNode target key
      | none => [])
      ++ ofPattern target manner element name ++ ofOption target init
      ++ ofElements target manner rest
  | _ :: rest => ofElements target manner rest

/-- The facts of the variables of one statement; types and initial values are seen from the place
of the statement. -/
def ofDeclarators (site target : Site) (manner : Manner) : List Node → List Fact
  | [] => []
  | declaration@(.variableDeclaration _ name type init) :: rest =>
    ofPattern target manner declaration name ++ ofOption site type ++ ofOption site init
      ++ ofDeclarators site target manner rest
  | _ :: rest => ofDeclarators site target manner rest

/-- The facts of the variable of a loop. -/
def ofLoopVariable (target : Site) (manner : Manner) : Node → List Fact
  | declaration@(.variableDeclaration _ name _ _) => ofPattern target manner declaration name
  | _ => []

/-- The facts of what a clause catches; its type is seen from outside. -/
def ofCaught (site inner : Site) : Option Node → List Fact
  | some declaration@(.variableDeclaration _ name type _) =>
    ofPattern inner .ofParameter declaration name ++ ofOption site type
  | _ => []

/-- The facts of parameters, seen from inside the function. -/
def ofParameters (inner : Site) : List Node → List Fact
  | [] => []
  | parameter@(.parameter _ name type init) :: rest =>
    ofPattern inner .ofParameter parameter name ++ ofOption inner type ++ ofOption inner init
      ++ ofParameters inner rest
  | _ :: rest => ofParameters inner rest

/-- The facts of the members of a type or an enumeration. -/
def ofMembers (site : Site) (owner : SymbolId) (kind : SymbolKind) : List Node → List Fact
  | [] => []
  | member@(.propertySignature _ name rest) :: members
  | member@(.enumMember _ name rest) :: members =>
    (memberFacts owner kind member name).getD (ofNode site name) ++ ofOption site rest
      ++ ofMembers site owner kind members
  | _ :: members => ofMembers site owner kind members

/-- The facts of the properties of an object literal. -/
def ofProperties (site : Site) (owner : SymbolId) : List Node → List Fact
  | [] => []
  | property@(.propertyAssignment _ name init) :: properties =>
    (memberFacts owner .property property name).getD (ofNode site name) ++ ofNode site init
      ++ ofProperties site owner properties
  | property@(.shorthandPropertyAssignment _ name) :: properties =>
    (memberFacts owner .property property name).getD (ofNode site name)
      ++ .refers name.id site.scope :: ofProperties site owner properties
  | property@(.methodDeclaration i name body) :: properties =>
    (memberFacts owner .property property name).getD (ofNode site name)
      ++ ofBody (site.enterFunction i.id) body ++ ofProperties site owner properties
  | property :: properties => ofNode site property ++ ofProperties site owner properties

end

end Binding

end StaticLiteral
