import StaticLiteral.ParseTree.SourceFile
import StaticLiteral.Path
import StaticLiteral.Semantic.Binding
import StaticLiteral.Syntax.Field
import StaticLiteral.Syntax.Place
import StaticLiteral.Value

/-!
# Programs

A program is a list of bound files, each under its normalized name. Every question about a node is
answered from the facts of the node's own file, so files do not see each other's declarations but
through modules.
-/

namespace StaticLiteral

/-- A file of a program. Its nodes are placed, and `facts` is what binding them established. -/
structure BoundFile where
  path : Text
  source : SourceFile
  statements : List Node
  isTooDeep : Bool
  facts : List Fact

namespace BoundFile

/-- Trees with more levels are not bound. -/
def heightLimit : Nat := 1000

/-- Where the statements of a file are bound. -/
def site (path : Text) (source : SourceFile) : Site where
  fileName := source.fileName
  scope := [⟨.file path, .file⟩, ⟨.global, .global⟩]
  exports := some .exports

/-- The symbols that the facts of a file leave in its own scope and in its table of exports. -/
def visibleSymbols (path : Text) (facts : List Fact) : List BoundSymbol :=
  (Fact.namesIn facts (.file path) .value).map (·.2) ++ (Fact.tableOf facts .exports).map (·.2)

/-- The symbol with its origin in the file `path`, if it is one of the aliases in `settled`. -/
def settle (path : Text) (settled : List SymbolId) (symbol : BoundSymbol) : BoundSymbol :=
  match symbol.kind with
  | .aliasOf origin =>
    if symbol.id ∈ settled then
      { symbol with kind := .aliasOf { origin with sourceFile := some path } }
    else symbol
  | _ => symbol

/-- The facts with the aliases that are visible from outside settled in the file: they are found
under its normalized name. -/
def settled (path : Text) (facts : List Fact) : List Fact :=
  let visible := ((visibleSymbols path facts).filter (·.kind.isAlias)).map (·.id)
  facts.map (Fact.mapSymbol (settle path visible))

/-- Binds a file under its normalized name. One that is too deep has no facts. -/
def ofSource (path : Text) (source : SourceFile) : BoundFile :=
  let statements := Node.placeAll path [0] 0 source.statements
  let isTooDeep := heightLimit < Node.heightOfAll statements
  { path := path, source := source, statements := statements, isTooDeep := isTooDeep
    facts := if isTooDeep then []
      else settled path (Binding.ofNodes (site path source) statements) }

/-- The root of the file's tree. -/
def root (f : BoundFile) : Node :=
  .sourceFile { span := f.source.span, id := ⟨f.path, []⟩ } f.source.fileName f.statements

/-- The symbol of the file as a module. -/
def moduleSymbol (f : BoundFile) : BoundSymbol where
  id := .module f.path
  name := f.path
  kind := .module
  declaration := some f.root

end BoundFile

/-- Bound files under one configuration. -/
structure Program where
  config : Config
  files : List BoundFile

namespace Program

/-- The program of some files. Of two files with one normalized name the later one counts, in the
place of the earlier one. -/
def ofSources (config : Config) (sources : List SourceFile) : Program where
  config := config
  files := (sources.foldl (fun table f => putEntry (Path.normalize f.fileName) f table) []).map
    fun (path, source) => BoundFile.ofSource path source

/-- The file with a normalized name. -/
def file? (p : Program) (path : Text) : Option BoundFile := p.files.find? (·.path = path)

/-- The facts of the file with a normalized name. -/
def factsOf (p : Program) (path : Text) : List Fact := ((p.file? path).map (·.facts)).getD []

/-- The names that every file can use without declaring them. -/
def ambientNames : List Text := ["undefined", "NaN", "Infinity"].map Text.ofString

/-- The symbol of a name that every file can use. -/
def ambientSymbol (name : Text) : BoundSymbol where
  id := .ambient name
  name := name
  kind := .functionScopedVariable

/-- The symbol of a name in one scope. -/
def declared? (p : Program) (scope : ScopeId) (space : Space) (name : Text) : Option BoundSymbol :=
  match scope with
  | .global =>
    if space = .value && ambientNames.contains name then some (ambientSymbol name) else none
  | .file path => Fact.declaredIn? (p.factsOf path) scope space name
  | .node id => Fact.declaredIn? (p.factsOf id.file) scope space name

/-- The scope that a node is looked up from. -/
def scopeOf? (p : Program) (node : Node) : Option BoundScope :=
  Fact.last? (Fact.scope? node.id) (p.factsOf node.id.file)

/-- The symbol that a node names where it stands. -/
def lookup? (p : Program) (space : Space) (name : Text) (node : Node) : Option BoundSymbol :=
  (p.scopeOf? node).bind (ScopeChain.lookup p.declared? space name)

/-- The symbol of a node: what it is the name of, or else what an identifier refers to. -/
def symbolAt? (p : Program) (node : Node) : Option BoundSymbol :=
  match Fact.last? (Fact.named? node.id) (p.factsOf node.id.file) with
  | some symbol => some symbol
  | none => node.identifier?.bind fun name => p.lookup? .value name node

/-- The symbol of an object or type literal. -/
def literalSymbol? (p : Program) (node : Node) : Option BoundSymbol :=
  Fact.last? (Fact.literal? node.id) (p.factsOf node.id.file)

/-- The members of a symbol; those of a file are what it exports. -/
def members (p : Program) (symbol : BoundSymbol) : List (Text × BoundSymbol) :=
  match symbol.id with
  | .module path => Fact.tableOf (p.factsOf path) .exports
  | .node id => Fact.tableOf (p.factsOf id.file) (.members symbol.id)
  | _ => []

end Program

end StaticLiteral
