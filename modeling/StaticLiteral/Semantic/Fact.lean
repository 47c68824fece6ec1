import StaticLiteral.Semantic.Scope
import StaticLiteral.Semantic.Symbol

/-!
# Facts about names

What binding a file establishes, one fact at a time: a name is declared in a scope, a name is
entered in the table of a file or of a symbol, a node stands for a symbol or is looked up from a
scope. Of two facts about the same thing the later one counts.
-/

namespace StaticLiteral

/-- The identity of a scope: that of all files, that of one file, or that of a node inside one. -/
inductive ScopeId where
  | global
  | file (path : Text)
  | node (id : NodeId)
  deriving DecidableEq

/-- The identity of a symbol of a program. A symbol that a file declares has the identity of the
node that names it, or of the node it is for if it has no name. -/
inductive SymbolId where
  | ambient (name : Text)
  | node (id : NodeId)
  | module (path : Text)
  | unknown
  deriving DecidableEq

/-- A symbol of a program. -/
abbrev BoundSymbol := Symbol SymbolId

/-- The scopes around a place in a program. -/
abbrev BoundScope := ScopeChain ScopeId

/-- A table of names apart from scopes: what a file exports, or the members of a symbol. -/
inductive Table where
  | exports
  | members (owner : SymbolId)
  deriving DecidableEq

/-- A fact about one file. -/
inductive Fact where
  | declares (declared : Declared ScopeId BoundSymbol)
  | enters (table : Table) (name : Text) (symbol : BoundSymbol)
  /-- everything that another module exports is exported too -/
  | reexports (specifier : Text)
  /-- the node is the name of the symbol -/
  | names (node : NodeId) (symbol : BoundSymbol)
  /-- the node is looked up from the scope -/
  | refers (node : NodeId) (scope : BoundScope)
  /-- the node is an object or type literal with a symbol of its own -/
  | isLiteral (node : NodeId) (symbol : BoundSymbol)

namespace Fact

/-- The fact with its symbol changed. -/
def mapSymbol (f : BoundSymbol → BoundSymbol) : Fact → Fact
  | declares d => .declares { d with symbol := f d.symbol }
  | enters table name symbol => .enters table name (f symbol)
  | reexports specifier => .reexports specifier
  | names node symbol => .names node (f symbol)
  | refers node scope => .refers node scope
  | isLiteral node symbol => .isLiteral node (f symbol)

/-- The declaration that a fact is. -/
def declared? : Fact → Option (Declared ScopeId BoundSymbol)
  | declares d => some d
  | _ => none

/-- The name and symbol that a fact enters in a table. -/
def row? (table : Table) : Fact → Option (Text × BoundSymbol)
  | enters t name symbol => if t = table then some (name, symbol) else none
  | _ => none

/-- The module that a fact exports again. -/
def reexport? : Fact → Option Text
  | reexports specifier => some specifier
  | _ => none

/-- The symbol that a node is the name of. -/
def named? (node : NodeId) : Fact → Option BoundSymbol
  | names n symbol => if n = node then some symbol else none
  | _ => none

/-- The scope that a node is looked up from. -/
def scope? (node : NodeId) : Fact → Option BoundScope
  | refers n scope => if n = node then some scope else none
  | _ => none

/-- The symbol of a literal. -/
def literal? (node : NodeId) : Fact → Option BoundSymbol
  | isLiteral n symbol => if n = node then some symbol else none
  | _ => none

/-- What the last fact tells that tells anything. -/
def last? {α : Type} (tells : Fact → Option α) (facts : List Fact) : Option α :=
  (facts.filterMap tells).getLast?

/-- The symbol of a name in a table. -/
def entered? (facts : List Fact) (table : Table) (name : Text) : Option BoundSymbol :=
  ((facts.filterMap (row? table)).filter (·.1 = name)).getLast?.map (·.2)

/-- The names in a table with their symbols, in the order in which they were first entered. -/
def tableOf (facts : List Fact) (table : Table) : List (Text × BoundSymbol) :=
  let entries := facts.filterMap (row? table)
  (entries.map (·.1)).eraseDups.filterMap fun name =>
    (entered? facts table name).map (name, ·)

/-- The symbol of a name in a scope. -/
def declaredIn? (facts : List Fact) (scope : ScopeId) (space : Space) (name : Text) :
    Option BoundSymbol :=
  Declared.latest? (facts.filterMap declared?) scope space name

/-- The names declared in a scope with their symbols, in the order of their first declarations. -/
def namesIn (facts : List Fact) (scope : ScopeId) (space : Space) : List (Text × BoundSymbol) :=
  let declarations := facts.filterMap declared?
  (Declared.names declarations scope space).filterMap fun name =>
    (Declared.latest? declarations scope space name).map (name, ·)

end Fact

end StaticLiteral
