import StaticLiteral.Syntax.Node

/-!
# Symbols

A symbol is what a name stands for. Symbols have identities, so that two declarations of one name
stay apart; `ι` is the type of the identities.
-/

namespace StaticLiteral

/-- Where an import or export specifier points: the file it stands in, the module it names (none
for a name of the same file), and the exported name (none for the whole module). -/
structure AliasOrigin where
  sourceFile : Option Text := none
  module : Option Text := none
  importName : Option Text := none
  deriving DecidableEq

/-- What sort of thing a symbol stands for. -/
inductive SymbolKind where
  | property
  | objectLiteral
  | blockScopedVariable
  | functionScopedVariable
  | aliasOf (origin : AliasOrigin)
  | function
  | classDefinition
  | interface
  | typeAlias
  | typeLiteral
  | enum
  | enumMember
  | namespaceBlock
  | module
  | unknown
  deriving DecidableEq

namespace SymbolKind

/-- The name of a kind. -/
def name : SymbolKind → String
  | property => "PROPERTY"
  | objectLiteral => "OBJECT_LITERAL"
  | blockScopedVariable => "BLOCK_SCOPED_VARIABLE"
  | functionScopedVariable => "FUNCTION_SCOPED_VARIABLE"
  | aliasOf _ => "ALIAS"
  | function => "FUNCTION"
  | .classDefinition => "CLASS"
  | interface => "INTERFACE"
  | typeAlias => "TYPE_ALIAS"
  | typeLiteral => "TYPE_LITERAL"
  | enum => "ENUM"
  | enumMember => "ENUM_MEMBER"
  | .namespaceBlock => "NAMESPACE"
  | module => "MODULE"
  | unknown => "UNKNOWN"

/-- One kind of each name. -/
def all : List SymbolKind :=
  [property, objectLiteral, blockScopedVariable, functionScopedVariable, aliasOf {},
    function, classDefinition, interface, typeAlias, typeLiteral, enum, enumMember, namespaceBlock,
    module, unknown]

/-- Whether the kind is that of import and export specifiers. -/
def isAlias : SymbolKind → Bool
  | aliasOf _ => true
  | _ => false

end SymbolKind

/-- A named binding. The declaration is the node whose value the symbol denotes; for an alias it is
the specifier. -/
structure Symbol (ι : Type) where
  id : ι
  name : Text
  kind : SymbolKind
  declaration : Option Node := none
  isConst : Bool := false

end StaticLiteral
