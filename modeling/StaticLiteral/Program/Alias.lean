import StaticLiteral.Program.Module

/-!
# Aliases

An alias stands for a name of its own file, for a whole module, or for a name that a module
exports. A module exports what its own table has and, except for the default, what the modules have
that it exports again; these are searched depth first, no file twice.
-/

namespace StaticLiteral

/-- The symbol behind an alias that leads nowhere. -/
def unknownSymbol : BoundSymbol where
  id := .unknown
  name := Text.ofString "unknown"
  kind := .unknown

namespace Program

/-- The files whose exports a file exports again, in the order of its statements. -/
def reexported (p : Program) (path : Text) : List Text :=
  ((p.factsOf path).filterMap Fact.reexport?).filterMap (p.resolveModule path)

/-- The files visited so far and then those not yet visited that `path` leads to, in the order of
a depth-first search that goes at most `depth` levels deep. -/
def visitFrom (p : Program) : Nat → List Text → Text → List Text
  | 0, visited, _ => visited
  | depth + 1, visited, path =>
    if path ∈ visited then visited
    else (p.reexported path).foldl (visitFrom p depth) (visited ++ [path])

/-- The file and all files whose exports it exports again, in depth-first order. -/
def exportSources (p : Program) (path : Text) : List Text :=
  p.visitFrom (p.files.length + 1) [] path

/-- The symbol in a file's own table of exports. -/
def ownExport? (p : Program) (path name : Text) : Option BoundSymbol :=
  Fact.entered? (p.factsOf path) .exports name

/-- The symbol that a file exports under a name. A default is never exported again. -/
def export? (p : Program) (path name : Text) : Option BoundSymbol :=
  if name = defaultName then p.ownExport? path name
  else (p.exportSources path).findSome? (p.ownExport? · name)

/-- The symbol of a name in the scope of a file: its value, or else its type. -/
def local? (p : Program) (path name : Text) : Option BoundSymbol :=
  match p.declared? (.file path) .value name with
  | some symbol => some symbol
  | none => p.declared? (.file path) .type name

/-- The symbol that an alias stands for, or none if it leads nowhere. -/
def target? (p : Program) (origin : AliasOrigin) : Option BoundSymbol :=
  let fromFile := origin.sourceFile.getD []
  match origin.module, origin.importName with
  | none, some name => p.local? fromFile name
  | none, none => none
  | some specifier, importName => do
    let path ← p.resolveModule fromFile specifier
    match importName with
    | some name => p.export? path name
    | none => (p.file? path).map (·.moduleSymbol)

/-- One step behind an alias; any other symbol stands for itself. -/
def aliased (p : Program) (symbol : BoundSymbol) : BoundSymbol :=
  match symbol.kind with
  | .aliasOf origin => (p.target? origin).getD unknownSymbol
  | _ => symbol

/-- Steps behind aliases until there is none left or one comes up again. -/
def aliasEndFrom (p : Program) : Nat → List SymbolId → BoundSymbol → BoundSymbol
  | 0, _, symbol => symbol
  | steps + 1, seen, symbol =>
    if symbol.kind.isAlias ∧ symbol.id ∉ seen then
      aliasEndFrom p steps (symbol.id :: seen) (p.aliased symbol)
    else symbol

/-- How many facts there are about all files. -/
def factCount (p : Program) : Nat := p.files.foldl (fun count f => count + f.facts.length) 0

/-- The end of the chain of aliases that starts at a symbol: a symbol that is no alias, or the
alias that came up twice. -/
def aliasEnd (p : Program) (symbol : BoundSymbol) : BoundSymbol :=
  p.aliasEndFrom (p.factCount + 2) [] symbol

end Program

end StaticLiteral
