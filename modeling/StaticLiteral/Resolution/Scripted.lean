import StaticLiteral.Resolution.Model
import StaticLiteral.Semantic.Type

/-!
# Scripted models

A semantic model whose answers are listed beforehand. Symbols and types go by names, so a type may
contain itself.
-/

namespace StaticLiteral

/-- An answer of a script: the name of a symbol or type, or a failure. -/
inductive ScriptedAnswer where
  | entry (name : Text)
  | raises (message : Text)

/-- A type of a script. -/
structure ScriptedType where
  literal : Option LiteralValue := none
  isReference : Bool := false
  /-- the symbol of an object type -/
  symbol : Option Text := none
  arguments : List Text := []

/-- The answers of a semantic model. -/
structure Script where
  symbols : List (Symbol Text) := []
  types : List (Text × ScriptedType) := []
  /-- the symbols of identifiers, by their text -/
  symbolsAt : List (Text × ScriptedAnswer) := []
  aliased : List (Text × ScriptedAnswer) := []
  typeOf : List (Text × ScriptedAnswer) := []
  characterNames : CharacterNames := .common

namespace Script

/-- The failure of a question that the script does not foresee. -/
def noAnswer : Failure := .raised (Text.ofString "no answer")

/-- The symbol with a name. -/
def symbol (s : Script) (name : Text) : Except Failure (Symbol Text) :=
  match s.symbols.find? (·.id = name) with
  | some symbol => .ok symbol
  | none => .error noAnswer

/-- The symbol of a node: only identifiers have one. -/
def symbolAt (s : Script) : Node → Except Failure (Option (Symbol Text))
  | .identifier _ text =>
    match s.symbolsAt.lookup text with
    | some (.entry name) => some <$> s.symbol name
    | some (.raises message) => .error (.raised message)
    | none => .ok none
  | _ => .ok none

/-- The name that a table has for a symbol. -/
def entry (table : List (Text × ScriptedAnswer)) (symbol : Symbol Text) : Except Failure Text :=
  match table.lookup symbol.id with
  | some (.entry name) => .ok name
  | some (.raises message) => .error (.raised message)
  | none => .error noAnswer

/-- What a type tells. A literal value comes before type arguments, and these before a symbol. -/
def view (s : Script) (name : Text) : TypeView Text :=
  match s.types.lookup name with
  | none => .other
  | some t =>
    match t.literal with
    | some (.text v) => .text v
    | some (.number v) => .number v
    | some _ => .other
    | none =>
      if t.isReference then .reference
      else
        match t.symbol.bind fun n => s.symbols.find? (·.id = n) with
        | some symbol => .object symbol
        | none => .other

/-- The semantic model that a script describes. -/
def model (s : Script) : SemanticModel Text Text where
  symbolAt := s.symbolAt
  aliased symbol := do s.symbol (← entry s.aliased symbol)
  typeOf symbol := entry s.typeOf symbol
  view := s.view
  arguments name := ((s.types.lookup name).map (·.arguments)).getD []
  characterNames := s.characterNames

end Script

end StaticLiteral
