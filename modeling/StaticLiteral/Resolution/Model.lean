import StaticLiteral.Pattern.Reader
import StaticLiteral.Semantic.Symbol
import StaticLiteral.Value

/-!
# Semantic models

What resolving an expression asks of a type checker: the symbol that a node names, the symbol
behind an alias, and the type of a symbol as far as it tells a value. Any question may fail. With
the answers comes what patterns need, the table of the names of characters.
-/

namespace StaticLiteral

/-- Why a request has no answer: it went too deep, or something it relied on gave up. -/
inductive Failure where
  | tooDeep
  /-- the model gave up -/
  | raised (message : Text)
  /-- an integer was to be written with more digits than are ever written -/
  | tooManyDigits
  | brokenPattern (breach : PatternSyntax.Breach)
  /-- the groups of a pattern are nested too deep -/
  | nestedPattern

/-- What is said about a failure other than going too deep. -/
def Failure.message? : Failure → Option Text
  | .tooDeep | .nestedPattern => none
  | .raised message => some message
  | .tooManyDigits => some Value.TooManyDigits.message
  | .brokenPattern breach => some breach.message

/-- The part of a type that tells a value; `ι` is the type of the identities of symbols. -/
inductive TypeView (ι : Type) where
  | text (t : Text)
  | number (x : Double)
  /-- an array or a tuple; its type arguments are asked for -/
  | reference
  | object (symbol : Symbol ι)
  | other

/-- A type checker as the resolver sees it. -/
structure SemanticModel (ι τ : Type) where
  symbolAt : Node → Except Failure (Option (Symbol ι))
  /-- the symbol that an alias stands for, one step on -/
  aliased : Symbol ι → Except Failure (Symbol ι)
  typeOf : Symbol ι → Except Failure τ
  view : τ → TypeView ι
  arguments : τ → List τ
  /-- the characters that patterns name -/
  characterNames : CharacterNames
  /-- whether a symbol that leads back to itself is cut off there -/
  guarded : Bool := true

end StaticLiteral
