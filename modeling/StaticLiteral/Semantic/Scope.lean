import StaticLiteral.Text

/-!
# Scopes

A scope is seen from inside as the chain of frames around a place, the innermost first. What the
frames declare is kept apart from the chain, so that a later declaration is seen from every chain
that passes through its frame. Values and types are declared and looked up independently.
-/

namespace StaticLiteral

/-- What a frame belongs to. -/
inductive ScopeKind where
  | global
  | file
  | module
  | function
  | block
  deriving DecidableEq

/-- One frame; `ι` is the type of the identities of frames. -/
structure Frame (ι : Type) where
  id : ι
  kind : ScopeKind
  deriving DecidableEq

/-- The frames around a place, the innermost first. -/
abbrev ScopeChain (ι : Type) := List (Frame ι)

/-- Names of values and names of types do not meet. -/
inductive Space where
  | value
  | type
  deriving DecidableEq

/-- The declaration of a name in a frame. -/
structure Declared (ι σ : Type) where
  frame : ι
  space : Space
  name : Text
  symbol : σ

namespace ScopeChain

variable {ι σ : Type}

/-- The chain from the nearest frame on that is no block: where `var` declarations and functions
belong. -/
def functionChain : ScopeChain ι → ScopeChain ι
  | inner :: outer :: rest =>
    if inner.kind = .block then functionChain (outer :: rest) else inner :: outer :: rest
  | chain => chain

/-- The symbol of a name in the innermost frame that declares it. -/
def lookup (declared : ι → Space → Text → Option σ) (space : Space) (name : Text)
    (chain : ScopeChain ι) : Option σ :=
  chain.findSome? fun frame => declared frame.id space name

end ScopeChain

namespace Declared

variable {ι σ : Type} [DecidableEq ι]

/-- The last symbol declared under a name in a frame. -/
def latest? (declarations : List (Declared ι σ)) (frame : ι) (space : Space) (name : Text) :
    Option σ :=
  (declarations.reverse.find? fun d =>
    d.frame = frame && d.space = space && d.name = name).map (·.symbol)

/-- The names declared in a frame, each once. -/
def names (declarations : List (Declared ι σ)) (frame : ι) (space : Space) : List Text :=
  ((declarations.filter fun d => d.frame = frame && d.space = space).map (·.name)).eraseDups

end Declared

end StaticLiteral
