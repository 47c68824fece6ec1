/-!
# Parse trees

The concrete syntax tree that a parser leaves of a source: every token is a node, spans are byte
offsets, and some children carry the name of the field of their parent that they fill.
-/

namespace StaticLiteral

/-- A concrete syntax tree. -/
inductive ParseTree where
  | node (type : String) (isNamed : Bool) (start stop : Nat) (field : Option String)
      (children : List ParseTree)

namespace ParseTree

/-- The grammar symbol of the root. -/
def type : ParseTree → String
  | node t _ _ _ _ _ => t

/-- Whether the root is a named node and not a token of punctuation. -/
def isNamed : ParseTree → Bool
  | node _ b _ _ _ _ => b

/-- The offset of the first byte. -/
def start : ParseTree → Nat
  | node _ _ n _ _ _ => n

/-- The offset after the last byte. -/
def stop : ParseTree → Nat
  | node _ _ _ n _ _ => n

/-- The field of its parent that the root fills. -/
def field : ParseTree → Option String
  | node _ _ _ _ f _ => f

/-- The children in source order. -/
def children : ParseTree → List ParseTree
  | node _ _ _ _ _ ns => ns

/-- Nodes that mean nothing wherever they stand. -/
def isSkipped (n : ParseTree) : Bool :=
  ["comment", "empty_statement", "hash_bang_line", ";"].contains n.type

/-- The named children that mean something. -/
def named (n : ParseTree) : List ParseTree :=
  n.children.filter fun c => c.isNamed && !c.isSkipped

/-- The first named child that means something. -/
def firstNamed? (n : ParseTree) : Option ParseTree := n.named.head?

/-- The first child that fills a field. -/
def child? (n : ParseTree) (field : String) : Option ParseTree :=
  n.children.find? fun c => c.field == some field

/-- Whether one of the children is this token. -/
def hasToken (n : ParseTree) (token : String) : Bool := n.children.any (·.type == token)

/-- A node in a listing of a tree, with the number of its children. -/
structure Entry where
  type : String
  isNamed : Bool
  start : Nat
  stop : Nat
  field : Option String
  childCount : Nat

/-- The tree with this root and its children in front of some trees, with the other trees. -/
def gather (e : Entry) (trees : List ParseTree) : List ParseTree :=
  .node e.type e.isNamed e.start e.stop e.field (trees.take e.childCount) ::
    trees.drop e.childCount

/-- The tree that a listing in preorder describes. -/
def ofEntries? (entries : List Entry) : Option ParseTree := (entries.foldr gather []).head?

end ParseTree

/-- What a parser leaves of a source: a tree, and whether the source had errors. -/
structure ParsedSource where
  tree : ParseTree
  hasError : Bool

end StaticLiteral
