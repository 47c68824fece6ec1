import StaticLiteral.ParseTree
import StaticLiteral.Text

/-!
# Listings of parse trees

A parse tree as lines of text. The first line says whether the source had errors. Every further
line is a node in preorder with six fields between tabs: its type, whether it is named, where it
starts and stops, its field or nothing, and the number of its children.
-/

namespace StaticLiteral.ParsedSource

/-- The text between separators. -/
def pieces (separator : Char) (t : Text) : List String :=
  (Text.split separator.toNat t).map fun piece => String.ofList (piece.map Char.ofNat)

/-- The node on a line. -/
def entryOfLine? (line : String) : Option ParseTree.Entry :=
  match pieces '\t' (Text.ofString line) with
  | [type, named, start, stop, field, children] => do
    return { type := type, isNamed := named == "named", start := ← start.toNat?
             stop := ← stop.toNat?, field := if field.isEmpty then none else some field
             childCount := ← children.toNat? }
  | _ => none

/-- The parsed source that a listing describes. -/
def ofListing? (listing : Text) : Option ParsedSource :=
  match (pieces '\n' listing).filter (!·.isEmpty) with
  | [] => none
  | state :: lines => do
    let tree ← ParseTree.ofEntries? (← lines.mapM entryOfLine?)
    return ⟨tree, state == "errors"⟩

/-- What is left of a source that was not parsed: a tree of nothing, with errors. -/
def unparsed : ParsedSource := ⟨.node "program" true 0 0 none [], true⟩

end StaticLiteral.ParsedSource
