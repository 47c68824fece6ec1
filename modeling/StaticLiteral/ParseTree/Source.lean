import StaticLiteral.Anomaly
import StaticLiteral.ParseTree
import StaticLiteral.Syntax.Node
import StaticLiteral.Text.Escape
import StaticLiteral.Text.Utf8

/-!
# Making syntax from parse trees

The setting in which a parse tree becomes syntax: the bytes of the source, the nesting so far and
its limit, and the anomalies noted. Trees that no grammar produces are taken as they are.
-/

namespace StaticLiteral

/-- What making syntax depends on. -/
structure SyntaxContext where
  source : List UInt8
  maxNesting : Int
  nesting : Nat := 0

/-- Why making syntax stops. -/
inductive SyntaxStop where
  /-- the tree is too deep to go on -/
  | tooDeep
  /-- an import specifier has neither a name nor an alias -/
  | missingName
  deriving DecidableEq

/-- A step of making syntax; anomalies noted before a stop are kept. -/
abbrev MakeSyntax := ReaderT SyntaxContext (ExceptT SyntaxStop (StateM (List Anomaly)))

namespace SyntaxContext

/-- The bytes from `start` up to `stop`; a negative `stop` counts from the end. -/
def slice (ctx : SyntaxContext) (start : Nat) (stop : Int) : List UInt8 :=
  let stop := if stop < 0 then (stop + ctx.source.length).toNat else stop.toNat
  (ctx.source.drop start).take (stop - start)

/-- The line and column of a byte offset, both from 0. -/
def point (ctx : SyntaxContext) (offset : Nat) : Nat × Nat :=
  let before := ctx.source.take offset
  let lineLength := (before.reverse.takeWhile (· != 10)).length
  (before.count 10, lineLength + (offset - ctx.source.length))

/-- The span of a tree. -/
def span (ctx : SyntaxContext) (n : ParseTree) : Span :=
  let (startLine, startColumn) := ctx.point n.start
  let (stopLine, stopColumn) := ctx.point n.stop
  ⟨startLine + 1, startColumn, stopLine + 1, stopColumn⟩

end SyntaxContext

namespace MakeSyntax

/-- What a node made from a tree carries. -/
def info (n : ParseTree) : MakeSyntax Info := do return { span := (← read).span n }

/-- The text of some bytes of the source. -/
def textBetween (start : Nat) (stop : Int) : MakeSyntax Text := do
  return Utf8.decode ((← read).slice start stop)

/-- The text of a tree. -/
def text (n : ParseTree) : MakeSyntax Text := textBetween n.start n.stop

/-- The symbol of a tree as text. -/
def symbol (n : ParseTree) : Text := Text.ofString n.type

/-- Notes an anomaly with the line of a tree. -/
def note (reason : Reason) (n : ParseTree) (detail : Text) : MakeSyntax Unit := do
  let line := ((← read).point n.start).1 + 1
  let detail := Text.ofString "line " ++ Text.ofNat line ++ Text.ofString ": " ++ detail
  modify (· ++ [⟨reason, detail⟩])

/-- What is said when the nesting limit is reached. -/
def nestingDetail (limit : Int) : Text :=
  Text.ofString "more than " ++ Text.ofInt limit ++ Text.ofString " levels"

/-- Makes syntax one level further down. At the limit the tree is cut off instead, which is noted
for the first time that it happens. -/
def guarded {α : Type} (n : ParseTree) (cut : Info → α) (make : MakeSyntax α) : MakeSyntax α := do
  let ctx ← read
  if ctx.maxNesting ≤ ctx.nesting then
    if !(← get).any fun a => a.reason = .nestingTooDeep then
      note .nestingTooDeep n (nestingDetail ctx.maxNesting)
    return cut (← info n)
  else withReader (fun ctx => { ctx with nesting := ctx.nesting + 1 }) make

/-- The text that escapes denote; an escape that denotes nothing is noted. -/
def decoded? (t : Text) (n : ParseTree) : MakeSyntax (Option Text) := do
  match Escape.decode t with
  | .ok t => return some t
  | .error fault =>
    note .invalidEscape n fault.message
    return none

/-- The text without its first and last character. -/
def unquoted (t : Text) : Text := (t.drop 1).dropLast

/-- The text of a string tree, as written if it cannot be decoded. -/
def stringText (n : ParseTree) : MakeSyntax Text := do
  let raw := unquoted (← text n)
  return (← decoded? raw n).getD raw

/-- The node that stands for something missing. -/
def missing : Node := .unknown {} (Text.ofString "missing") []

/-- The type that stands for something missing. -/
def missingType : Node := .unknownType {} (Text.ofString "missing")

/-- An identifier with the text of a tree. -/
def identifier (n : ParseTree) : MakeSyntax Node := do return .identifier (← info n) (← text n)

/-- What a tree that is cut off leaves. -/
def cutOff (n : ParseTree) (i : Info) : Node := .unknown i (symbol n) []

/-- What a type that is cut off leaves. -/
def cutOffType (n : ParseTree) (i : Info) : Node := .unknownType i (symbol n)

/-- The ways that lead further down a tree, each for one sort of syntax. -/
structure Makers where
  statement : ParseTree → MakeSyntax (Option Node)
  generic : ParseTree → MakeSyntax Node
  expression : ParseTree → MakeSyntax Node
  type : ParseTree → MakeSyntax Node
  bindingName : ParseTree → MakeSyntax Node
  bindingElement : ParseTree → MakeSyntax Node

namespace Makers

variable (m : Makers)

/-- An expression that may be missing. -/
def expressionOrMissing : Option ParseTree → MakeSyntax Node
  | some n => m.expression n
  | none => return missing

/-- An expression if there is one. -/
def optionalExpression : Option ParseTree → MakeSyntax (Option Node)
  | some n => some <$> m.expression n
  | none => return none

/-- A tree with no syntax of its own: what can be made of its children is kept. -/
def unknown (n : ParseTree) : MakeSyntax Node := do
  let children ← n.named.mapM m.generic
  return .unknown (← info n) (symbol n) children

/-- The statements in a tree. -/
def block (n : ParseTree) : MakeSyntax Node := do
  let statements ← n.named.mapM m.statement
  return .block (← info n) (statements.filterMap fun s => s)

/-- A block if there is one. -/
def optionalBlock : Option ParseTree → MakeSyntax (Option Node)
  | some n => some <$> m.block n
  | none => return none

/-- The type in an annotation, if it has one. -/
def typeAnnotation : Option ParseTree → MakeSyntax (Option Node)
  | none => return none
  | some n =>
    if ["type_annotation", "opting_type_annotation",
        "omitting_type_annotation"].contains n.type then
      match n.firstNamed? with
      | some inner => some <$> m.type inner
      | none => return none
    else some <$> m.type n

/-- A bound name that may be missing. -/
def bindingNameOrMissing : Option ParseTree → MakeSyntax Node
  | some n => m.bindingName n
  | none => return missing

/-- The elements between brackets. A comma with no element before it leaves a hole; one after the
last element does not. -/
def elements (make : ParseTree → MakeSyntax Node) :
    Bool → List ParseTree → MakeSyntax (List Node)
  | _, [] => return []
  | expecting, c :: rest =>
    if c.isSkipped || c.type == "[" then elements make expecting rest
    else if c.type == "]" then return []
    else if c.type == "," then do
      if expecting then
        let hole := Node.omittedExpression (← info c)
        return hole :: (← elements make true rest)
      else elements make true rest
    else do
      let element ← make c
      return element :: (← elements make false rest)

end Makers

end MakeSyntax

end StaticLiteral
