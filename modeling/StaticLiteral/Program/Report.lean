import StaticLiteral.Program.Typing
import StaticLiteral.Report
import StaticLiteral.Resolution.Resolve

/-!
# Reports on files

What the top of a file denotes: one entry for each expression that stands as a statement and for
each exported constant under a plain name, in the order of the file.
-/

namespace StaticLiteral

/-- One line of a report. -/
structure ReportEntry where
  line : Option Nat
  kind : String
  type : Option ValueType
  value : ReportValue
  name : Option Text := none

namespace Program

/-- Resolves a node of the program. -/
def resolve (p : Program) (node : Node) : Resolution.Outcome := Resolution.resolve p.model node

/-- The nodes of a statement that are reported, those of constants with their names. -/
def reported : Node → List (Node × Option Text)
  | .expressionStatement _ e => [(e, none)]
  | .variableStatement _ .const declarations true _ =>
    declarations.filterMap fun declaration =>
      match declaration with
      | .variableDeclaration _ (.identifier _ name) _ _ => some (declaration, some name)
      | _ => none
  | _ => []

/-- The entry of a node. -/
def entry (p : Program) (node : Node) (name : Option Text) :
    Except Value.TooManyDigits ReportEntry := do
  let value := (p.resolve node).value
  return {
    line := node.span.map (·.startLine)
    kind := node.kindName
    type := value.map (·.type)
    value := ← ReportValue.ofOption value
    name := name }

/-- The entries of a file, unless one of them holds an integer with too many digits. -/
def report (p : Program) (f : BoundFile) : Except Value.TooManyDigits (List ReportEntry) :=
  (f.statements.flatMap reported).mapM fun (node, name) => p.entry node name

end Program

end StaticLiteral
