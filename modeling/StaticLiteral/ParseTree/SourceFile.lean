import StaticLiteral.Config
import StaticLiteral.ParseTree.Statement

/-!
# Source files

A source file is a named list of statements with the anomalies of reading it. The statements are
made one after the other; one whose tree is too deep is left as an unknown node.
-/

namespace StaticLiteral

/-- A file in syntax form. -/
structure SourceFile where
  fileName : Text
  statements : List Node := []
  span : Option Span := none
  anomalies : List Anomaly := []

namespace SourceFile

/-- The file as a node. -/
def toNode (f : SourceFile) : Node := .sourceFile { span := f.span } f.fileName f.statements

/-- The depth of trees from which on syntax is no longer made. -/
def depthLimit : Nat := 1000

/-- What is noted of a statement that is too deep. -/
def tooDeepDetail : Text := Text.ofString "recursion limit reached"

/-- One statement of a file with the anomalies so far. -/
def statementFrom (depth : Nat) (ctx : SyntaxContext) (anomalies : List Anomaly) (n : ParseTree) :
    Except SyntaxStop (Option Node × List Anomaly) :=
  match ((MakeSyntax.Makers.ofDepth depth).statement n ctx).run anomalies with
  | (.ok statement, anomalies) => .ok (statement, anomalies)
  | (.error .tooDeep, anomalies) =>
    match ((MakeSyntax.note .nestingTooDeep n tooDeepDetail) ctx).run anomalies with
    | (_, anomalies) => .ok (some (MakeSyntax.cutOff n { span := ctx.span n }), anomalies)
  | (.error stop, _) => .error stop

/-- The statements of a file in order with all anomalies. -/
def statementsFrom (depth : Nat) (ctx : SyntaxContext) :
    List Anomaly → List ParseTree → Except SyntaxStop (List Node × List Anomaly)
  | anomalies, [] => .ok ([], anomalies)
  | anomalies, n :: rest => do
    let (statement, anomalies) ← statementFrom depth ctx anomalies n
    let (statements, anomalies) ← statementsFrom depth ctx anomalies rest
    return (statement.toList ++ statements, anomalies)

/-- What is noted of a source that does not parse. -/
def parseError : Anomaly := ⟨.parseError, Text.ofString "tree-sitter reported syntax errors"⟩

/-- The file that a parsed source is. -/
def ofParsed (source : List UInt8) (fileName : Text) (maxNesting : Int) (parsed : ParsedSource) :
    Except SyntaxStop SourceFile := do
  let ctx : SyntaxContext := { source := source, maxNesting := maxNesting }
  let (statements, anomalies) ← statementsFrom depthLimit ctx [] parsed.tree.named
  return {
    fileName := fileName
    statements := statements
    span := some (ctx.span parsed.tree)
    anomalies := (if parsed.hasError then [parseError] else []) ++ anomalies }

end SourceFile

/-- Why there is no file for a text: the text has no bytes, its dialect has no grammar, or its tree
stops the work. -/
inductive SourceFault where
  | unencodable
  | unsupportedDialect (dialect : Text)
  | stopped (stop : SyntaxStop)

/-- What is said about a dialect without a grammar. -/
def SourceFault.message? : SourceFault → Option Text
  | .unsupportedDialect dialect => some (Text.ofString "Unsupported dialect: " ++ dialect)
  | .unencodable | .stopped _ => none

/-- The file of a text and its tree. An empty dialect is the same as none: the configuration tells
it then. -/
def SourceFile.ofText (config : Config) (fileName text : Text) (dialect : Option Text)
    (parsed : ParsedSource) : Except SourceFault SourceFile :=
  let dialect := match dialect with
    | some (c :: rest) => c :: rest
    | _ => config.dialectFor fileName
  if !Utf8.isEncodable text then .error .unencodable
  else if isKnownDialect dialect then
    match ofParsed (Utf8.encode text) fileName config.maxNestingDepth parsed with
    | .ok file => .ok file
    | .error stop => .error (.stopped stop)
  else .error (.unsupportedDialect dialect)

end StaticLiteral
