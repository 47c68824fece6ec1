import StaticLiteral.Command.Arguments
import StaticLiteral.Command.Report
import StaticLiteral.Report.Text

/-!
# Running the command

The report goes to the standard output, or into a file and then a line about it to the standard
error stream.
-/

namespace StaticLiteral.Command

/-- How the command ended. -/
structure Outcome where
  code : Nat
  output : Text
  errorOutput : Text
  storage : Storage

/-- Why the command broke off. -/
inductive Fault where
  | report (fault : ReportFault)
  | output (fault : StorageFault)
  /-- the report holds half of a surrogate pair, which has no bytes -/
  | unencodable

/-- Writes a report to a file. -/
def writeReport (storage : Storage) (path report : Text) : Except Fault Storage := do
  if Utf8.isEncodable report then (storage.write path (Utf8.encode report)).mapError .output
  else
    let _ ← (storage.write path []).mapError .output
    throw .unencodable

/-- What is said of a report that was written. -/
def writtenNotice (path : Text) : Text := Text.ofString "Wrote report → " ++ path ++ ['\n'.toNat]

/-- Runs the command with arguments at a given time. -/
def runWith (parse : Grammar) (storage : Storage) (timestamp : Text) (arguments : Arguments) :
    Except Fault Outcome := do
  let config : Config := { debug := arguments.debug }
  let report ← (CommandReport.ofPaths config parse storage arguments.files
    arguments.target).mapError .report
  let text := (report.toValue timestamp).toText
  match arguments.out with
  | some (c :: rest) =>
    let path := Path.tidy (c :: rest)
    return ⟨0, [], writtenNotice path, ← writeReport storage path text⟩
  | _ => return ⟨0, text ++ ['\n'.toNat], [], storage⟩

/-- The code that a stop ends the command with. -/
def Stop.code : Stop → Nat
  | .help => 0
  | .usage => 2

end StaticLiteral.Command
