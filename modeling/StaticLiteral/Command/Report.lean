import StaticLiteral.Program.Load
import StaticLiteral.Program.Report

/-!
# Reports of the command

What is reported of a program: the entries of its files under their normalized names, all anomalies,
and which version of the tool made the report.
-/

namespace StaticLiteral

/-- A report. -/
structure CommandReport where
  files : List (Text × List ReportEntry)
  anomalies : List FileAnomaly

/-- Why there is no report. -/
inductive ReportFault where
  | load (fault : LoadFault)
  | tooManyDigits

namespace CommandReport

/-- The tool and its version. -/
def versions : List (Text × Text) := [(Text.ofString "ts_static_resolver", Text.ofString "0.1.0")]

/-- The entries of those paths that are files of a program; a file that is named twice is reported
once. -/
def entriesOf (p : Program) :
    List (Text × List ReportEntry) → List Text →
      Except Value.TooManyDigits (List (Text × List ReportEntry))
  | done, [] => .ok done
  | done, path :: paths => do
    let name := Path.normalize path
    match p.file? name with
    | none => entriesOf p done paths
    | some file =>
      let entries ← p.report file
      entriesOf p (putEntry name entries done) paths

/-- The report on the files at some paths, or on one of them only. -/
def ofPaths (config : Config) (parse : Grammar) (storage : Storage) (paths : List Text)
    (target : Option Text) : Except ReportFault CommandReport := do
  let p ← (Program.load config parse storage paths).mapError .load
  let targets := match target with
    | some (c :: rest) => [c :: rest]
    | _ => paths
  let files ← (entriesOf p [] targets).mapError fun _ => .tooManyDigits
  return { files := files, anomalies := p.anomalies }

/-- A name or nothing, as a value of a report. -/
def valueOfName : Option String → ReportValue
  | some name => .text (Text.ofString name)
  | none => .null

/-- A count or nothing, as a value of a report. -/
def valueOfNat : Option Nat → ReportValue
  | some n => .integer n
  | none => .null

/-- An entry as a value of a report. -/
def valueOfEntry (e : ReportEntry) : ReportValue :=
  .object ([(Text.ofString "line", valueOfNat e.line),
      (Text.ofString "kind", .text (Text.ofString e.kind)),
      (Text.ofString "value_type", valueOfName (e.type.map ValueType.name)),
      (Text.ofString "value", e.value)]
    ++ e.name.toList.map fun name => (Text.ofString "name", .text name))

/-- An anomaly as a value of a report. -/
def valueOfAnomaly (a : FileAnomaly) : ReportValue :=
  .object [(Text.ofString "file", .text a.file),
    (Text.ofString "reason", .text a.anomaly.reason.name),
    (Text.ofString "detail", .text a.anomaly.detail),
    (Text.ofString "code", valueOfNat a.anomaly.reason.code?)]

/-- The whole report as a value, made at a given time. -/
def toValue (r : CommandReport) (timestamp : Text) : ReportValue :=
  .object [(Text.ofString "timestamp_utc", .text timestamp),
    (Text.ofString "files",
      .object (r.files.map fun (path, entries) => (path, .array (entries.map valueOfEntry)))),
    (Text.ofString "anomalies", .array (r.anomalies.map valueOfAnomaly)),
    (Text.ofString "versions",
      .object (versions.map fun (tool, version) => (tool, .text version)))]

end CommandReport

end StaticLiteral
