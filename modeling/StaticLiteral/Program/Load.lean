import StaticLiteral.Program.Basic
import StaticLiteral.Storage
import StaticLiteral.Text.Utf8

/-!
# Loading programs

A file with a supported name is read and made into syntax. A file that cannot be read is loaded
without statements, and the reason is noted; bytes that are no text are replaced, and that is noted
too.
-/

namespace StaticLiteral

/-- A parser: for a dialect and a text, the tree of the text. -/
abbrev Grammar := Text → Text → ParsedSource

/-- Why a file cannot be loaded at all. -/
inductive LoadFault where
  | source (fault : SourceFault)
  | path (fault : StorageFault)

/-- A file without statements, with one anomaly. -/
def SourceFile.blank (fileName : Text) (reason : Reason) (detail : Text) : SourceFile :=
  { fileName := fileName, anomalies := [⟨reason, detail⟩] }

/-- The file that a text is in the dialect of its name. -/
def SourceFile.ofGrammar (config : Config) (parse : Grammar) (fileName text : Text) :
    Except SourceFault SourceFile :=
  let dialect := config.dialectFor fileName
  SourceFile.ofText config fileName text dialect (parse dialect text)

/-- The file that bytes are. -/
def SourceFile.ofBytes (config : Config) (parse : Grammar) (fileName : Text) (bytes : List UInt8) :
    Except SourceFault SourceFile := do
  let file ← SourceFile.ofGrammar config parse fileName (Utf8.decode bytes)
  let noted := (Utf8.fault? bytes).toList.map fun fault =>
    (⟨.decodeError, Text.ofString fault.message⟩ : Anomaly)
  return { file with anomalies := noted ++ file.anomalies }

/-- The size in bytes that a directory has. -/
def directorySize : Nat := 4096

/-- Whether something is larger than the configuration allows, and by which size. -/
def excessSize? (config : Config) (entry : StoredEntry) : Option Nat :=
  let size : Nat := match entry with
    | .file bytes => bytes.length
    | .directory => directorySize
  if config.maxFileSize < (size : Int) then some size else none

/-- Loads the file at a path. -/
def SourceFile.load (config : Config) (parse : Grammar) (storage : Storage) (path : Text) :
    Except LoadFault SourceFile :=
  let fileName := Path.tidy path
  let unread (fault : StorageFault) : Except LoadFault SourceFile :=
    match fault.message? fileName with
    | some message => .ok (SourceFile.blank fileName .ioError message)
    | none => .error (.path fault)
  if config.supports fileName then
    match storage.locate fileName with
    | .error fault => unread fault
    | .ok place =>
      match storage.entry place with
      | none => unread .notFound
      | some entry =>
        match excessSize? config entry with
        | some size =>
          .ok (SourceFile.blank fileName .fileTooLarge
            (Text.ofNat size ++ Text.ofString " bytes"))
        | none =>
          match entry with
          | .directory => unread .isDirectory
          | .file bytes => (SourceFile.ofBytes config parse fileName bytes).mapError .source
  else .ok (SourceFile.blank fileName .unsupportedExtension (Path.suffix fileName))

/-- Loads the files at some paths as one program. -/
def Program.load (config : Config) (parse : Grammar) (storage : Storage) (paths : List Text) :
    Except LoadFault Program := do
  return .ofSources config (← paths.mapM (SourceFile.load config parse storage))

end StaticLiteral
