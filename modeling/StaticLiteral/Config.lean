import StaticLiteral.Text.CharacterName

/-!
# Configuration

Which dialect a file is written in, which files belong together, and the limits of reading them.
What the platform knows of characters is set here, too.
-/

namespace StaticLiteral

/-- The settings of a program. -/
structure Config where
  defaultDialect : Text := Text.ofString "typescript"
  /-- dialects by the end of the file name, the first match counts -/
  dialects : List (Text × Text) :=
    [(Text.ofString ".ts", Text.ofString "typescript"),
      (Text.ofString ".mts", Text.ofString "typescript"),
      (Text.ofString ".cts", Text.ofString "typescript"),
      (Text.ofString ".tsx", Text.ofString "tsx")]
  /-- what may be added to the path of a module -/
  moduleExtensions : List Text :=
    [Text.ofString ".ts", Text.ofString ".tsx", Text.ofString ".d.ts"]
  /-- what a directory stands for as a module -/
  indexFiles : List Text := [Text.ofString "index.ts", Text.ofString "index.tsx"]
  /-- in bytes -/
  maxFileSize : Int := 10 * 1024 * 1024
  /-- levels of lowered tree; what is nested deeper is cut off -/
  maxNestingDepth : Int := 100
  supportedExtensions : List Text :=
    [Text.ofString ".ts", Text.ofString ".tsx", Text.ofString ".mts", Text.ofString ".cts"]
  debug : Bool := false
  /-- the characters that patterns name -/
  characterNames : CharacterNames := .common

namespace Config

/-- The dialect of a file. -/
def dialectFor (config : Config) (fileName : Text) : Text :=
  match config.dialects.find? fun entry => fileName.endsWith entry.1 with
  | some (_, dialect) => dialect
  | none => config.defaultDialect

/-- Whether files with this name are read. -/
def supports (config : Config) (fileName : Text) : Bool :=
  config.supportedExtensions.any fileName.endsWith

end Config

/-- Whether there is a grammar for a dialect. -/
def isKnownDialect (dialect : Text) : Bool :=
  dialect = Text.ofString "typescript" || dialect = Text.ofString "tsx"

end StaticLiteral
