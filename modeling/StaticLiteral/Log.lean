import StaticLiteral.Anomaly
import StaticLiteral.Config
import StaticLiteral.Text.Blank

/-!
# Log messages

The records that loading a program leaves in its log.
-/

namespace StaticLiteral.Log

/-- How serious a record is. -/
inductive Level where
  | debug
  | info
  | warning
  | error
  deriving DecidableEq

/-- The name of a level. -/
def Level.name : Level → String
  | .debug => "DEBUG"
  | .info => "INFO"
  | .warning => "WARNING"
  | .error => "ERROR"

/-- The least serious level that is shown. -/
def threshold (config : Config) : Level := if config.debug then .debug else .warning

/-- A record of the log. -/
structure Record where
  level : Level
  message : Text

/-- One count as a summary shows it. -/
def countText (count : Text × Int) : Text := count.1 ++ '='.toNat :: Text.ofInt count.2

/-- The record of one step of loading: an error if the step failed, with a summary of the counts
if there are any. -/
def loadStep (step status : Text) (counts : List (Text × Int)) : Record where
  level := if status = Text.ofString "failed" then .error else .info
  message :=
    let summary := Text.join (Text.ofString ", ") (counts.map countText)
    Text.ofString "Load " ++ step ++ Text.ofString ": " ++ status
      ++ if summary.isEmpty then [] else Text.ofString " (" ++ summary ++ Text.ofString ")"

/-- The record of one anomaly of a file, without blanks at its end. -/
def anomaly (file : Text) (a : Anomaly) : Record where
  level := .debug
  message :=
    Text.trimEnd Text.isBlank
      (file ++ Text.ofString ": " ++ a.reason.name ++ Text.ofString " " ++ a.detail)

end StaticLiteral.Log
