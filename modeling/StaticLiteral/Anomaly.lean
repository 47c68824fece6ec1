import StaticLiteral.Text

/-!
# Anomalies

Whatever goes wrong while files are read, lowered and bound is noted as an anomaly of the file and
does not stop the program. Every reason has a number.
-/

namespace StaticLiteral

/-- Why an anomaly was noted. Reasons of other tools are kept by name, without a number. -/
inductive Reason where
  | ioError
  | decodeError
  | parseError
  | unsupportedExtension
  | fileTooLarge
  | invalidEscape
  | nestingTooDeep
  | unresolvedModule
  | other (name : Text)
  deriving DecidableEq

namespace Reason

/-- The reasons that have a number. -/
def numbered : List Reason :=
  [ioError, decodeError, parseError, unsupportedExtension, fileTooLarge, invalidEscape,
    nestingTooDeep, unresolvedModule]

/-- The name of a reason. -/
def name : Reason → Text
  | ioError => Text.ofString "IO_ERROR"
  | decodeError => Text.ofString "DECODE_ERROR"
  | parseError => Text.ofString "PARSE_ERROR"
  | unsupportedExtension => Text.ofString "UNSUPPORTED_EXTENSION"
  | fileTooLarge => Text.ofString "FILE_TOO_LARGE"
  | invalidEscape => Text.ofString "INVALID_ESCAPE"
  | nestingTooDeep => Text.ofString "NESTING_TOO_DEEP"
  | unresolvedModule => Text.ofString "UNRESOLVED_MODULE"
  | other name => name

/-- Anomalies of reading have numbers from 1001, those of binding from 2001. -/
def code? : Reason → Option Nat
  | ioError => some 1001
  | decodeError => some 1002
  | parseError => some 1003
  | unsupportedExtension => some 1004
  | fileTooLarge => some 1005
  | invalidEscape => some 1006
  | nestingTooDeep => some 1007
  | unresolvedModule => some 2001
  | other _ => none

/-- The reason with this name. -/
def ofName (t : Text) : Reason := (numbered.find? fun r => r.name == t).getD (other t)

end Reason

/-- One thing that went wrong with a file. -/
structure Anomaly where
  reason : Reason
  detail : Text
  deriving DecidableEq

end StaticLiteral
