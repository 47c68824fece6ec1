import StaticLiteral.Report
import StaticLiteral.Text.Quoted

/-!
# The text of reports

A report is written as an indented document: every item of an array and every property of an object
has a line of its own, two blanks further in; empty ones are closed at once. Text keeps every
character but the quote, the backslash and control characters.
-/

namespace StaticLiteral.ReportValue

/-- One code point inside quotes. -/
def escapedPoint (c : CodePoint) : Text :=
  if c = '"'.toNat then Text.ofString "\\\""
  else if c = '\\'.toNat then Text.ofString "\\\\"
  else if 0x20 ≤ c then [c]
  else if c = 0x08 then Text.ofString "\\b"
  else if c = 0x09 then Text.ofString "\\t"
  else if c = 0x0A then Text.ofString "\\n"
  else if c = 0x0C then Text.ofString "\\f"
  else if c = 0x0D then Text.ofString "\\r"
  else Text.ofString "\\u" ++ Text.hexPadded 4 c

/-- A text in quotes. -/
def quotedText (t : Text) : Text := '"'.toNat :: t.flatMap escapedPoint ++ ['"'.toNat]

/-- A number: its sign, also that of zero, and its shortest digits. -/
def numberText : Double → Text
  | .nan => Text.ofString "NaN"
  | .infinite negative => Text.ofString (if negative then "-Infinity" else "Infinity")
  | .finite negative m => (if negative then ['-'.toNat] else []) ++ Layout.report.magnitude m

/-- The start of a line at a level. -/
def lineStart (level : Nat) : Text := '\n'.toNat :: List.replicate (2 * level) ' '.toNat

/-- Parts between brackets, each on a line of its own inside `level`. -/
def bracketed (opening closing : CodePoint) (level : Nat) : List Text → Text
  | [] => [opening, closing]
  | parts =>
    opening :: Text.join [','.toNat] (parts.map (lineStart (level + 1) ++ ·)) ++ lineStart level
      ++ [closing]

mutual

/-- The text of a value at a level of a document. -/
def textAt (level : Nat) : ReportValue → Text
  | null => Text.ofString "null"
  | boolean b => Text.ofString (if b then "true" else "false")
  | text t => quotedText t
  | integer n => Text.ofInt n
  | number x => numberText x
  | array items => bracketed '['.toNat ']'.toNat level (itemTexts (level + 1) items)
  | object entries => bracketed '{'.toNat '}'.toNat level (entryTexts (level + 1) entries)

/-- The texts of items. -/
def itemTexts (level : Nat) : List ReportValue → List Text
  | [] => []
  | item :: items => textAt level item :: itemTexts level items

/-- The texts of properties: the key, a colon and the value. -/
def entryTexts (level : Nat) : List (Text × ReportValue) → List Text
  | [] => []
  | (key, value) :: entries =>
    (quotedText key ++ Text.ofString ": " ++ textAt level value) :: entryTexts level entries

end

/-- The text of a document. -/
def toText (v : ReportValue) : Text := textAt 0 v

end StaticLiteral.ReportValue
