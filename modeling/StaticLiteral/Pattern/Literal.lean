import StaticLiteral.Pattern.Grammar
import StaticLiteral.Value

/-!
# Regular expression literals

A literal is a body between slashes and the letters of its flags. Of the letters only those for
case, lines and the dot count; the others are ignored.
-/

namespace StaticLiteral.PatternSyntax

/-- The flag of a letter after a literal. -/
def literalFlag? (c : CodePoint) : Option Flag :=
  if c = 'i'.toNat then some .ignoreCase
  else if c = 'm'.toNat then some .multiline
  else if c = 's'.toNat then some .dotAll
  else none

/-- All flags, each of them once. -/
def allFlags : List Flag :=
  [.template, .ignoreCase, .locale, .multiline, .dotAll, .unicode, .verbose, .ascii]

/-- The sum of the bits of flags. -/
def flagBits (flags : List Flag) : Nat :=
  (allFlags.filter flags.contains).foldl (fun bits flag => bits + flag.bit) 0

/-- The body of a literal and the letters after it. -/
def literalParts? (text : Text) : Option (Text × Text) :=
  match text with
  | c :: rest => if c = '/'.toNat then Text.splitLast? '/'.toNat rest else none
  | [] => none

/-- The pattern that a literal denotes, or none if the text is no literal or its body no pattern.
A fault is left only where the pattern is broken beyond that. -/
def literal (characterNames : CharacterNames) (text : Text) : Except Fault (Option Pattern) :=
  match literalParts? text with
  | none => .ok none
  | some (body, letters) =>
    match pattern characterNames body (letters.filterMap literalFlag?) with
    | .ok flags => .ok (some ⟨body, flagBits flags⟩)
    | .error .invalid => .ok none
    | .error fault => .error fault

end StaticLiteral.PatternSyntax
