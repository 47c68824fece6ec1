import StaticLiteral.Text

/-!
# Paths

Paths with slashes, as names of files inside a program. Two leading slashes are kept apart from
one; three or more count as one.
-/

namespace StaticLiteral.Path

/-- The slash. -/
def slash : CodePoint := '/'.toNat

/-- One dot, the name of the current directory. -/
def dot : Text := Text.ofString "."

/-- Two dots, the name of the parent directory. -/
def dotDot : Text := Text.ofString ".."

/-- The slashes that a path keeps at its front. -/
def root (path : Text) : Text :=
  match (path.takeWhile (· == slash)).length with
  | 0 => []
  | 2 => [slash, slash]
  | _ => [slash]

/-- The names in a path, without empty ones and single dots. -/
def components (path : Text) : List Text :=
  (Text.split slash path).filter fun c => !c.isEmpty && c != dot

/-- A root and names as a path; nothing at all is the current directory. -/
def assemble (root : Text) (names : List Text) : Text :=
  let path := root ++ Text.join [slash] names
  if path.isEmpty then dot else path

/-- The path without repeated slashes, single dots and a slash at its end. -/
def tidy (path : Text) : Text := assemble (root path) (components path)

/-- Takes names from the left, the last one taken first; a name followed by two dots cancels out. -/
def resolveDots (isRooted : Bool) : List Text → List Text → List Text
  | taken, [] => taken.reverse
  | taken, name :: names =>
    if name = dotDot then
      match taken with
      | [] => resolveDots isRooted (if isRooted then [] else [dotDot]) names
      | last :: before =>
        if last = dotDot then resolveDots isRooted (dotDot :: taken) names
        else resolveDots isRooted before names
    else resolveDots isRooted (name :: taken) names

/-- The tidy path with every name that two dots follow cancelled. -/
def normalize (path : Text) : Text :=
  let start := root path
  assemble start (resolveDots (!start.isEmpty) [] (components path))

/-- Everything up to the last slash, without slashes at its end unless it is all slashes. -/
def directory (path : Text) : Text :=
  let head := path.take (path.length - (path.reverse.takeWhile (· != slash)).length)
  if head.all (· == slash) then head else Text.trimEnd (· == slash) head

/-- A path seen from a directory; a rooted path stays. -/
def join (base path : Text) : Text :=
  if path.head? = some slash then path
  else if base.isEmpty || base.endsWith [slash] then base ++ path
  else base ++ slash :: path

/-- The last name in a path. -/
def name (path : Text) : Text := ((components path).getLast?).getD []

/-- The end of the last name from its last dot on, unless that dot is at one of its two ends. -/
def suffix (path : Text) : Text :=
  match Text.splitLast? '.'.toNat (name path) with
  | some (stem, extension) =>
    if stem.isEmpty || extension.isEmpty then [] else '.'.toNat :: extension
  | none => []

/-- Whether a module specifier is a path relative to the file that it stands in. -/
def isRelative (specifier : Text) : Bool :=
  specifier = dot || specifier = dotDot || specifier.startsWith (Text.ofString "./")
    || specifier.startsWith (Text.ofString "../")

end StaticLiteral.Path
