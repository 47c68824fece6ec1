import StaticLiteral.Path
import StaticLiteral.Text.Quoted

/-!
# Stored files

A tree of files and directories as far as it is known. Places are given from the root or from some
number of levels above the current directory; every directory on the way to a known entry is known
too.
-/

namespace StaticLiteral

/-- Where paths start: at the root, or a number of levels above the current directory. -/
inductive PathBase where
  | root
  | above (levels : Nat)
  deriving DecidableEq

/-- A place in the tree. -/
structure Place where
  base : PathBase
  names : List Text
  deriving DecidableEq

namespace Place

/-- Where a path starts. -/
def start (path : Text) : Place :=
  ⟨if (Path.root path).isEmpty then .above 0 else .root, []⟩

/-- The directory around a place; nothing is around the root. -/
def parent (p : Place) : Place :=
  match p.names, p.base with
  | _ :: _, _ => { p with names := p.names.dropLast }
  | [], .root => p
  | [], .above levels => ⟨.above (levels + 1), []⟩

/-- One step along a path. -/
def step (p : Place) (name : Text) : Place :=
  if name = Path.dotDot then p.parent else { p with names := p.names ++ [name] }

/-- Whether a place lies properly below another one. -/
def isBelow (p outer : Place) : Bool :=
  p.base = outer.base && outer.names.length < p.names.length && outer.names.isPrefixOf p.names

end Place

/-- What is found at a place. -/
inductive StoredEntry where
  | file (bytes : List UInt8)
  | directory

/-- What is known of the tree. Of two entries for one place the first counts. -/
structure Storage where
  entries : List (Place × StoredEntry) := []

/-- Why a file is not read or written. -/
inductive StorageFault where
  | notFound
  | exists
  | notDirectory
  | isDirectory
  /-- the path holds a zero -/
  | zeroInPath
  /-- the path holds half of a surrogate pair that stands for no byte -/
  | surrogateInPath
  deriving DecidableEq

/-- What is said about a fault of a file; paths that cannot be asked for have no message. -/
def StorageFault.message? (path : Text) : StorageFault → Option Text
  | .notFound => some (Text.ofString "[Errno 2] No such file or directory: " ++ path.quoted)
  | .exists => some (Text.ofString "[Errno 17] File exists: " ++ path.quoted)
  | .notDirectory => some (Text.ofString "[Errno 20] Not a directory: " ++ path.quoted)
  | .isDirectory => some (Text.ofString "[Errno 21] Is a directory: " ++ path.quoted)
  | .zeroInPath | .surrogateInPath => none

namespace Storage

/-- What is at a place. -/
def entry (s : Storage) (p : Place) : Option StoredEntry :=
  if p.names.isEmpty then some .directory
  else
    match s.entries.lookup p with
    | some found => some found
    | none => if s.entries.any (·.1.isBelow p) then some .directory else none

/-- The tree with something at a place. -/
def insert (s : Storage) (p : Place) (found : StoredEntry) : Storage := ⟨(p, found) :: s.entries⟩

/-- The tree with something at the place that a path leads to, and directories on the way there. -/
def reveal (s : Storage) (path : Text) (found : StoredEntry) : Storage :=
  let names := Path.components path
  let placeAfter (count : Nat) : Place := (names.take count).foldl Place.step (Place.start path)
  let onTheWay := (List.range names.length).map fun count => (placeAfter count, .directory)
  ⟨(placeAfter names.length, found) :: onTheWay ++ s.entries⟩

/-- Whether a path can be asked for at all. Surrogates from U+DC80 to U+DCFF stand for bytes. -/
def checkPath (path : Text) : Except StorageFault Unit :=
  if path.any fun c => 0xD800 ≤ c && c < 0xDC80 || 0xDD00 ≤ c && c < 0xE000 then
    .error .surrogateInPath
  else if path.contains 0 then .error .zeroInPath
  else .ok ()

/-- Steps from one place to another; whatever steps lead through has to be a directory. -/
def walk (s : Storage) : Place → List Text → Except StorageFault Place
  | p, [] => .ok p
  | p, name :: names =>
    match s.entry p with
    | some .directory => walk s (p.step name) names
    | some (.file _) => .error .notDirectory
    | none => .error .notFound

/-- The place that a path leads to. -/
def locate (s : Storage) (path : Text) : Except StorageFault Place := do
  checkPath path
  s.walk (Place.start path) (Path.components path)

/-- The bytes of a file. -/
def read (s : Storage) (path : Text) : Except StorageFault (List UInt8) := do
  match s.entry (← s.locate path) with
  | some (.file bytes) => .ok bytes
  | some .directory => .error .isDirectory
  | none => .error .notFound

/-- Makes the directories that are missing along some names; `made` tells that one has been made
already. A file on the way stands where a directory is to be made if it is the last on the way or
one has been made; otherwise it is a step that leads nowhere. -/
def makeDirectories (s : Storage) (made : Bool) : Place → List Text → Except StorageFault Storage
  | _, [] => .ok s
  | p, name :: names =>
    let next := p.step name
    match s.entry next with
    | some .directory => makeDirectories s made next names
    | some (.file _) => .error (if made || names.isEmpty then .exists else .notDirectory)
    | none => makeDirectories (s.insert next .directory) true next names

/-- Writes a file, making the directories that it needs. -/
def write (s : Storage) (path : Text) (bytes : List UInt8) : Except StorageFault Storage := do
  let names := Path.components path
  checkPath names.dropLast.flatten
  let s ← s.makeDirectories false (Place.start path) names.dropLast
  checkPath path
  let p ← s.walk (Place.start path) names
  match s.entry p with
  | some .directory => .error .isDirectory
  | _ => .ok (s.insert p (.file bytes))

end Storage

end StaticLiteral
