import StaticLiteral.Number.Numeral
import StaticLiteral.Text.CharacterName
import StaticLiteral.Text.Escape
import StaticLiteral.Text.Identifier

/-!
# Reading a pattern

A pattern is read token by token: a token is a character, or a backslash with the character after
it. While it is read, the reader keeps the groups seen so far, the flags set for the whole pattern,
and what can only be judged at its end.
-/

namespace StaticLiteral.PatternSyntax

/-- A token of a pattern. -/
inductive Token where
  | char (c : CodePoint)
  | escape (c : CodePoint)
  /-- a backslash with nothing after it -/
  | loneBackslash
  deriving DecidableEq

/-- The tokens of a pattern. -/
def tokens : Text → List Token
  | [] => []
  | c :: rest =>
    if c = '\\'.toNat then
      match rest with
      | [] => [.loneBackslash]
      | e :: after => .escape e :: tokens after
    else .char c :: tokens rest

/-- How a pattern can be broken beyond being none; whoever asked for it is told. -/
inductive Breach where
  | tooManyDigits (count : Nat)
  | tooManyRepetitions
  | incompatibleFlags

/-- What is said about a broken pattern. -/
def Breach.message : Breach → Text
  | .tooManyDigits count =>
    Text.ofString "Exceeds the limit (4300 digits) for integer string conversion: value has "
      ++ Text.ofNat count
      ++ Text.ofString " digits; use sys.set_int_max_str_digits() to increase the limit"
  | .tooManyRepetitions => Text.ofString "the repetition number is too large"
  | .incompatibleFlags => Text.ofString "ASCII and UNICODE flags are incompatible"

/-- Why a pattern is not used. -/
inductive Fault where
  /-- the text is no pattern -/
  | invalid
  | broken (breach : Breach)
  /-- groups are nested too deep -/
  | tooDeep

/-- The least and the greatest number of characters that a part matches. -/
structure Width where
  least : Nat
  greatest : Nat
  deriving DecidableEq

namespace Width

/-- From here on widths are not told apart. -/
def limit : Nat := 0x10000000000000000

/-- The width with both ends at most the limit. -/
def capped (w : Width) : Width := ⟨min w.least limit, min w.greatest limit⟩

/-- The width of nothing. -/
def none : Width := ⟨0, 0⟩

/-- The width of one character. -/
def one : Width := ⟨1, 1⟩

/-- One part after another. -/
def append (a b : Width) : Width := ⟨a.least + b.least, a.greatest + b.greatest⟩

/-- One part or another. -/
def either (a b : Width) : Width := ⟨min a.least b.least, max a.greatest b.greatest⟩

/-- A part repeated at least `least` and at most `greatest` times, or without a bound. -/
def times (w : Width) (least : Nat) : Option Nat → Width
  | some greatest => ⟨w.least * least, w.greatest * greatest⟩
  | Option.none => ⟨w.least * least, if w.greatest = 0 then 0 else limit⟩

end Width

/-- What a quantifier after an item has to know about it. -/
inductive ItemKind where
  | anchor
  | repeated
  | plain
  deriving DecidableEq

/-- One item of a sequence. -/
structure Item where
  kind : ItemKind
  width : Width

/-- The width of a sequence of items. -/
def sequenceWidth (items : List Item) : Width :=
  (items.foldl (fun w i => Width.append w i.width) Width.none).capped

/-- The flags of a pattern and their letters. -/
inductive Flag where
  | template
  | ignoreCase
  | locale
  | multiline
  | dotAll
  | unicode
  | verbose
  | ascii
  deriving DecidableEq

namespace Flag

/-- Each flag has a bit of its own. -/
def bit : Flag → Nat
  | template => 1
  | ignoreCase => 2
  | locale => 4
  | multiline => 8
  | dotAll => 16
  | unicode => 32
  | verbose => 64
  | ascii => 256

/-- The flag of a letter. -/
def ofLetter? (c : CodePoint) : Option Flag :=
  if c = 't'.toNat then some template
  else if c = 'i'.toNat then some ignoreCase
  else if c = 'L'.toNat then some locale
  else if c = 'm'.toNat then some multiline
  else if c = 's'.toNat then some dotAll
  else if c = 'u'.toNat then some unicode
  else if c = 'x'.toNat then some verbose
  else if c = 'a'.toNat then some ascii
  else none

/-- The flags that choose a character set; a group may set one of them and unset none. -/
def isCharacterSet : Flag → Bool
  | ascii | locale | unicode => true
  | _ => false

end Flag

/-- A reader in the middle of a pattern. -/
structure Reader where
  characterNames : CharacterNames
  tokens : List Token
  /-- the flags of the whole pattern -/
  flags : List Flag
  /-- the named groups -/
  names : List (Text × Nat) := []
  /-- the width of each group from the first on, none for one that is still open -/
  groups : List (Option Width) := []
  /-- inside a look-behind, the number of the first group opened there -/
  behindFrom : Option Nat := none
  /-- the groups that conditions name by number -/
  conditions : List Nat := []
  /-- whether anything is repeated -/
  hasRepeat : Bool := false
  /-- whether a look-behind has no fixed width -/
  hasOpenLookBehind : Bool := false

/-- A step of reading. -/
abbrev Read := StateT Reader (Except Fault)

/-- The text is no pattern. -/
def invalid {α : Type} : Read α := throw .invalid

/-- The next token, which stays. -/
def peek : Read (Option Token) := do return (← get).tokens.head?

/-- Takes the next token. -/
def next : Read (Option Token) := do
  let r ← get
  set { r with tokens := r.tokens.tail }
  return r.tokens.head?

/-- Takes the next token if it is the character `c`. -/
def accept (c : Char) : Read Bool := do
  if (← peek) = some (.char c.toNat) then
    let _ ← next
    return true
  else return false

/-- The characters of class `p` at the front of some tokens. -/
def charsWhile (p : CodePoint → Bool) : List Token → Text
  | .char c :: rest => if p c then c :: charsWhile p rest else []
  | _ => []

/-- Takes characters of class `p`, at most `limit` if there is a limit. -/
def takeChars (limit : Option Nat) (p : CodePoint → Bool) : Read Text := do
  let r ← get
  let found := charsWhile p r.tokens
  let taken := match limit with
    | some n => found.take n
    | none => found
  set { r with tokens := r.tokens.drop taken.length }
  return taken

/-- What tokens hold up to the first `stop`, and the tokens after that. -/
def untilChar? (stop : CodePoint) : List Token → Option (Text × List Token)
  | .char c :: rest =>
    if c = stop then some ([], rest) else (untilChar? stop rest).map fun (t, r) => (c :: t, r)
  | .escape c :: rest => (untilChar? stop rest).map fun (t, r) => ('\\'.toNat :: c :: t, r)
  | _ => none

/-- Takes a name up to the character `stop`, which is taken, too; the name is not empty. -/
def takeName (stop : Char) : Read Text := do
  let r ← get
  match untilChar? stop.toNat r.tokens with
  | some (c :: name, rest) =>
    set { r with tokens := rest }
    return c :: name
  | _ => invalid

/-- The width of a group that is closed. -/
def Reader.closed? (r : Reader) (group : Nat) : Option Width :=
  if group = 0 then none else (r.groups[group - 1]?).join

/-- Inside a look-behind only groups closed before it may be named. -/
def checkLookBehind (group : Nat) : Read Unit := do
  let r ← get
  match r.behindFrom with
  | none => return ()
  | some first => if (r.closed? group).isNone || first ≤ group then invalid

end StaticLiteral.PatternSyntax
