import StaticLiteral.Text.DecimalDigit

/-!
# Arguments of the command

Files, and switches among them. A switch may be cut short as long as it stays the only one meant,
and a value may follow it after an equals sign. After two dashes everything is a file. All files
stand together: words left over in another place are refused.
-/

namespace StaticLiteral.Command

/-- The switches of the command. -/
inductive Switch where
  | help
  | target
  | out
  | debug
  deriving DecidableEq

/-- Whether a switch needs a value. -/
def Switch.takesValue : Switch → Bool
  | .target | .out => true
  | .help | .debug => false

/-- How the switches are written. -/
def spellings : List (Text × Switch) :=
  [(Text.ofString "-h", .help), (Text.ofString "--help", .help),
    (Text.ofString "--target", .target), (Text.ofString "--out", .out),
    (Text.ofString "--debug", .debug)]

/-- Why the command does not run: help was asked for, or it was not called as it has to be. -/
inductive Stop where
  | help
  | usage
  deriving DecidableEq

/-- What a word on the command line is. -/
inductive Word where
  | plain
  | divider
  | switch (s : Switch) (attached : Option Text)
  /-- the short switch for help with letters after it -/
  | cluster (letters : Text)
  | unknown
  deriving DecidableEq

/-- The dash. -/
def dash : CodePoint := '-'.toNat

/-- The equals sign. -/
def equalsSign : CodePoint := '='.toNat

/-- A word before its first equals sign, and what follows that sign if there is one. -/
def cutValue (word : Text) : Text × Option Text :=
  (word.takeWhile (· != equalsSign),
    match word.dropWhile (· != equalsSign) with
    | [] => none
    | _ :: value => some value)

/-- Digits, at least one, up to the end of the text or a line break there. -/
def isDigitsToEnd (t : Text) : Bool :=
  let digits := t.takeWhile fun c => (Text.decimalDigit? c).isSome
  let rest := t.dropWhile fun c => (Text.decimalDigit? c).isSome
  !digits.isEmpty && (rest.isEmpty || rest == ['\n'.toNat])

/-- Whether a word is a negative number, whole or with a point. -/
def isNegativeNumber : Text → Bool
  | [] => false
  | c :: t =>
    c == dash
      && (isDigitsToEnd t
        || match t.dropWhile fun c => (Text.decimalDigit? c).isSome with
          | [] => false
          | d :: rest => d == '.'.toNat && isDigitsToEnd rest)

/-- What a word is that begins with a dash and is no switch. -/
def otherWord (word : Text) : Word :=
  if isNegativeNumber word || word.contains ' '.toNat then .plain else .unknown

/-- What a word is that begins with two dashes: the one switch that it is the beginning of. -/
def longWord (word : Text) : Except Stop Word :=
  let (name, attached) := cutValue word
  match spellings.filter fun entry => entry.1.startsWith name with
  | [] => .ok (otherWord word)
  | [(_, s)] => .ok (.switch s attached)
  | _ => .error .usage

/-- What a word before the divider is. -/
def wordOf (word : Text) : Except Stop Word :=
  match word with
  | [] => .ok .plain
  | first :: rest =>
    if first ≠ dash then .ok .plain
    else
      match spellings.lookup word with
      | some s => .ok (.switch s none)
      | none =>
        match rest with
        | [] => .ok .plain
        | second :: letters =>
          let (name, attached) := cutValue word
          match spellings.lookup name, attached with
          | some s, some value => .ok (.switch s (some value))
          | _, _ =>
            if second = dash then longWord word
            else if second = 'h'.toNat then .ok (.cluster letters)
            else .ok (otherWord word)

/-- The words of a command line with what they are. -/
def wordsOf : List Text → Except Stop (List (Text × Word))
  | [] => .ok []
  | word :: rest =>
    if word = [dash, dash] then .ok ((word, .divider) :: rest.map (·, .plain))
    else do
      let kind ← wordOf word
      return (word, kind) :: (← wordsOf rest)

/-- Whether letters after the short switch for help still ask for help. -/
def asksHelp : Text → Bool
  | [] => true
  | c :: rest =>
    if c = dash then false
    else if c = 'h'.toNat then
      match rest with
      | d :: _ => d != equalsSign && asksHelp rest
      | [] => true
    else true

/-- What the command is to do. -/
structure Arguments where
  files : List Text
  target : Option Text := none
  out : Option Text := none
  debug : Bool := false
  deriving DecidableEq

/-- What has been read of a command line. -/
structure Progress where
  files : Option (List Text) := none
  target : Option Text := none
  out : Option Text := none
  debug : Bool := false
  /-- the words since the last switch -/
  run : List (Text × Word) := []
  hasLeftOver : Bool := false

namespace Progress

/-- Ends the words since the last switch: the first ones with a file among them are the files, all
others are left over. The divider is not one of the files. -/
def endRun (p : Progress) : Progress :=
  if p.run.isEmpty then p
  else if p.files.isNone ∧ p.run.any (·.2 = .plain) then
    { p with files := some ((p.run.map (·.1)).erase [dash, dash]), run := [] }
  else { p with hasLeftOver := true, run := [] }

/-- Sets the value of a switch. -/
def setValue (p : Progress) (s : Switch) (value : Text) : Progress :=
  match s with
  | .target => { p with target := some value }
  | .out => { p with out := some value }
  | .help | .debug => p

/-- Obeys a switch without a value. -/
def obey (p : Progress) : Switch → Except Stop Progress
  | .help => .error .help
  | .debug => .ok { p with debug := true }
  | .target | .out => .error .usage

/-- Reads words in their order. -/
def read : Progress → List (Text × Word) → Except Stop Progress
  | p, [] => .ok p.endRun
  | p, (text, .plain) :: rest => read { p with run := p.run ++ [(text, .plain)] } rest
  | p, (text, .divider) :: rest => read { p with run := p.run ++ [(text, .divider)] } rest
  | p, (_, .unknown) :: rest => read { p.endRun with hasLeftOver := true } rest
  | _, (_, .cluster letters) :: _ => .error (if asksHelp letters then .help else .usage)
  | p, (_, .switch s (some value)) :: rest =>
    if s.takesValue then read (p.endRun.setValue s value) rest else .error .usage
  | p, (_, .switch s none) :: (value, .plain) :: rest =>
    if s.takesValue then read (p.endRun.setValue s value) rest
    else do
      let p ← p.endRun.obey s
      read { p with run := [(value, .plain)] } rest
  | p, (_, .switch s none) :: rest => do read (← p.endRun.obey s) rest

end Progress

/-- The arguments on a command line. There has to be at least one file. -/
def Arguments.ofWords (words : List Text) : Except Stop Arguments := do
  let p ← Progress.read {} (← wordsOf words)
  match p.files, p.hasLeftOver with
  | some files, false => return ⟨files, p.target, p.out, p.debug⟩
  | _, _ => throw .usage

end StaticLiteral.Command
