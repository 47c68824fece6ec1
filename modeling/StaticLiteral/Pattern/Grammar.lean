import StaticLiteral.Pattern.Escape

/-!
# The grammar of patterns

Alternatives of sequences of items with quantifiers; character sets; capturing, plain, atomic and
conditional groups; look-around; flags inside the pattern. Reading yields the items of the pattern;
what they match is not kept beyond its width.
-/

namespace StaticLiteral.PatternSyntax

/-- The number of repetitions from which on a pattern is refused. -/
def repeatLimit : Nat := 4294967295

/-- The number of repetitions that digits tell. -/
def repeatCount (digits : Text) : Except Fault Nat :=
  if Numeral.digitLimit < digits.length then .error (.broken (.tooManyDigits digits.length))
  else
    let n := Numeral.value 10 (digits.map (· - '0'.toNat))
    if repeatLimit ≤ n then .error (.broken .tooManyRepetitions) else .ok n

/-- The bounds in braces at the front of tokens after the opening brace, and the tokens after the
closing one; none if the braces do not close, and then the opening one stands for itself. -/
def bounds? (ts : List Token) : Option (Text × Text × List Token) :=
  let least := charsWhile isDigit ts
  match ts.drop least.length with
  | .char c :: rest =>
    if c = '}'.toNat then some (least, least, rest)
    else if c = ','.toNat then
      let greatest := charsWhile isDigit rest
      match rest.drop greatest.length with
      | .char d :: after => if d = '}'.toNat then some (least, greatest, after) else none
      | _ => none
    else none
  | _ => none

/-- The least and greatest count of a quantifier. -/
abbrev Bounds := Nat × Option Nat

/-- The quantifier that begins with `c`, or none if `c` is a brace that stands for itself. -/
def quantifier (c : CodePoint) : Read (Option Bounds) := do
  if c = '?'.toNat then return some (0, some 1)
  else if c = '*'.toNat then return some (0, none)
  else if c = '+'.toNat then return some (1, none)
  else
    let r ← get
    if r.tokens.head? = some (.char '}'.toNat) then return none
    match bounds? r.tokens with
    | none => return none
    | some (least, greatest, rest) =>
      if rest.head? = some .loneBackslash then invalid
      set { r with tokens := rest }
      let lo ← if least.isEmpty then pure 0 else repeatCount least
      if greatest.isEmpty then return some (lo, none)
      let hi ← repeatCount greatest
      if hi < lo then invalid
      return some (lo, some hi)

/-- The last item repeated; items are listed from the last to the first. A position or a repeated
item cannot be repeated. -/
def repeatLast (bounds : Bounds) : List Item → Read (List Item)
  | [] => invalid
  | item :: before => do
    if item.kind != .plain then invalid
    if !(← accept '?') then
      let _ ← accept '+'
    modify fun r => { r with hasRepeat := true }
    return ⟨.repeated, item.width.times bounds.1 bounds.2⟩ :: before

/-- The member of a set that begins with this token. -/
def setMember : Token → Read SetMember
  | .char c => return .point c
  | .escape c => setEscape c
  | .loneBackslash => invalid

/-- The rest of a character set up to its closing bracket; a bracket that comes first stands for
itself. At most `fuel` members are read. -/
def setMembers : Nat → Bool → Read Unit
  | 0, _ => invalid
  | fuel + 1, isFirst => do
    match ← next with
    | none => invalid
    | some token =>
      if token = .char ']'.toNat && !isFirst then return ()
      let low ← setMember token
      if ← accept '-' then
        match ← next with
        | none => invalid
        | some token =>
          if token = .char ']'.toNat then return ()
          match low, ← setMember token with
          | .point a, .point b => if b < a then invalid else setMembers fuel false
          | _, _ => invalid
      else setMembers fuel false

/-- A character set after its opening bracket. -/
def characterSet : Read Item := do
  let _ ← accept '^'
  setMembers ((← get).tokens.length + 1) true
  return charItem

/-- The flags that a group sets and unsets for itself. -/
structure GroupFlags where
  set : List Flag
  unset : List Flag

/-- A letter of flags; the locale flag is not allowed. -/
def flagOf (token : Option Token) : Read Flag :=
  match token with
  | some (.char c) =>
    match Flag.ofLetter? c with
    | some flag => return flag
    | none => invalid
  | _ => invalid

/-- Flags to be set, from `token` on, and the character after them. -/
def flagsToSet : Nat → List Flag → Option Token → Read (List Flag × CodePoint)
  | 0, _, _ => invalid
  | fuel + 1, seen, token => do
    let flag ← flagOf token
    if flag = .locale then invalid
    if flag.isCharacterSet && seen.any fun f => f.isCharacterSet && f != flag then invalid
    let after ← next
    match after with
    | some (.char c) =>
      if c = ')'.toNat || c = '-'.toNat || c = ':'.toNat then return (flag :: seen, c)
      else flagsToSet fuel (flag :: seen) after
    | _ => invalid

/-- Flags to be unset, from `token` on, up to the colon. -/
def flagsToUnset : Nat → List Flag → Option Token → Read (List Flag)
  | 0, _, _ => invalid
  | fuel + 1, seen, token => do
    let flag ← flagOf token
    if flag.isCharacterSet then invalid
    let after ← next
    if after = some (.char ':'.toNat) then return flag :: seen
    else flagsToUnset fuel (flag :: seen) after

/-- Flags after `(?`, from `token` on: those of a group, or none when they are for the whole
pattern and have been set. -/
def flags (token : Token) : Read (Option GroupFlags) := do
  let fuel := (← get).tokens.length + 1
  let (toSet, stop) ←
    if token = .char '-'.toNat then pure ([], '-'.toNat) else flagsToSet fuel [] (some token)
  if stop = ')'.toNat then
    modify fun r => { r with flags := toSet ++ r.flags }
    return none
  if toSet.contains .template then invalid
  let toUnset ← if stop = '-'.toNat then flagsToUnset fuel [] (← next) else pure []
  if toUnset.contains .template || toSet.any toUnset.contains then invalid
  return some ⟨toSet, toUnset⟩

/-- Where a sequence stands. -/
structure Context where
  /-- whether blanks and comments are skipped -/
  verbose : Bool
  /-- how many groups may still be opened around each other -/
  depth : Nat
  /-- whether the sequence is the first alternative of the whole pattern -/
  isFirst : Bool

/-- The context inside a group. -/
def Context.inner (ctx : Context) (verbose : Bool) : Context := ⟨verbose, ctx.depth - 1, false⟩

/-- The number of the group that a condition names: by its name, or by digits. -/
def conditionGroup (name : Text) : Read Nat := do
  if Text.isIdentifier name then
    match (← get).names.lookup name with
    | some group => return group
    | none => invalid
  else
    match Numeral.integer? 10 name with
    | some (.ofNat group) =>
      if group = 0 || 1073741823 ≤ group then invalid
      modify fun r => { r with conditions := group :: r.conditions }
      return group
    | _ => invalid

/-- Opens a capturing group and gives its number; a name must be new. -/
def openGroup (name : Option Text) : Read Nat := do
  let r ← get
  let group := r.groups.length + 1
  match name with
  | some name =>
    if (r.names.lookup name).isSome then invalid
    set { r with groups := r.groups ++ [none], names := (name, group) :: r.names }
  | none => set { r with groups := r.groups ++ [none] }
  return group

/-- Closes a capturing group. -/
def closeGroup (group : Nat) (width : Width) : Read Unit :=
  modify fun r => { r with groups := r.groups.set (group - 1) (some width) }

/-- The closing parenthesis. -/
def closeParenthesis : Read Unit := do
  if !(← accept ')') then invalid

/-- A name that is an identifier. -/
def takeIdentifier (stop : Char) : Read Text := do
  let name ← takeName stop
  if Text.isIdentifier name then return name else invalid

/-- Skips a comment up to and with its closing parenthesis. -/
def skipComment : Read Unit := do
  let r ← get
  match untilChar? ')'.toNat r.tokens with
  | some (_, rest) => set { r with tokens := rest }
  | none => invalid

/-- Skips the rest of a line with its end. -/
def skipLine : List Token → List Token
  | [] => []
  | .loneBackslash :: rest => .loneBackslash :: rest
  | token :: rest => if token = .char 0x0A then rest else skipLine rest

/-- A blank that verbose patterns skip. -/
def isSkippedBlank (c : CodePoint) : Bool := c == 0x20 || 0x09 ≤ c && c ≤ 0x0D

mutual

/-- The alternatives up to a closing parenthesis or the end; the width of all of them. -/
def alternatives : Nat → Context → Read Width
  | 0, _ => throw .tooDeep
  | fuel + 1, ctx => do
    let items ← sequence fuel ctx []
    let width := sequenceWidth items
    if ← accept '|' then
      let r ← get
      let verbose := if ctx.isFirst then r.flags.contains .verbose else ctx.verbose
      let others ← furtherAlternatives fuel { ctx with verbose := verbose } ctx.isFirst
      return width.either others
    else return width

/-- The alternatives after a bar. At the top level the flags of the whole pattern decide whether
blanks are skipped. -/
def furtherAlternatives : Nat → Context → Bool → Read Width
  | 0, _, _ => throw .tooDeep
  | fuel + 1, ctx, isTop => do
    let items ← sequence fuel { ctx with isFirst := false } []
    let width := sequenceWidth items
    if ← accept '|' then
      let r ← get
      let verbose := if isTop then r.flags.contains .verbose else ctx.verbose
      let others ← furtherAlternatives fuel { ctx with verbose := verbose } isTop
      return width.either others
    else return width

/-- A sequence of items up to a bar, a closing parenthesis or the end. The items read so far are
given, the last one first. -/
def sequence : Nat → Context → List Item → Read (List Item)
  | 0, _, _ => throw .tooDeep
  | fuel + 1, ctx, items => do
    match ← peek with
    | none => return items
    | some .loneBackslash => invalid
    | some (.escape c) =>
      let _ ← next
      let item ← itemEscape c
      sequence fuel ctx (item :: items)
    | some (.char c) =>
      if c = '|'.toNat || c = ')'.toNat then return items
      let _ ← next
      if ctx.verbose && isSkippedBlank c then sequence fuel ctx items
      else if ctx.verbose && c = '#'.toNat then
        modify fun r => { r with tokens := skipLine r.tokens }
        sequence fuel ctx items
      else if c = '['.toNat then
        let item ← characterSet
        sequence fuel ctx (item :: items)
      else if c = '?'.toNat || c = '*'.toNat || c = '+'.toNat || c = '\x7b'.toNat then
        match ← quantifier c with
        | none => sequence fuel ctx (charItem :: items)
        | some bounds =>
          let items ← repeatLast bounds items
          sequence fuel ctx items
      else if c = '('.toNat then
        if ← accept '?' then extension fuel ctx items
        else
          let item ← capture fuel ctx none
          sequence fuel ctx (item :: items)
      else if c = '^'.toNat || c = '$'.toNat then sequence fuel ctx (⟨.anchor, .none⟩ :: items)
      else sequence fuel ctx (charItem :: items)

/-- A capturing group after its opening. -/
def capture : Nat → Context → Option Text → Read Item
  | 0, _, _ => throw .tooDeep
  | fuel + 1, ctx, name => do
    let group ← openGroup name
    let width ← enclosed fuel ctx ctx.verbose
    closeGroup group width
    return ⟨.plain, width⟩

/-- The content of a group and its closing parenthesis. -/
def enclosed : Nat → Context → Bool → Read Width
  | 0, _, _ => throw .tooDeep
  | fuel + 1, ctx, verbose => do
    if ctx.depth = 0 then throw .tooDeep
    let width ← alternatives fuel (ctx.inner verbose)
    closeParenthesis
    return width

/-- A look-ahead or look-behind after its opening. -/
def lookAround : Nat → Context → Bool → Read Item
  | 0, _, _ => throw .tooDeep
  | fuel + 1, ctx, isBehind => do
    let outer := (← get).behindFrom
    if isBehind && outer.isNone then
      modify fun r => { r with behindFrom := some (r.groups.length + 1) }
    let width ← enclosed fuel ctx ctx.verbose
    modify fun r => { r with behindFrom := outer }
    if isBehind && (width.least != width.greatest || repeatLimit < width.least) then
      modify fun r => { r with hasOpenLookBehind := true }
    return ⟨.plain, .none⟩

/-- A conditional group after its opening: one or two sequences. -/
def conditional : Nat → Context → Read Item
  | 0, _ => throw .tooDeep
  | fuel + 1, ctx => do
    let group ← conditionGroup (← takeName ')')
    checkLookBehind group
    if ctx.depth = 0 then throw .tooDeep
    let yes := sequenceWidth (← sequence fuel (ctx.inner ctx.verbose) [])
    let width ←
      if ← accept '|' then do
        let no := sequenceWidth (← sequence fuel (ctx.inner ctx.verbose) [])
        if (← peek) = some (.char '|'.toNat) then invalid
        pure (yes.either no)
      else pure ⟨0, yes.greatest⟩
    closeParenthesis
    return ⟨.plain, width⟩

/-- What follows `(?`, and then the rest of the sequence. -/
def extension : Nat → Context → List Item → Read (List Item)
  | 0, _, _ => throw .tooDeep
  | fuel + 1, ctx, items => do
    match ← next with
    | some (.char c) =>
      if c = 'P'.toNat then
        if ← accept '<' then
          let name ← takeIdentifier '>'
          let item ← capture fuel ctx (some name)
          sequence fuel ctx (item :: items)
        else if ← accept '=' then
          let name ← takeIdentifier ')'
          match (← get).names.lookup name with
          | none => invalid
          | some group =>
            let item ← groupReference group
            sequence fuel ctx (item :: items)
        else invalid
      else if c = ':'.toNat || c = '>'.toNat then
        let width ← enclosed fuel ctx ctx.verbose
        sequence fuel ctx (⟨.plain, width⟩ :: items)
      else if c = '#'.toNat then
        skipComment
        sequence fuel ctx items
      else if c = '='.toNat || c = '!'.toNat then
        let item ← lookAround fuel ctx false
        sequence fuel ctx (item :: items)
      else if c = '<'.toNat then
        if !(← accept '=') then
          if !(← accept '!') then invalid
        let item ← lookAround fuel ctx true
        sequence fuel ctx (item :: items)
      else if c = '('.toNat then
        let item ← conditional fuel ctx
        sequence fuel ctx (item :: items)
      else
        match ← flags (.char c) with
        | none =>
          if !ctx.isFirst || !items.isEmpty then invalid
          let verbose := (← get).flags.contains .verbose
          sequence fuel { ctx with verbose := verbose } items
        | some group =>
          let verbose :=
            (ctx.verbose || group.set.contains .verbose) && !group.unset.contains .verbose
          let width ← enclosed fuel ctx verbose
          sequence fuel ctx (⟨.plain, width⟩ :: items)
    | _ => invalid

end

/-- How many groups may be opened around each other. -/
def nestingLimit : Nat := 480

/-- Reads a whole pattern under some flags and gives the flags that it has in the end. -/
def pattern (characterNames : CharacterNames) (body : Text) (given : List Flag) :
    Except Fault (List Flag) := do
  let start : Reader := { characterNames, tokens := tokens body, flags := given }
  let fuel := 4 * start.tokens.length + 8
  let ctx := ⟨given.contains .verbose, nestingLimit, true⟩
  let ((), r) ← (alternatives fuel ctx *> pure ()).run start
  let flags ←
    if !r.flags.contains .ascii then pure (.unicode :: r.flags)
    else if r.flags.contains .unicode then throw (.broken .incompatibleFlags)
    else pure r.flags
  if !r.tokens.isEmpty then throw .invalid
  if r.conditions.any (r.groups.length < ·) then throw .invalid
  if r.hasOpenLookBehind || r.hasRepeat && flags.contains .template then throw .invalid
  return flags

end StaticLiteral.PatternSyntax
