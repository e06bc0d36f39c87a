import CodeSurvey.Yaml.Scalar
import CodeSurvey.Text.Utf8

/-!
The tokens of a document. Whether a scalar is a key is known only when the colon behind it is read:
a place where a key could begin is kept as pending, and the tokens that open the key and its mapping
are put in there later. A pending key lives on its own line and for 1024 characters at most.
-/

namespace CodeSurvey.Yaml

open Scanner

/-- A token. -/
inductive Token where
  | version (major : Nat)
  | handle (name uri : List Char)
  | directive
  | documentStart
  | documentEnd
  | streamEnd
  | sequenceStart
  | mappingStart
  | blockEnd
  | openSequence
  | closeSequence
  | openMapping
  | closeMapping
  | comma
  | item
  | key
  | value
  | alias (name : List Char)
  | anchor (name : List Char)
  | tag (handle : Option (List Char)) (suffix : List Char)
  | scalar (text : List Char) (isPlain : Bool)
  /-- The text cannot be read any further. -/
  | failure (f : Fault)
  deriving DecidableEq, Repr

/-! ### Tokens that are read in one go -/

/-- A character that may follow a directive or a tag. -/
def endsTag (c : Option Char) : Bool := c.all fun c => c == ' ' || isBreak c

/-- The octets of escapes in a tag, which together are characters. -/
def tagEscapes : Nat → Scanner (List UInt8)
  | 0 => return []
  | fuel + 1 => do
    match (← get).rest with
    | '%' :: a :: b :: _ =>
      if isHexDigit a && isHexDigit b then
        skip 3
        return UInt8.ofNat (hexValue [a, b]) :: (← tagEscapes fuel)
      else fail
    | '%' :: _ => fail
    | _ => return []

/-- The characters of a tag. -/
def tagText : Nat → Scanner (List Char)
  | 0 => return []
  | n + 1 => do
    match ← peek with
    | none => return []
    | some '%' =>
      match Text.Utf8.decode (← tagEscapes (← fuel)) with
      | .ok text => return text ++ (← tagText n)
      | .error _ => fail
    | some c =>
      if isNameChar c || ";/?:@&=+$,.!~*'()[]".toList.contains c then
        skip 1
        return c :: (← tagText n)
      else return []

/-- The characters of a tag, of which there has to be one. -/
def tagUri : Scanner (List Char) := do
  let text ← tagText (← fuel)
  if text.isEmpty then fail
  return text

/-- The handle of a tag: an exclamation mark, or a name between two. -/
def tagHandle : Scanner (List Char) := do
  if (← peek) != some '!' then fail
  skip 1
  if (← peek) == some ' ' then return ['!']
  let name ← takeWhile isNameChar
  if (← peek) != some '!' then fail
  skip 1
  return '!' :: name ++ ['!']

/-- A tag. -/
def scanTag : Scanner Token := do
  let rest := (← get).rest.drop 1
  let made : Token ← match rest.head? with
    | some '<' => do
      skip 2
      let suffix ← tagUri
      if (← peek) != some '>' then fail
      skip 1
      pure (Token.tag none suffix)
    | c => do
      if endsWord c then
        skip 1
        pure (Token.tag none ['!'])
      else
        let word := rest.takeWhile fun c => !endsTag (some c)
        let handle ← if word.contains '!' then tagHandle else do skip 1; pure ['!']
        pure (Token.tag (some handle) (← tagUri))
  if !endsTag (← peek) then fail
  return made

/-- The name behind the sign of an anchor or an alias. -/
def scanName : Scanner (List Char) := do
  skip 1
  let name ← takeWhile isNameChar
  let following ← peek
  let isCut := endsWord following || following.any "?:,]\x7d%@\x60".toList.contains
  if name.isEmpty || !isCut then fail
  return name

/-- The digits of a version. -/
def versionNumber : Scanner Nat := do
  let digits ← takeWhile Char.isDigit
  if digits.isEmpty then fail
  return Integer.valueOf 10 (digits.filterMap Integer.digit?)

/-- What follows the name of a directive. -/
def directiveValue (name : String) : Scanner Token := do
  if name == "YAML" then
    let _ ← takeWhile (· == ' ')
    let major ← versionNumber
    if (← peek) != some '.' then fail
    skip 1
    let _ ← versionNumber
    if !endsTag (← peek) then fail
    return .version major
  else if name == "TAG" then
    let _ ← takeWhile (· == ' ')
    let handle ← tagHandle
    if (← peek) != some ' ' then fail
    let _ ← takeWhile (· == ' ')
    let uri ← tagUri
    if !endsTag (← peek) then fail
    return .handle handle uri
  else
    let _ ← takeWhile (!isBreak ·)
    return .directive

/-- A directive, to the end of its line. -/
def scanDirective : Scanner Token := do
  skip 1
  let name ← takeWhile isNameChar
  if name.isEmpty || !endsTag (← peek) then fail
  let made ← directiveValue (String.ofList name)
  restOfLine
  return made

/-! ### The run through the text -/

/-- A place where a key may begin. -/
structure PendingKey where
  /-- The number of tokens before it. -/
  place : Nat
  /-- The block would be broken if it were no key. -/
  required : Bool
  index : Nat
  line : Nat
  column : Nat

/-- How far the run has come. -/
structure Progress where
  cursor : Cursor
  /-- The tokens, last first. -/
  tokens : List Token := []
  /-- The number of tokens. -/
  count : Nat := 0
  /-- The column of the block. -/
  indent : Int := -1
  /-- The columns of the blocks around it, the innermost first. -/
  outer : List Int := []
  /-- A key may begin here. -/
  keyAllowed : Bool := true
  /-- The pending key of each open collection of the flow style, the innermost first, and of the
      block. -/
  pending : List (Option PendingKey) := [none]
  finished : Bool := false

namespace Progress

/-- A collection of the flow style is open. -/
def inFlow (p : Progress) : Bool := p.pending.length > 1

/-- The pending key of the innermost collection. -/
def key? (p : Progress) : Option PendingKey := p.pending.head?.join

/-- Sets the pending key of the innermost collection. -/
def withKey (p : Progress) (key : Option PendingKey) : Progress :=
  { p with pending := key :: p.pending.drop 1 }

/-- Adds a token. -/
def push (p : Progress) (t : Token) : Progress :=
  { p with tokens := t :: p.tokens, count := p.count + 1 }

/-- Puts tokens in at a place among those before. -/
def insert (p : Progress) (place : Nat) (ts : List Token) : Progress :=
  let later := p.count - place
  { p with
    tokens := p.tokens.take later ++ ts.reverse ++ p.tokens.drop later
    count := p.count + ts.length }

/-- Closes the blocks that are indented deeper than a column; the columns of the blocks around are
    given. -/
def unwindTo (column : Int) (p : Progress) : List Int → Progress
  | [] => p
  | next :: more =>
    if column < p.indent then
      unwindTo column { p.push .blockEnd with indent := next, outer := more } more
    else p

/-- Closes the blocks that are indented deeper than a column; in the flow style there is nothing
    to close. -/
def unwind (column : Int) (p : Progress) : Progress :=
  if p.inFlow then p else unwindTo column p p.outer

/-- Opens a block at a column, unless one is open there. -/
def openBlock (p : Progress) (column : Int) : Progress × Bool :=
  if p.indent < column then ({ p with indent := column, outer := p.indent :: p.outer }, true)
  else (p, false)

end Progress

/-- A step of the run. -/
abbrev Run (α : Type) := StateT Progress (Except Fault) α

namespace Run

/-- Reads with the cursor of the run. -/
def scan {α : Type} (s : Scanner α) : Run α := do
  let p ← get
  let (a, cursor) ← s.run p.cursor
  set { p with cursor }
  return a

/-- Adds a token. -/
def push (t : Token) : Run Unit := modify (·.push t)

/-- Forgets the pending key of the innermost collection, which must not be required. -/
def dropKey : Run Unit := do
  if (← get).key?.any (·.required) then throw .malformed
  modify (·.withKey none)

/-- Notes that a key may begin here. -/
def noteKey : Run Unit := do
  let p ← get
  if p.keyAllowed then
    dropKey
    let c := p.cursor
    let isRequired := !p.inFlow && p.indent == c.column
    modify (·.withKey (some ⟨p.count, isRequired, c.index, c.line, c.column⟩))

/-- Forgets the pending keys that can no longer be keys. -/
def dropStaleKeys : Run Unit := do
  let p ← get
  let stale := fun (k : PendingKey) =>
    k.line != p.cursor.line || p.cursor.index - k.index > 1024
  if p.pending.any fun k => k.any fun k => stale k && k.required then throw .malformed
  let fresh := p.pending.map fun (k : Option PendingKey) => k.filter (!stale ·)
  set { p with pending := fresh }

/-- Sets whether a key may begin here. -/
def allowKey (allowed : Bool) : Run Unit := modify ({ · with keyAllowed := allowed })

/-- Skips blanks, comments and line ends. -/
def skipGap : Nat → Run Unit
  | 0 => return
  | n + 1 => do
    let ended ← scan do
      let _ ← takeWhile (· == ' ')
      if (← peek) == some '#' then
        let _ ← takeWhile (!isBreak ·)
      return (← lineEnd?).isSome
    if ended then
      if !(← get).inFlow then allowKey true
      skipGap n

/-- The end of the text. -/
def finish : Run Unit := do
  modify (·.unwind (-1))
  dropKey
  push .streamEnd
  modify ({ · with finished := true })

/-- A directive or a document mark, which closes all blocks. -/
def atTop (s : Scanner Token) : Run Unit := do
  modify (·.unwind (-1))
  dropKey
  allowKey false
  push (← scan s)

/-- Opens a collection of the flow style. -/
def openFlow (t : Token) : Run Unit := do
  noteKey
  modify fun p => { p with pending := none :: p.pending }
  allowKey true
  scan (skip 1)
  push t

/-- Closes a collection of the flow style. -/
def closeFlow (t : Token) : Run Unit := do
  dropKey
  if !(← get).inFlow then throw .malformed
  modify fun p => { p with pending := p.pending.drop 1 }
  allowKey false
  scan (skip 1)
  push t

/-- Opens a block for an entry, unless one is open; outside the flow style the entry has to stand
    where a key may begin. -/
def openFor (start : Token) : Run Unit := do
  let p ← get
  if !p.inFlow then
    if !p.keyAllowed then throw .malformed
    let (p, opened) := p.openBlock p.cursor.column
    set p
    if opened then push start

/-- An item of a sequence. -/
def item : Run Unit := do
  openFor .sequenceStart
  allowKey true
  dropKey
  scan (skip 1)
  push .item

/-- The mark of a key. -/
def key : Run Unit := do
  openFor .mappingStart
  allowKey (!(← get).inFlow)
  dropKey
  scan (skip 1)
  push .key

/-- The mark of a value; the pending key, if there is one, turns out to be a key. -/
def value : Run Unit := do
  let p ← get
  match p.key? with
  | some k =>
    let (p, opened) := if p.inFlow then (p, false) else p.openBlock k.column
    set ((p.withKey none).insert k.place (if opened then [.mappingStart, .key] else [.key]))
    allowKey false
  | none =>
    openFor .mappingStart
    allowKey (!p.inFlow)
    dropKey
  scan (skip 1)
  push .value

/-- A token with which a key may begin. -/
def inKey (s : Scanner Token) : Run Unit := do
  noteKey
  allowKey false
  push (← scan s)

/-- A plain scalar. -/
def plainScalar : Run Unit := do
  noteKey
  let p ← get
  let (text, ended) ← scan (plain p.inFlow (p.indent + 1))
  allowKey ended
  push (.scalar text true)

/-- A block of lines. -/
def blockScalar (folded : Bool) : Run Unit := do
  allowKey true
  dropKey
  let indent := (← get).indent
  push (.scalar (← scan (block folded indent)) false)

/-- A plain scalar may begin with a character, given the next one. -/
def beginsPlain (flow : Bool) (c : Char) (following : Option Char) : Bool :=
  !(endsWord (some c) || "-?:,[]\x7b\x7d#&*!|>'\"%@\x60".toList.contains c) ||
    (!endsWord following && (c == '-' || (!flow && (c == '?' || c == ':'))))

/-- Reads on by at least one token. -/
def step : Run Unit := do
  let c := (← get).cursor
  if c.index == 0 && c.rest.head? == some '\uFEFF' then scan (skip 1)
  skipGap (← scan fuel)
  dropStaleKeys
  let c := (← get).cursor
  modify (·.unwind c.column)
  let flow := (← get).inFlow
  match c.rest with
  | [] => finish
  | ch :: rest =>
    let following := rest.head?
    if c.column == 0 && ch == '%' then atTop scanDirective
    else if c.column == 0 && c.atMark "---" then atTop do skip 3; return .documentStart
    else if c.column == 0 && c.atMark "..." then atTop do skip 3; return .documentEnd
    else if ch == '[' then openFlow .openSequence
    else if ch == '{' then openFlow .openMapping
    else if ch == ']' then closeFlow .closeSequence
    else if ch == '}' then closeFlow .closeMapping
    else if ch == ',' then allowKey true; dropKey; scan (skip 1); push .comma
    else if ch == '-' && endsWord following then item
    else if ch == '?' && (flow || endsWord following) then key
    else if ch == ':' && (flow || endsWord following) then value
    else if ch == '*' then inKey do return .alias (← scanName)
    else if ch == '&' then inKey do return .anchor (← scanName)
    else if ch == '!' then inKey scanTag
    else if ch == '|' && !flow then blockScalar false
    else if ch == '>' && !flow then blockScalar true
    else if ch == '\'' then inKey do return .scalar (← quoted false) false
    else if ch == '"' then inKey do return .scalar (← quoted true) false
    else if beginsPlain flow ch following then plainScalar
    else throw .malformed

end Run

/-- The tokens from some progress on, up to the end of the text or a fault. -/
def runFrom : Nat → Progress → List Token
  | 0, p => p.tokens.reverse
  | n + 1, p =>
    match Run.step.run p with
    | .error f => (Token.failure f :: p.tokens).reverse
    | .ok (_, p) => if p.finished then p.tokens.reverse else runFrom n p

/-- A character that may stand in a document. -/
def isAdmitted (c : Char) : Bool :=
  let n := c.toNat
  n == 9 || n == 10 || n == 13 || (32 ≤ n && n ≤ 126) || n == 0x85 || (0xA0 ≤ n && n < 0xFFFE) ||
    0x10000 ≤ n

/-- The tokens of a text. -/
def tokens (text : List Char) : List Token :=
  if text.all isAdmitted then runFrom (text.length + 2) { cursor := { rest := text } }
  else [.failure .malformed]

end CodeSurvey.Yaml
