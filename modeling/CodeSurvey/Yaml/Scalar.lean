import CodeSurvey.Yaml.Cursor

/-!
Scalars as they are written: plain, between quotes, or as a block of lines. Inside the first two a
line end with the blanks around it counts as one blank, and several count as one line end less.
-/

namespace CodeSurvey.Yaml

open Scanner

/-! ### Plain scalars -/

/-- The piece of a plain scalar up to a blank, to a colon that closes a key, or to a mark of the
    flow style where that is in force. -/
def plainPiece (flow : Bool) : List Char → List Char
  | [] => []
  | c :: rest =>
    let closes := c == ':' &&
      (endsWord rest.head? || (flow && rest.head?.any fun d => ",[]\x7b\x7d".toList.contains d))
    if isSpace c || isBreak c || closes || (flow && ",?[]\x7b\x7d".toList.contains c) then []
    else c :: plainPiece flow rest

/-- Blank lines between two pieces; none where a document mark follows. -/
def plainBreaks : Nat → Scanner (Option (List Char))
  | 0 => return some []
  | fuel + 1 => do
    let _ ← takeWhile (· == ' ')
    match ← lineEnd? with
    | none => return some []
    | some c =>
      if (← get).atDocumentMark then return none
      return (← plainBreaks fuel).map (c :: ·)

/-- What stands between two pieces, and whether a line ends there; nothing where the scalar ends. -/
def plainGap : Scanner (List Char × Bool) := do
  let blanks ← takeWhile (· == ' ')
  match ← lineEnd? with
  | none => return (blanks, false)
  | some c =>
    if (← get).atDocumentMark then return ([], true)
    match ← plainBreaks (← fuel) with
    | none => return ([], true)
    | some more =>
      return (if c != '\n' then c :: more else if more.isEmpty then [' '] else more, true)

/-- The plain scalar from a piece on, and whether a line ends behind it. -/
def plainFrom (flow : Bool) (indent : Int) : Nat → Scanner (List Char × Bool)
  | 0 => return ([], false)
  | fuel + 1 => do
    let piece := plainPiece flow (← get).rest
    skip piece.length
    let (gap, ended) ← plainGap
    let c ← get
    let following := plainPiece flow c.rest
    if gap.isEmpty || c.rest.head? == some '#' || (!flow && c.column < indent) ||
        following.isEmpty then
      return (piece, ended)
    let (more, ended) ← plainFrom flow indent fuel
    return (piece ++ gap ++ more, ended)

/-- A plain scalar, and whether a line ends behind it. Outside the flow style its lines are
    indented by `indent` at least. -/
def plain (flow : Bool) (indent : Int) : Scanner (List Char × Bool) := do
  plainFrom flow indent (← fuel)

/-! ### Scalars between quotes -/

/-- The character for an escape by a letter or a sign. -/
def escapes : List (Char × Char) := [
  ('0', Char.ofNat 0), ('a', Char.ofNat 7), ('b', Char.ofNat 8), ('t', '\t'), ('\t', '\t'),
  ('n', '\n'), ('v', Char.ofNat 11), ('f', Char.ofNat 12), ('r', '\r'), ('e', Char.ofNat 27),
  (' ', ' '), ('"', '"'), ('\\', '\\'), ('/', '/'), ('N', '\u0085'), ('_', '\u00A0'),
  ('L', '\u2028'), ('P', '\u2029')]

/-- The number of hexadecimal digits after an escape mark. -/
def hexEscapes : List (Char × Nat) := [('x', 2), ('u', 4), ('U', 8)]

/-- A hexadecimal digit. -/
def isHexDigit (c : Char) : Bool :=
  c.isDigit || ('a' ≤ c && c ≤ 'f') || ('A' ≤ c && c ≤ 'F')

/-- The value of hexadecimal digits. -/
def hexValue (digits : List Char) : Nat :=
  Integer.valueOf 16 (digits.filterMap Integer.digit?)

/-- The character of a code; the codes of halves of pairs stand for the replacement character. -/
def charOf (code : Nat) : Scanner Char :=
  if code < 0x110000 then
    return if 0xD800 ≤ code && code < 0xE000 then '\uFFFD' else Char.ofNat code
  else throw (.codePoint code)

/-- The line ends of blank lines inside quotes. No document mark may begin a line. -/
def quotedBreaks : Nat → Scanner (List Char)
  | 0 => return []
  | fuel + 1 => do
    if (← get).atDocumentMark then fail
    let _ ← takeWhile isSpace
    match ← lineEnd? with
    | none => return []
    | some c => return c :: (← quotedBreaks fuel)

/-- What an escape stands for; the backslash has been read. -/
def escape : Scanner (List Char) := do
  match ← peek with
  | none => fail
  | some c =>
    match escapes.lookup c, hexEscapes.lookup c with
    | some d, _ => skip 1; return [d]
    | none, some count =>
      skip 1
      let digits := (← get).rest.take count
      if digits.length < count || !digits.all isHexDigit then fail
      let d ← charOf (hexValue digits)
      skip count
      return [d]
    | none, none =>
      match ← lineEnd? with
      | none => fail
      | some _ => quotedBreaks (← fuel)

/-- The piece up to a blank, a line end or the closing quote. -/
def quotedPiece (double : Bool) : Nat → Scanner (List Char)
  | 0 => return []
  | fuel + 1 => do
    match (← get).rest with
    | [] => return []
    | c :: rest =>
      if isSpace c || isBreak c then return []
      else if double && c == '\\' then
        skip 1
        let piece ← escape
        return piece ++ (← quotedPiece double fuel)
      else if c == (if double then '"' else '\'') then
        if !double && rest.head? == some '\'' then
          skip 2
          return '\'' :: (← quotedPiece double fuel)
        else return []
      else
        skip 1
        return c :: (← quotedPiece double fuel)

/-- What stands between two pieces. -/
def quotedGap : Scanner (List Char) := do
  let blanks ← takeWhile isSpace
  if (← peek).isNone then fail
  match ← lineEnd? with
  | none => return blanks
  | some c =>
    let more ← quotedBreaks (← fuel)
    return if c != '\n' then c :: more else if more.isEmpty then [' '] else more

/-- The scalar up to the closing quote. -/
def quotedFrom (double : Bool) : Nat → Scanner (List Char)
  | 0 => fail
  | n + 1 => do
    let piece ← quotedPiece double (← fuel)
    if (← peek) == some (if double then '"' else '\'') then
      skip 1
      return piece
    else
      let gap ← quotedGap
      return piece ++ gap ++ (← quotedFrom double n)

/-- A scalar between quotes. -/
def quoted (double : Bool) : Scanner (List Char) := do
  skip 1
  quotedFrom double (← fuel)

/-! ### Blocks of lines -/

/-- What becomes of the line ends behind the last line of a block. -/
inductive Chomping where
  /-- The first one stays. -/
  | clip
  /-- None stays. -/
  | strip
  /-- All stay. -/
  | keep
  deriving DecidableEq, Repr

/-- The chomping at the head of a block, if one is given. -/
def chomping? : Scanner (Option Chomping) := do
  match ← peek with
  | some '+' => skip 1; return some .keep
  | some '-' => skip 1; return some .strip
  | _ => return none

/-- The indentation at the head of a block, if one is given; zero is none. -/
def increment? : Scanner (Option Nat) := do
  match ← peek with
  | some c =>
    if c == '0' then fail
    else if c.isDigit then skip 1; return some (c.toNat - 48)
    else return none
  | none => return none

/-- The head of a block: chomping and indentation in either order. -/
def blockHead : Scanner (Chomping × Option Nat) := do
  let first ← chomping?
  let increment ← increment?
  let chomping ← if first.isNone && increment.isSome then chomping? else pure first
  if !(← peek).all fun c => c == ' ' || isBreak c then fail
  return (chomping.getD .clip, increment)

/-- Blank lines at the start of a block, and the largest column that blanks reach before a line. -/
def leadingLines (widest : Nat) : Nat → Scanner (List Char × Nat)
  | 0 => return ([], widest)
  | fuel + 1 => do
    let _ ← takeWhile (· == ' ')
    let widest := max widest (← get).column
    match ← lineEnd? with
    | none => return ([], widest)
    | some c =>
      let (more, widest) ← leadingLines widest fuel
      return (c :: more, widest)

/-- Moves past blanks up to a column. -/
def indentTo (column : Nat) : Scanner Unit := do
  let c ← get
  skip ((c.rest.take (column - c.column)).takeWhile (· == ' ')).length

/-- Blank lines of a block, and the indentation of the line behind them. -/
def blockBreaks (indent : Nat) : Nat → Scanner (List Char)
  | 0 => return []
  | fuel + 1 => do
    indentTo indent
    match ← lineEnd? with
    | none => return []
    | some c => return c :: (← blockBreaks indent fuel)

/-- A line of the block begins here. -/
def atBlockLine (indent : Nat) : Scanner Bool := do
  let c ← get
  return c.column == indent && !c.rest.isEmpty

/-- The lines of a block from one on, with `breaks` before it: their text, the last line end and
    the ones behind it. -/
def blockLines (folded : Bool) (indent : Nat) :
    Nat → List Char → Scanner (List Char × List Char × List Char)
  | 0, breaks => return ([], [], breaks)
  | n + 1, breaks => do
    let indented := (← peek).any isSpace
    let line ← takeWhile (!isBreak ·)
    let ending := (← lineEnd?).toList
    let after ← blockBreaks indent (← fuel)
    if ← atBlockLine indent then
      let joined := folded && ending == ['\n'] && !indented && !(← peek).any isSpace
      let glue := if !joined then ending else if after.isEmpty then [' '] else []
      let (more, last, trailing) ← blockLines folded indent n after
      return (breaks ++ line ++ glue ++ more, last, trailing)
    else return (breaks ++ line, ending, after)

/-- A block of lines. It is indented deeper than `indent`, by as much as its head says or else as
    its first line is. -/
def block (folded : Bool) (indent : Int) : Scanner (List Char) := do
  skip 1
  let (chomping, increment) ← blockHead
  restOfLine
  let least := (max (indent + 1) 1).toNat
  let (breaks, column) ← match increment with
    | some n => do
      let column := least + n - 1
      pure (← blockBreaks column (← fuel), column)
    | none => do
      let (breaks, widest) ← leadingLines 0 (← fuel)
      pure (breaks, max least widest)
  let (text, last, trailing) ←
    if ← atBlockLine column then blockLines folded column (← fuel) breaks
    else pure ([], [], breaks)
  return text ++ (if chomping == .strip then [] else last) ++
    (if chomping == .keep then trailing else [])

end CodeSurvey.Yaml
