import CodeSurvey.Text.Basic
import CodeSurvey.Text.WordChar
import CodeSurvey.Toml.Fault

/-!
The lines of a configuration. Each character is looked at once: comments are blanked, an array that
goes on over several lines is brought into one, and every key is checked up to its equals sign.
Where a quote or a bracket is looked at together with what stands before it, the place before the
first character is the last one.
-/

namespace CodeSurvey.Toml

/-- Where the scan stands with respect to a key. -/
inductive KeyPart where
  | outside
  | inside
  /-- Behind the key, before the equals sign. -/
  | behind
  deriving DecidableEq, Repr

/-- The state of the scan. -/
structure Scan where
  chars : Array Char
  key : KeyPart := .outside
  /-- The key has several parts. -/
  dotted : Bool := false
  /-- The quote of the open text. -/
  quote : Option Char := none
  /-- A text over several lines is open. -/
  multiline : Bool := false
  /-- The number of open arrays. -/
  arrays : Int := 0
  /-- The header of a table is open. -/
  header : Bool := false
  /-- The header of an element of an array is open. -/
  elementHeader : Bool := false
  /-- Only blanks were seen on the line so far. -/
  lineStart : Bool := true

namespace Scan

/-- The character at a place, counted from the end if the place is negative. -/
def at? (s : Scan) (i : Int) : Option Char :=
  if 0 ≤ i then s.chars[i.toNat]? else
    let j := i + s.chars.size
    if 0 ≤ j then s.chars[j.toNat]? else none

/-- Writes a character at a place, counted from the end if the place is negative. -/
def write (s : Scan) (i : Int) (c : Char) : Scan :=
  let j := if 0 ≤ i then i else i + s.chars.size
  { s with chars := s.chars.setIfInBounds j.toNat c }

/-- How many characters `c` stand directly before a place, `limit` at most. -/
def runBefore (s : Scan) (c : Char) (i : Int) : Nat → Nat
  | 0 => 0
  | limit + 1 => if s.at? (i - 1) == some c then runBefore s c (i - 1) limit + 1 else 0

/-- The text that is open after a single quote of a pair, or after the last one of three. -/
def turn (s : Scan) (c : Char) (isTriple : Bool) : Scan :=
  let opened := if isTriple then !s.multiline else s.quote.isNone
  { s with
    multiline := if isTriple then !s.multiline else s.multiline
    quote := if opened then some c else none }

/-- A quote at a place. A double one behind an odd number of backslashes is part of the text. -/
def quoteAt (s : Scan) (i : Int) (c : Char) : Scan :=
  let run := s.runBefore c i 2
  if c == '\'' then s.turn c (run == 2)
  else
    let slashes := if run == 1 then 0 else s.runBefore '\\' (i - run) s.chars.size
    if slashes % 2 == 1 then s else s.turn c (run == 2)

/-- Blanks the comment at a place up to the end of the line. -/
def blankComment (s : Scan) (i : Nat) : Nat → Scan
  | 0 => s
  | fuel + 1 =>
    match s.chars[i]? with
    | none | some '\n' => s
    | some _ => blankComment { s with chars := s.chars.setIfInBounds i ' ' } (i + 1) fuel

/-- The next character goes on with a key of several parts. -/
def goesOn (s : Scan) (i : Nat) : Except Fault Bool :=
  match s.chars[i + 1]? with
  | none => .error .pastList
  | some c => .ok (!Text.isBlank c && c != '.')

/-- A character of a key or behind it: the state after it, and whether it is done with. -/
def keyChar (s : Scan) (i : Nat) (c : Char) : Except Fault (Scan × Bool) := do
  if c == '\n' then throw .malformed
  if s.quote.isSome then
    if s.quote == some c && s.runBefore '\\' i i % 2 == 0 then
      return ({ s with key := .behind, quote := none }, true)
    return (s, true)
  if s.key == .inside then
    if Text.isBlank c then return ({ s with key := .behind }, true)
    if c == '.' then return ({ s with dotted := true }, true)
    if Text.isAlphanumeric c || c == '_' || c == '-' then return (s, true)
    if s.dotted && s.at? (i - 1) == some '.' && (c == '"' || c == '\'') then
      return ({ s with quote := some c }, true)
  else
    if Text.isBlank c then
      if s.dotted then
        if ← s.goesOn i then return ({ s with key := .inside }, true)
      return (s, true)
    if c == '.' then
      let s := { s with dotted := true }
      if ← s.goesOn i then return ({ s with key := .inside }, true)
      return (s, true)
  if c == '=' then return ({ s with key := .outside, dotted := false }, false)
  throw .malformed

/-- A bracket. -/
def bracket (s : Scan) (i : Nat) (c : Char) : Scan :=
  if s.quote.isSome then s
  else if c == '[' then
    if s.header || s.elementHeader then s
    else if !s.lineStart then { s with arrays := s.arrays + 1 }
    else if s.chars[i + 1]? == some '[' then { s with elementHeader := true }
    else { s with header := true }
  else if s.header then { s with header := false }
  else if s.elementHeader then
    if s.at? (i - 1) == some ']' then { s with elementHeader := false } else s
  else { s with arrays := s.arrays - 1 }

/-- A line end. In a text over several lines the one behind the opening quotes is taken out, by
    moving the quotes. -/
def lineEnd (s : Scan) (i : Nat) : Except Fault Scan :=
  if s.quote.isSome || s.multiline then
    if !s.multiline then .error .malformed
    else
      let before := s.at? (i - 1)
      match before with
      | none => .ok s
      | some q =>
        if (q == '\'' || q == '"') && s.at? (i - 2) == before then
          let s := s.write i q
          .ok (if s.at? (i - 3) == before then s.write (i - 3) ' ' else s)
        else .ok s
  else if s.arrays != 0 then .ok (s.write i ' ')
  else .ok { s with lineStart := true }

/-- The state after the character at a place outside keys. -/
def plainChar (s : Scan) (i : Nat) (c : Char) : Except Fault Scan := do
  let s := if (c == '\'' && s.quote != some '"') || (c == '"' && s.quote != some '\'') then
    s.quoteAt i c else s
  let s := if c == '#' && s.quote.isNone && !s.header && !s.elementHeader then
    s.blankComment i s.chars.size else s
  let s := if c == '[' || c == ']' then s.bracket i c else s
  if c == '\n' then return (← s.lineEnd i)
  let here := s.chars[i]?
  if s.lineStart && here != some ' ' && here != some '\t' then
    let s := { s with lineStart := false }
    if s.header || s.elementHeader then return s
    if here == some '=' then throw .malformed
    return { s with key := .inside }
  return s

/-- The scan from a place on. -/
def runFrom (i : Nat) (s : Scan) : Nat → Except Fault Scan
  | 0 => .ok s
  | fuel + 1 =>
    match s.chars[i]? with
    | none => .ok s
    | some c => do
      let (s, isDone) ← if s.key == .outside then pure (s, false) else s.keyChar i c
      runFrom (i + 1) (← if isDone then pure s else s.plainChar i c) fuel

end Scan

/-- The lines of a configuration, ready to be read. No key and no text may be left open. -/
def lines (text : List Char) : Except Fault (List (List Char)) := do
  let s ← Scan.runFrom 0 { chars := text.toArray } text.length
  if s.key != .outside || s.quote.isSome then throw .malformed
  return Text.pieces '\n' s.chars.toList

end CodeSurvey.Toml
