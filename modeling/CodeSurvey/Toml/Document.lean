import CodeSurvey.Toml.Lines
import CodeSurvey.Toml.Value

/-!
The table of a configuration. Headers choose the place that the entries after them go to, and open
tables, or elements of arrays of tables, on the way. A table that a header opened only on the way
may have one header of its own later.
-/

namespace CodeSurvey.Toml

/-- A configuration being read. -/
structure Document where
  root : Data := .map []
  /-- The place that entries go to. -/
  place : List Step := []
  /-- The names of tables that headers opened only on the way. -/
  implicit : List (List Char) := []
  openText : Option OpenText := none

namespace Document

/-- The value at the place that entries go to. -/
def level (d : Document) : Data := (Level.follow? d.place d.root).getD .null

/-- Changes the value at the place that entries go to. -/
def withLevel (d : Document) (level : Data) : Document :=
  { d with root := Level.change (fun _ => level) d.place d.root }

/-- The letters, digits, underscores and hyphens that a name without quotes has. -/
def isBareName (s : List Char) : Bool :=
  !s.isEmpty && s.all fun c => c.isAlphanum || c == '_' || c == '-'

/-- The name in quotes is closed. -/
def isClosedName (s : List Char) : Bool := s.length != 1 && s.head? == s.getLast?

/-- The names in the parts of a header; a name in quotes, `quoted`, may go on over points. -/
def headerNames (quoted : Option (List Char)) : List (List Char) → Except Fault (List (List Char))
  | [] => if quoted.isSome then .error .malformed else .ok []
  | part :: more => do
    let part := quoted.elim (Text.trim part) fun q => q ++ '.' :: part
    let name := Text.trim part
    if name.head?.any isQuote then
      if isClosedName name then return inner name :: (← headerNames none more)
      headerNames (some part) more
    else if isBareName name then return name :: (← headerNames none more)
    else throw .malformed

/-- The names of a header and whether it is one of an element of an array. -/
def header (line : List Char) : Except Fault (Bool × List (List Char)) := do
  let rest := line.tail
  if rest.isEmpty then throw .malformed
  let isElement := rest.head? == some '['
  let rest := if isElement then rest.tail else rest
  let close := if isElement then [']', ']'] else [']']
  let cuts := cutsBefore close rest
  let parts := Text.splitFirst close cuts rest
  if parts.length < cuts + 1 || !(Text.trim (parts.getLastD [])).isEmpty then throw .malformed
  return (isElement, ← headerNames none (Text.pieces '.' (Text.join close parts.dropLast)))

/-- The document one name of a header further down, and the value there. -/
def descend (isElement isLast : Bool) (name : List Char) (d : Document) (here : Data) :
    Except Fault (Document × Data) := do
  if name.isEmpty then throw .malformed
  let fresh : Data := if isLast && isElement then .list [.map []] else .map []
  let mut d := d
  let mut below := here
  match here with
  | .map _ =>
    match ← Level.get name here with
    | some found =>
      below := found
      if isLast then
        if d.implicit.contains name then
          if isElement then throw .malformed
          d := { d with implicit := d.implicit.erase name }
        else
          if !isElement then throw .malformed
          match found with
          | .list items => below := .list (items ++ [.map []])
          | _ => throw .notAList
    | none =>
      below := fresh
      if !isLast then d := { d with implicit := d.implicit ++ [name] }
    d := d.withLevel (← Level.put name below here)
  | _ =>
    let inside := (← Level.last here).getD here
    d := { d with place := d.place ++ [.last] }
    if ← Level.has name inside then below := (← Level.get name inside).getD fresh
    else
      below := fresh
      d := d.withLevel (← Level.put name below inside)
  d := { d with place := d.place ++ [.named name] }
  if isElement then
    match ← Level.last below with
    | some element => return ({ d with place := d.place ++ [.last] }, element)
    | none => return (d, below)
  return (d, below)

/-- The document behind a header with these names. -/
def openTables (isElement : Bool) : List (List Char) → Document → Data → Except Fault Document
  | [], d, _ => .ok d
  | name :: more, d, here => do
    let (d, here) ← descend isElement more.isEmpty name d here
    openTables isElement more d here

/-- The document after one more line of an open text. -/
def continueText (d : Document) (t : OpenText) (line : List Char) : Except Fault Document := do
  let content := t.content ++ line
  let first := content.head?
  if first == some '[' && line.isEmpty then throw .pastText
  let isClosed := if first == some '[' then line.getLast? == some ']'
    else 2 < line.length && (line.reverse.take 3).all fun c => some c == first
  if isClosed then
    let found ← value true content
    return { d.withLevel (← Level.put t.name found d.level) with openText := none }
  let isEscaping := endsEscaping content
  let content := if isEscaping then content.dropLast else content ++ ['\n']
  return { d with openText := some { t with content, isEscaping } }

/-- The document after a line that begins no text. -/
def plainLine (d : Document) (line : List Char) : Except Fault Document := do
  if line.head? == some '[' then
    let (isElement, names) ← header line
    openTables isElement names { d with place := [] } d.root
  else if line.head? == some '\x7b' then
    if line.getLast? != some '\x7d' then throw .malformed
    return d.withLevel (← enterAll value (← entryTexts line) d.level)
  else if line.contains '=' then
    let (level, openText) ← enterLine value line d.level
    return { d.withLevel level with openText }
  else return d

/-- The document after one more line. -/
def addLine (d : Document) (line : List Char) : Except Fault Document :=
  match d.openText with
  | none =>
    let line := Text.trim line
    if line.isEmpty then .ok d else plainLine d line
  | some t =>
    let line := if t.isEscaping || !t.content.contains '\n' then Text.trim line else line
    if line.isEmpty && t.isEscaping then .ok d else continueText d t line

end Document

/-- The table of a configuration. -/
def load (text : List Char) : Except Fault (List (Data × Data)) := do
  let d ← (← lines text).foldlM Document.addLine {}
  match d.root with
  | .map entries => return entries
  | _ => throw .malformed

end CodeSurvey.Toml
