import CodeSurvey.Calendar
import CodeSurvey.Number.Integer

/-!
The cursor of the scanner: a place in the text with its line and column. Besides the carriage return
and the line feed, the next line, the line separator and the paragraph separator end a line.

A scanner can fail. A document that breaks the rules of the format is malformed; the other faults
are scalars whose text does not say a value of their type.
-/

namespace CodeSurvey.Yaml

/-- A fault of a document. -/
inductive Fault where
  | malformed
  /-- An escape for a number beyond the last code point. -/
  | codePoint (code : Nat)
  | integer (e : Integer.Error)
  /-- A number without any text. -/
  | emptyNumber
  | float (text : List Char)
  | truth (text : List Char)
  | timestamp
  | calendar (e : Calendar.Error)
  deriving DecidableEq, Repr

/-- The words for a fault. -/
def Fault.message : Fault → String
  | malformed => "malformed document"
  | codePoint code =>
    if code < 0x80000000 then "chr() arg not in range(0x110000)"
    else "Python int too large to convert to C int"
  | integer e => e.message
  | emptyNumber => "string index out of range"
  | float text => "could not convert string to float: " ++ String.ofList (Text.quoted text)
  | truth text => String.ofList (Text.quoted text)
  | timestamp => "'NoneType' object has no attribute 'groupdict'"
  | calendar e => e.message

/-- A character that ends a line. -/
def isBreak (c : Char) : Bool :=
  c == '\n' || c == '\r' || c == '\u0085' || c == '\u2028' || c == '\u2029'

/-- A blank inside a line. -/
def isSpace (c : Char) : Bool := c == ' ' || c == '\t'

/-- What ends a word: a blank, a line end or the end of the text. -/
def endsWord : Option Char → Bool
  | none => true
  | some c => isSpace c || isBreak c

/-- A character of a name: a letter or a digit of ASCII, a hyphen or an underscore. -/
def isNameChar (c : Char) : Bool := c.isAlphanum || c == '-' || c == '_'

/-- A place in the text. -/
structure Cursor where
  rest : List Char
  index : Nat := 0
  line : Nat := 0
  column : Nat := 0

namespace Cursor

/-- The place after one more character. A byte order mark takes no column. -/
def next (c : Cursor) : Cursor :=
  match c.rest with
  | [] => c
  | x :: rest =>
    if isBreak x && !(x == '\r' && rest.head? == some '\n') then ⟨rest, c.index + 1, c.line + 1, 0⟩
    else ⟨rest, c.index + 1, c.line, if x == '\uFEFF' then c.column else c.column + 1⟩

/-- The place after so many more characters. -/
def forward : Nat → Cursor → Cursor
  | 0, c => c
  | n + 1, c => forward n c.next

/-- A mark of three characters stands here as a word. -/
def atMark (mark : String) (c : Cursor) : Bool :=
  mark.toList.isPrefixOf c.rest && endsWord (c.rest.drop 3).head?

/-- A line that begins here begins with the mark of a document. -/
def atDocumentMark (c : Cursor) : Bool := c.atMark "---" || c.atMark "..."

end Cursor

/-- Reads some of the text and answers, or finds a fault. -/
abbrev Scanner (α : Type) := StateT Cursor (Except Fault) α

namespace Scanner

/-- A document that breaks the rules. -/
def fail {α : Type} : Scanner α := throw .malformed

/-- The character here, none at the end. -/
def peek : Scanner (Option Char) := return (← get).rest.head?

/-- Moves past so many characters. -/
def skip (n : Nat) : Scanner Unit := modify (Cursor.forward n)

/-- Reads the characters of a set that stand here. -/
def takeWhile (set : Char → Bool) : Scanner (List Char) := do
  let piece := (← get).rest.takeWhile set
  skip piece.length
  return piece

/-- Reads a line end, if one stands here; all but the two separators count as line feeds. -/
def lineEnd? : Scanner (Option Char) := do
  match (← get).rest with
  | '\r' :: '\n' :: _ => skip 2; return some '\n'
  | c :: _ =>
    if c == '\u2028' || c == '\u2029' then skip 1; return some c
    else if isBreak c then skip 1; return some '\n'
    else return none
  | [] => return none

/-- Skips blanks and a comment up to the end of the line, and nothing else, then the line end. -/
def restOfLine : Scanner Unit := do
  let _ ← takeWhile (· == ' ')
  if (← peek) == some '#' then
    let _ ← takeWhile (!isBreak ·)
  if (← peek).all isBreak then
    let _ ← lineEnd?
  else fail

/-- A bound on what can be read: one more than the characters left. -/
def fuel : Scanner Nat := return (← get).rest.length + 1

end Scanner

end CodeSurvey.Yaml
