import CodeSurvey.Number.Integer
import CodeSurvey.Text.Basic
import CodeSurvey.Text.Quoted
import CodeSurvey.Toml.Fault

/-!
Texts in quotes: where they lie in a line, and what they say.

The parts of a line between its quotes lie outside and inside of texts in turn; only up to the first
double quote does the other kind of quote cut as well.

Escapes for numbered characters are replaced before all others, so that a numbered backslash begins
another escape. A written text has an escape wherever its quoted form has one; those for characters
below 256 get the form that the format knows, which goes wrong next to a backslash.
-/

namespace CodeSurvey.Toml

/-- The parts between single quotes, while the last of them lies in a text that the parts between
    double quotes, `more`, go on with; and the parts not used. -/
def joinQuoted (parts : List (List Char)) :
    List (List Char) → List (List Char) × List (List Char)
  | [] => (parts, [])
  | next :: more =>
    if parts.length % 2 == 0 then
      let last := parts.getLast?.getD [] ++ '"' :: next
      let parts := parts.dropLast ++ (if last.contains '\'' then Text.pieces '\'' last else [last])
      joinQuoted parts more
    else (parts, next :: more)

/-- The parts of a line between its quotes. -/
def quoteParts (line : List Char) : List (List Char) :=
  let doubles := Text.pieces '"' line
  let first := doubles.headD []
  let (front, rest) :=
    if 1 < doubles.length && first.contains '\'' then
      joinQuoted (Text.pieces '\'' first) doubles.tail
    else ([], doubles)
  match rest with
  | [] => front
  | part :: more => front ++ Text.pieces '\'' part ++ more

/-- How often a separator stands in texts in front of its first place outside of them. -/
def quotedCount (sep : List Char) (isQuoted : Bool) : List (List Char) → Nat
  | [] => 0
  | part :: more =>
    if !isQuoted && Text.hasInfix sep part then 0
    else (Text.splitAll sep part).length - 1 + quotedCount sep (!isQuoted) more

/-- The number of cuts that end a line's part in front of a separator outside of texts. -/
def cutsBefore (sep line : List Char) : Nat := 1 + quotedCount sep false (quoteParts line)

/-! ### Escapes -/

/-- The character that an escape stands for. -/
def escaped? : Char → Option Char
  | '0' => some '\x00'
  | 'b' => some '\x08'
  | 'f' => some '\x0c'
  | 'n' => some '\n'
  | 'r' => some '\r'
  | 't' => some '\t'
  | '"' => some '"'
  | _ => none

/-- The text ends in an odd number of backslashes. -/
def endsEscaping (s : List Char) : Bool := (s.reverse.takeWhile (· == '\\')).length % 2 == 1

/-- The parts behind backslashes begin with letters of escapes; behind an empty part, which two
    backslashes make, anything may stand. -/
def escapesKnown (isFree : Bool) : List (List Char) → Bool
  | [] => true
  | [] :: more => escapesKnown (!isFree) more
  | (c :: _) :: more =>
    ((escaped? c).isSome || c == 'u' || c == 'U' || isFree) && escapesKnown false more

/-- A digit of a numbered escape. -/
def isHexDigit (c : Char) : Bool := c.isDigit || ('a' ≤ c && c ≤ 'f') || ('A' ≤ c && c ≤ 'F')

/-- The character with the number in the digits of an escape. -/
def numbered (digits : List Char) : Except Fault Char := do
  if !digits.all isHexDigit then throw .malformed
  match digits with
  | [] => throw .pastText
  | first :: second =>
    if first.toLower == 'd' then
      match second with
      | [] => throw .pastText
      | c :: _ => if !('0' ≤ c && c ≤ '7') then throw .malformed
  let n := Integer.valueOf 16 (digits.filterMap Integer.digit?)
  if 0x80000000 ≤ n then throw .codeTooLarge
  if h : n.isValidChar then return Char.ofNatAux n h
  throw .malformed

/-- The text with the numbered escapes replaced that begin with `mark` and have `places` digits;
    the parts are those behind the marks, and `isSkipped` says that the mark is no escape. -/
def numberedEscapes (mark : List Char) (places : Nat) (isSkipped : Bool) :
    List (List Char) → Except Fault (List Char)
  | [] => .ok []
  | part :: more =>
    if isSkipped then do
      return mark ++ part ++ (← numberedEscapes mark places (endsEscaping part) more)
    else do
      let c ← numbered (part.take places)
      return c :: part.drop places ++ (← numberedEscapes mark places false more)

/-- The text with the numbered escapes of one kind replaced. -/
def withNumbered (mark : Char) (places : Nat) (s : List Char) : Except Fault (List Char) :=
  match Text.splitAll ['\\', mark] s with
  | [] => .ok s
  | front :: parts => do
    return front ++ (← numberedEscapes ['\\', mark] places (endsEscaping front) parts)

/-- The text with the escapes of one letter replaced; numbered escapes that are left stay. -/
def unescape : List Char → Except Fault (List Char)
  | [] => .ok []
  | ['\\'] => .ok ['\\']
  | '\\' :: c :: rest => do
    let rest ← unescape rest
    match escaped? c with
    | some d => return d :: rest
    | none =>
      if c == '\\' then return '\\' :: rest
      if c == 'u' || c == 'U' then return '\\' :: c :: rest
      throw .malformed
  | c :: rest => do return c :: (← unescape rest)

/-- The text with every escape replaced. -/
def withoutEscapes (s : List Char) : Except Fault (List Char) := do
  if !escapesKnown false (Text.pieces '\\' s).tail then throw .malformed
  unescape (← withNumbered 'U' 8 (← withNumbered 'u' 4 s))

/-- The letters that replace the `x` of an escape behind a part of a quoted text: those of a
    numbered escape if the part ends in a backslash that is not escaped and does not begin the part.
    -/
def joinerBehind (part : List Char) : List Char :=
  let slashes := (part.reverse.takeWhile (· == '\\')).length
  let turns := if slashes == part.length then slashes - 1 else slashes
  if (slashes == 0) != (turns % 2 == 1) then ['x'] else "u00".toList

/-- A text with every occurrence of another one in it replaced. -/
def replaceAll (old new s : List Char) : List Char := Text.join new (Text.splitAll old s)

/-- Joins the parts of a quoted text between its two-digit escapes. -/
def joinEscapes (first : List Char) : List (List Char) → List Char
  | [] => first
  | second :: more =>
    let first := replaceAll ['\\', '\\'] ['\\'] first
    joinEscapes (first ++ joinerBehind first ++ second) more

/-- A text between double quotes. One that begins with its only two-digit escape cannot be written.
    -/
def written (s : List Char) : Except Fault (List Char) := do
  let inner := match Text.quoted s with
    | '\'' :: rest => replaceAll ['"'] ['\\', '"'] (replaceAll ['\\', '\''] ['\''] rest.dropLast)
    | other => other.tail.dropLast
  let content ← match Text.splitAll ['\\', 'x'] inner with
    | [[], _] => throw .pastList
    | [] :: second :: more => pure (joinEscapes second more)
    | first :: more => pure (joinEscapes first more)
    | [] => pure []
  return '"' :: content ++ ['"']

end CodeSurvey.Toml
