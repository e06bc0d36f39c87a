import CodeSurvey.Display.Markup
import CodeSurvey.Display.Wrap

/-!
Tables in boxes. The header stands between heavy lines, the rows between light ones, and every
column is as wide as its widest cell, with a blank on either side. A title stands centred above the
table, broken to its width. All texts are marked texts.
-/

namespace CodeSurvey.Display

/-- A column of a table. -/
structure Column where
  title : String
  /-- The cells stand at the right side. -/
  toRight : Bool := false

/-- A table. -/
structure Table where
  title : Option String := none
  columns : List Column
  rows : List (List String)

namespace Table

/-- A column with the lines of its header and of its cells. -/
structure Laid where
  toRight : Bool
  cells : List (List (List Char))

/-- The width of a column. -/
def Laid.width (l : Laid) : Nat := ((l.cells.flatten).map Display.width).foldl max 0

/-- A column of cells, the header first, without its tags. -/
def lay (toRight : Bool) (cells : List String) : Except MarkupFault Laid := do
  let texts ← cells.mapM fun cell => shown cell.toList
  return ⟨toRight, texts.map (Text.pieces '\n')⟩

/-- The columns of a table. -/
def laid (t : Table) : Except MarkupFault (List Laid) :=
  (t.columns.zipIdx).mapM fun (c, i) =>
    lay c.toRight (c.title :: t.rows.map fun row => row.getD i "")

/-- A horizontal line: the character at its left end, the one it is made of, the one where columns
    meet, and the one at its right end. -/
def rule (left line middle right : Char) (columns : List Laid) : List Char :=
  left :: Text.join [middle] (columns.map fun l => List.replicate (l.width + 2) line) ++ [right]

/-- One line of a row; `edge` stands beside every cell. -/
def rowLine (edge : Char) (columns : List Laid) (row line : Nat) : List Char :=
  edge :: columns.flatMap fun l =>
    let text := (((l.cells.getD row []).getD line []))
    ' ' :: padded l.width l.toRight text ++ [' ', edge]

/-- The lines of a row. -/
def rowLines (edge : Char) (columns : List Laid) (row : Nat) : List (List Char) :=
  let height := (columns.map fun l => (l.cells.getD row []).length).foldl max 1
  (List.range height).map (rowLine edge columns row)

/-- A line centred in a width; of the blanks left over the smaller half stands in front. -/
def centred (columns : Nat) (line : List Char) : List Char :=
  List.replicate ((columns - width line) / 2) ' ' ++ line

/-- The text of a table, with a line end behind every line. -/
def render (t : Table) : Except MarkupFault (List Char) := do
  let columns ← t.laid
  let total := 1 + (columns.map fun l => l.width + 3).foldr (· + ·) 0
  let title ← match t.title with
    | none => pure []
    | some title => do pure ((wrap total (← shown title.toList)).map (centred total))
  let rows := (List.range t.rows.length).flatMap fun i => rowLines '│' columns (i + 1)
  let lines := title ++ rule '┏' '━' '┳' '┓' columns :: rowLines '┃' columns 0 ++
    rule '┡' '━' '╇' '┩' columns :: rows ++ [rule '└' '─' '┴' '┘' columns]
  return lines.flatMap (· ++ ['\n'])

end Table

/-- The columns of the terminal. -/
def terminalWidth : Nat := 120

/-- A marked text as it is printed: broken to the terminal, with a line end behind every line. -/
def printed (s : String) : Except MarkupFault (List Char) := do
  return (wrap terminalWidth (← shown s.toList)).flatMap (· ++ ['\n'])

end CodeSurvey.Display
