import CodeSurvey.Text.Basic

/-!
Breaking lines to a width. A text takes one column of a terminal for most characters, two for wide
ones, and none for marks that stand on others and for controls. Words go on the current line while
they fit and begin a new one otherwise; a word that fits on no line is broken wherever a line is
full. Blanks stay behind the word that they follow, and those at the end of a line are not kept.
-/

namespace CodeSurvey.Display

/-- The first and the last character of each run of wide ones. -/
def wideRanges : List (Nat × Nat) := [
  (0x1100, 0x115F), (0x231A, 0x231B), (0x2329, 0x232A), (0x23E9, 0x23EC), (0x23F0, 0x23F0),
  (0x23F3, 0x23F3), (0x25FD, 0x25FE), (0x2614, 0x2615), (0x2648, 0x2653), (0x267F, 0x267F),
  (0x2693, 0x2693), (0x26A1, 0x26A1), (0x26AA, 0x26AB), (0x26BD, 0x26BE), (0x26C4, 0x26C5),
  (0x26CE, 0x26CE), (0x26D4, 0x26D4), (0x26EA, 0x26EA), (0x26F2, 0x26F3), (0x26F5, 0x26F5),
  (0x26FA, 0x26FA), (0x26FD, 0x26FD), (0x2705, 0x2705), (0x270A, 0x270B), (0x2728, 0x2728),
  (0x274C, 0x274C), (0x274E, 0x274E), (0x2753, 0x2755), (0x2757, 0x2757), (0x2795, 0x2797),
  (0x27B0, 0x27B0), (0x27BF, 0x27BF), (0x2B1B, 0x2B1C), (0x2B50, 0x2B50), (0x2B55, 0x2B55),
  (0x2E80, 0x303E), (0x3041, 0x3247), (0x3250, 0x4DBF), (0x4E00, 0xA4CF), (0xA960, 0xA97C),
  (0xAC00, 0xD7A3), (0xF900, 0xFAFF), (0xFE10, 0xFE19), (0xFE30, 0xFE6B), (0xFF01, 0xFF60),
  (0xFFE0, 0xFFE6), (0x16FE0, 0x1B2FB), (0x1F004, 0x1F004), (0x1F0CF, 0x1F0CF),
  (0x1F18E, 0x1F18E), (0x1F191, 0x1F19A), (0x1F200, 0x1F320), (0x1F32D, 0x1F335),
  (0x1F337, 0x1F37C), (0x1F37E, 0x1F393), (0x1F3A0, 0x1F3CA), (0x1F3CF, 0x1F3D3),
  (0x1F3E0, 0x1F3F0), (0x1F3F4, 0x1F3F4), (0x1F3F8, 0x1F43E), (0x1F440, 0x1F440),
  (0x1F442, 0x1F4FC), (0x1F4FF, 0x1F53D), (0x1F54B, 0x1F54E), (0x1F550, 0x1F567),
  (0x1F57A, 0x1F57A), (0x1F595, 0x1F596), (0x1F5A4, 0x1F5A4), (0x1F5FB, 0x1F64F),
  (0x1F680, 0x1F6C5), (0x1F6CC, 0x1F6CC), (0x1F6D0, 0x1F6D2), (0x1F6D5, 0x1F6DF),
  (0x1F6EB, 0x1F6EF), (0x1F6F4, 0x1F6FF), (0x1F7E0, 0x1F7F0), (0x1F90C, 0x1F93A),
  (0x1F93C, 0x1F945), (0x1F947, 0x1F9FF), (0x1FA70, 0x1FAFF), (0x20000, 0x3FFFD)]

/-- The first and the last character of each run that takes no column. -/
def emptyRanges : List (Nat × Nat) := [
  (0x0, 0x1F), (0x7F, 0x9F), (0x300, 0x36F), (0x483, 0x489), (0x591, 0x5BD), (0x610, 0x61A),
  (0x64B, 0x65F), (0x1AB0, 0x1AFF), (0x1DC0, 0x1DFF), (0x200B, 0x200F), (0x2028, 0x202E),
  (0x2060, 0x2064), (0x20D0, 0x20FF), (0x302A, 0x302D), (0x3099, 0x309A), (0xFE00, 0xFE0F),
  (0xFE20, 0xFE2F), (0xE0100, 0xE01EF)]

/-- The number of columns of a character. -/
def charWidth (c : Char) : Nat :=
  let within := fun (r : Nat × Nat) => r.1 ≤ c.toNat && c.toNat ≤ r.2
  if 0x20 ≤ c.toNat && c.toNat < 0x7F then 1
  else if emptyRanges.any within then 0 else if wideRanges.any within then 2 else 1

/-- The number of columns of a text. -/
def width (s : List Char) : Nat := (s.map charWidth).foldr (· + ·) 0

/-- The text with blanks up to a number of columns behind it, or in front of it. -/
def padded (columns : Nat) (toRight : Bool) (s : List Char) : List Char :=
  let blanks := List.replicate (columns - width s) ' '
  if toRight then blanks ++ s else s ++ blanks

/-- The words of a line, each with the blanks behind it, the first one also with those in front;
    `current` is what was read of a word, last character first, and `hasWord` says that not only
    blanks were read. -/
def spacedWords (current : List Char) (hasWord : Bool) : List Char → List (List Char)
  | [] => if hasWord then [current.reverse] else []
  | c :: rest =>
    if Text.isBlank c then spacedWords (c :: current) hasWord rest
    else if hasWord && current.head?.any Text.isBlank then
      current.reverse :: spacedWords [c] true rest
    else spacedWords (c :: current) true rest

/-- A text cut into pieces as wide as allowed; `current` is the piece being read, last character
    first, of which `used` columns are taken. -/
def chopped (columns : Nat) (current : List Char) (used : Nat) : List Char → List (List Char)
  | [] => [current.reverse]
  | c :: rest =>
    if columns < used + charWidth c then
      current.reverse :: chopped columns [c] (charWidth c) rest
    else chopped columns (c :: current) (used + charWidth c) rest

/-- Lines being filled. -/
structure Filling where
  /-- The lines that are full. -/
  full : List (List Char) := []
  line : List Char := []

/-- The lines with one more word. -/
def Filling.add (columns : Nat) (f : Filling) (word : List Char) : Filling :=
  let needed := width (Text.trimRight word)
  if width f.line + needed ≤ columns then { f with line := f.line ++ word }
  else
    let full := if f.line.isEmpty then f.full else f.full ++ [f.line]
    if columns < needed then
      let parts := chopped columns [] 0 word
      ⟨full ++ parts.dropLast, parts.getLastD []⟩
    else ⟨full, word⟩

/-- One line broken to a width. -/
def wrapLine (columns : Nat) (line : List Char) : List (List Char) :=
  let f := (spacedWords [] false line).foldl (Filling.add columns) {}
  (f.full ++ [f.line]).map Text.trimRight

/-- The lines of a text, each broken to a width. -/
def wrap (columns : Nat) (s : List Char) : List (List Char) :=
  (Text.pieces '\n' s).flatMap (wrapLine columns)

end CodeSurvey.Display
