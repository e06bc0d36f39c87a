import CodeSurvey.Pattern.Search

/-!
The types of nodes. A node without a tag has the type that its text shows: a plain scalar may be
null, a truth value, a number or a timestamp, and is a text if it is nothing else.
-/

namespace CodeSurvey.Yaml

/-- The type of a node. -/
inductive Tag where
  | null
  | bool
  | int
  | float
  | binary
  | timestamp
  | orderedMap
  | pairs
  | set
  | text
  | sequence
  | mapping
  /-- A key whose value is merged into the mapping. -/
  | merge
  /-- A key whose value stands for the whole mapping. -/
  | default
  | unknown
  deriving DecidableEq, Repr

namespace Tag

open Pattern

/-- The tags of the common types share a front. -/
def front : String := "tag:yaml.org,2002:"

/-- The last parts of the tags of the types. -/
def byName : List (String × Tag) := [
  ("null", null), ("bool", bool), ("int", int), ("float", float), ("binary", binary),
  ("timestamp", timestamp), ("omap", orderedMap), ("pairs", pairs), ("set", set), ("str", text),
  ("seq", sequence), ("map", mapping), ("merge", merge), ("value", default)]

/-- The type that a tag names. -/
def named (tag : List Char) : Tag :=
  let front := front.toList
  if front.isPrefixOf tag then
    (byName.lookup (String.ofList (tag.drop front.length))).getD unknown
  else unknown

/-- Decimal digits of ASCII. -/
def isDecimal (c : Char) : Bool := c.isDigit

/-- A decimal digit. -/
def digit : Pattern := one isDecimal

/-- Decimal digits and underscores, as many as there are. -/
def moreDigits : Pattern := many true 0 fun c => c.isDigit || c == '_'

/-- A sign, if there is one. -/
def sign : Pattern := maybe (one (among "+-"))

/-- A part of a number in base sixty behind its colon. -/
def sixtieths : Pattern := seq [lit ":", maybe (one (among "012345")), digit]

/-- One of these texts. -/
def anyOf (texts : List String) : Pattern := oneOf (texts.map lit)

/-- The truth values. -/
def truthText : Pattern := anyOf [
  "yes", "Yes", "YES", "no", "No", "NO", "true", "True", "TRUE", "false", "False", "FALSE",
  "on", "On", "ON", "off", "Off", "OFF"]

/-- Floating point numbers. They have a point, and an exponent has a sign. -/
def floatText : Pattern :=
  let exponent := maybe (seq [one (among "eE"), one (among "+-"), many true 1 isDecimal])
  oneOf [
    seq [sign, digit, moreDigits, lit ".", moreDigits, exponent],
    seq [lit ".", digit, moreDigits, exponent],
    seq [sign, digit, moreDigits, sixtieths, star sixtieths, lit ".", moreDigits],
    seq [sign, lit ".", anyOf ["inf", "Inf", "INF"]],
    seq [lit ".", anyOf ["nan", "NaN", "NAN"]]]

/-- Whole numbers in base two, eight, ten, sixteen or sixty. -/
def intText : Pattern :=
  let positive := one fun c => c.isDigit && c != '0'
  oneOf [
    seq [sign, lit "0b", many true 1 (among "01_")],
    seq [sign, lit "0", many true 1 (among "01234567_")],
    seq [sign, alt (lit "0") (seq [positive, moreDigits])],
    seq [sign, lit "0x", many true 1 fun c => c.isDigit || among "abcdefABCDEF_" c],
    seq [sign, positive, moreDigits, sixtieths, star sixtieths]]

/-- Null. -/
def nullText : Pattern := anyOf ["~", "null", "Null", "NULL", ""]

/-- Two digits. -/
def twoDigits : Pattern := seq [digit, digit]

/-- One digit or two. -/
def shortNumber : Pattern := seq [digit, maybe digit]

/-- A year. -/
def year : Pattern := seq [twoDigits, twoDigits]

/-- A time of day behind its date, with a fraction and an offset; the groups 4 to 11 are hour,
    minute, second, fraction, zone, sign, hours and minutes of the offset. -/
def clock : Pattern :=
  let spaces := many true 0 (among " \t")
  seq [
    alt (one (among "Tt")) (many true 1 (among " \t")), group 4 shortNumber, lit ":",
    group 5 twoDigits, lit ":", group 6 twoDigits,
    maybe (seq [lit ".", group 7 (many true 0 isDecimal)]),
    maybe (seq [spaces, group 8 (alt (lit "Z")
      (seq [group 9 (one (among "+-")), group 10 shortNumber,
        maybe (seq [lit ":", group 11 twoDigits])]))])]

/-- Dates of eight digits, and dates with a time of day. -/
def timestampText : Pattern :=
  alt (seq [year, lit "-", twoDigits, lit "-", twoDigits])
    (seq [year, lit "-", shortNumber, lit "-", shortNumber, clock])

/-- The types that the texts of plain scalars show, each with the characters that such a text may
    begin with. The first one that fits counts. -/
def shown : List (Tag × String × Pattern) := [
  (bool, "yYnNtTfFoO", truthText), (float, "-+0123456789.", floatText),
  (int, "-+0123456789", intText), (merge, "<", lit "<<"), (null, "~nN", nullText),
  (timestamp, "0123456789", timestampText), (default, "=", lit "="),
  (unknown, "!&*", one (among "!&*"))]

/-- The type that the text of a plain scalar shows. -/
def ofText (s : List Char) : Tag :=
  match s with
  | [] => null
  | c :: _ =>
    let fits := fun (entry : Tag × String × Pattern) =>
      entry.2.1.toList.contains c && ((seq [entry.2.2, textEnd]).matchStart? s).isSome
    (shown.find? fits).elim text (·.1)

end Tag

end CodeSurvey.Yaml
