import CodeSurvey.Number.Double
import CodeSurvey.Number.Integer

/-!
Floating point numbers as texts: blanks around, a sign, digits with or without a point, an exponent;
or a word for infinity or for no number.
-/

namespace CodeSurvey.Decimal

/-- The decimal digits in front of a text, and what follows. -/
def digits (s : List Char) : List Nat × List Char :=
  let front := s.takeWhile fun c => (Text.digitValue? c).isSome
  (front.filterMap Text.digitValue?, s.drop front.length)

/-- An exponent up to the end of the text; an empty text is the exponent zero. -/
def exponent? : List Char → Option Int
  | [] => some 0
  | mark :: rest =>
    if mark == 'e' || mark == 'E' then
      let (negative, rest) := match rest with
        | '-' :: rest => (true, rest)
        | '+' :: rest => (false, rest)
        | rest => (false, rest)
      match digits rest with
      | ([], _) => none
      | (ds, []) =>
        let n : Int := Integer.valueOf 10 ds
        some (if negative then -n else n)
      | _ => none
    else none

/-- A number without its sign, in digits. -/
def ofDigits? (negative : Bool) (s : List Char) : Option Double :=
  let (whole, rest) := digits s
  let (fraction, rest) := match rest with
    | '.' :: rest => digits rest
    | rest => ([], rest)
  if whole.isEmpty && fraction.isEmpty then none
  else (exponent? rest).map fun exponent =>
    Double.ofDecimal negative (Integer.valueOf 10 (whole ++ fraction)) (exponent - fraction.length)

/-- The text is a word, in small or capital letters. -/
def isWord (word : String) (s : List Char) : Bool := s.map Char.toLower == word.toList

/-- Reads a floating point number. -/
def read? (text : List Char) : Option Double :=
  let (negative, rest) := match Integer.trim text with
    | '-' :: rest => (true, rest)
    | '+' :: rest => (false, rest)
    | rest => (false, rest)
  if isWord "inf" rest || isWord "infinity" rest then some (.infinite negative)
  else if isWord "nan" rest then some .nan
  else ofDigits? negative rest

/-- The text without the underscores between digits; none if an underscore stands elsewhere.
    `afterDigit` says that the last character was a digit. -/
def withoutMarks? (afterDigit : Bool) : List Char → Option (List Char)
  | [] => some []
  | c :: rest =>
    let isDigit := fun (d : Char) => (Text.digitValue? d).isSome
    if c == '_' then
      if afterDigit && rest.head?.any isDigit then withoutMarks? false rest else none
    else (withoutMarks? (isDigit c) rest).map (c :: ·)

/-- Reads a floating point number that may have single underscores between digits. -/
def readMarked? (text : List Char) : Option Double := (withoutMarks? false text).bind read?

end CodeSurvey.Decimal
