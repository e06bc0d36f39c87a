import CodeSurvey.Text.Basic

/-!
Marked text. A tag in brackets, which begins with a small letter, a number sign, a slash or an at
sign, says how the text up to its closing tag looks; what is shown has no tags. A backslash in front
of a bracket takes its meaning away. Every closing tag must have an open one, and the closing tag
without a name closes the last one.
-/

namespace CodeSurvey.Display

/-- Why a marked text cannot be shown. -/
inductive MarkupFault where
  /-- A closing tag, at a place, has no open one. -/
  | unmatched (tag : List Char) (place : Nat)
  /-- A closing tag without a name, at a place, has nothing to close. -/
  | nothingOpen (place : Nat)
  deriving DecidableEq, Repr

/-- The words for a fault. -/
def MarkupFault.message : MarkupFault → String
  | unmatched tag place =>
    s!"closing tag '[{String.ofList tag}]' at position {place} doesn't match any open tag"
  | nothingOpen place => s!"closing tag '[/]' at position {place} has nothing to close"

/-- The tag behind an opening bracket. -/
def tagBehind? (s : List Char) : Option (List Char) :=
  let tag := s.takeWhile fun c => c != ']' && c != '['
  let begins := tag.head?.any fun c =>
    ('a' ≤ c && c ≤ 'z') || c == '#' || c == '/' || c == '@'
  if begins && (s.drop tag.length).head? == some ']' then some tag else none

/-- The name of a tag, which a value may follow. -/
def tagName (tag : List Char) : List Char :=
  (Text.trim (tag.takeWhile (· != '='))).map Char.toLower

/-- The open tags, the last one first, after a tag at a place. -/
def afterTag (isOpen : List (List Char)) (tag : List Char) (place : Nat) :
    Except MarkupFault (List (List Char)) :=
  if tag.head? != some '/' then .ok (tagName tag :: isOpen)
  else
    let name := tagName tag.tail
    if name.isEmpty then
      if isOpen.isEmpty then .error (.nothingOpen place) else .ok isOpen.tail
    else if isOpen.contains name then .ok (isOpen.erase name)
    else .error (.unmatched tag place)

/-- A control character that is not shown. -/
def isUnseen (c : Char) : Bool :=
  let n := c.toNat
  n == 7 || n == 8 || n == 11 || n == 12 || n == 13

/-- What is shown of a marked text from a place on: after `slashes` backslashes that may belong to a
    tag, and a number of characters that are done with. -/
def shownFrom (isOpen : List (List Char)) (place slashes done : Nat) :
    List Char → Except MarkupFault (List Char)
  | [] => .ok (List.replicate slashes '\\')
  | c :: rest =>
    match done with
    | done + 1 => shownFrom isOpen (place + 1) 0 done rest
    | 0 =>
      if c == '\\' then shownFrom isOpen (place + 1) (slashes + 1) 0 rest
      else match if c == '[' then tagBehind? rest else none with
        | some tag => do
          let front := List.replicate (slashes / 2) '\\'
          if slashes % 2 == 1 then
            return front ++ '[' :: tag ++ ']' ::
              (← shownFrom isOpen (place + 1) 0 (tag.length + 1) rest)
          let isOpen ← afterTag isOpen tag place
          return front ++ (← shownFrom isOpen (place + 1) 0 (tag.length + 1) rest)
        | none => do
          let kept := if c == '[' then slashes - 1 else slashes
          let rest ← shownFrom isOpen (place + 1) 0 0 rest
          return List.replicate kept '\\' ++ (if isUnseen c then rest else c :: rest)

/-- What is shown of a marked text. -/
def shown (s : List Char) : Except MarkupFault (List Char) := shownFrom [] 0 0 0 s

end CodeSurvey.Display
