/-!
JSON documents and their printed form: two blanks per level, a member or element on its own line,
empty containers closed at once, and ASCII only, since every other character is escaped by its
UTF-16 units. Members keep their order.
-/

namespace CodeSurvey

/-- A JSON document. -/
inductive Json where
  | null
  | bool (b : Bool)
  | int (n : Int)
  /-- A number with a fraction or an exponent, by its text. -/
  | decimal (text : String)
  | string (s : String)
  | array (items : List Json)
  | object (members : List (String × Json))
  deriving Inhabited

namespace Json

/-- A list of texts. -/
def strings (items : List String) : Json := array (items.map string)

/-- A natural number. -/
def nat (n : Nat) : Json := int n

/-- A text or null. -/
def string? (s : Option String) : Json := s.elim null string

/-- The member of an object with this name. -/
def member? (name : String) : Json → Option Json
  | object members => members.lookup name
  | _ => none

/-- A hexadecimal digit, in small letters. -/
def hexDigit (n : Nat) : Char := if n < 10 then Char.ofNat (48 + n) else Char.ofNat (87 + n)

/-- An escape by a UTF-16 unit. -/
def escapeUnit (n : Nat) : List Char :=
  ['\\', 'u', hexDigit (n / 4096 % 16), hexDigit (n / 256 % 16), hexDigit (n / 16 % 16),
    hexDigit (n % 16)]

/-- A character inside quotes: printable ASCII as it is, the common controls by a letter, all else
    by one UTF-16 unit or two. -/
def escapeChar (c : Char) : List Char :=
  let n := c.toNat
  if c == '"' then ['\\', '"']
  else if c == '\\' then ['\\', '\\']
  else if 32 ≤ n && n < 127 then [c]
  else if c == '\n' then ['\\', 'n']
  else if c == '\r' then ['\\', 'r']
  else if c == '\t' then ['\\', 't']
  else if n == 8 then ['\\', 'b']
  else if n == 12 then ['\\', 'f']
  else if n < 0x10000 then escapeUnit n
  else escapeUnit (0xD800 + (n - 0x10000) / 0x400) ++ escapeUnit (0xDC00 + (n - 0x10000) % 0x400)

/-- A text in quotes. -/
def quoted (s : String) : String :=
  String.ofList ('"' :: s.toList.flatMap escapeChar ++ ['"'])

/-- A line end and the indentation of a level. -/
def lineBreak (level : Nat) : String := String.ofList ('\n' :: List.replicate (2 * level) ' ')

mutual

/-- The printed form of a document that stands at a level. -/
def renderAt (level : Nat) : Json → String
  | null => "null"
  | bool b => if b then "true" else "false"
  | int n => toString n
  | decimal text => text
  | string s => quoted s
  | array [] => "[]"
  | array (item :: more) =>
    "[" ++ lineBreak (level + 1) ++ renderAt (level + 1) item ++ renderItems (level + 1) more ++
      lineBreak level ++ "]"
  | object [] => "\x7b\x7d"
  | object (m :: more) =>
    "\x7b" ++ lineBreak (level + 1) ++ quoted m.1 ++ ": " ++ renderAt (level + 1) m.2 ++
      renderMembers (level + 1) more ++ lineBreak level ++ "\x7d"

/-- The elements after the first. -/
def renderItems (level : Nat) : List Json → String
  | [] => ""
  | item :: more => "," ++ lineBreak level ++ renderAt level item ++ renderItems level more

/-- The members after the first. -/
def renderMembers (level : Nat) : List (String × Json) → String
  | [] => ""
  | m :: more =>
    "," ++ lineBreak level ++ quoted m.1 ++ ": " ++ renderAt level m.2 ++
      renderMembers level more

end

/-- The printed form of a document. -/
def render (j : Json) : String := renderAt 0 j

end Json

end CodeSurvey
