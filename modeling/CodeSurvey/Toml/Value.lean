import CodeSurvey.Number.Decimal
import CodeSurvey.Toml.Level
import CodeSurvey.Toml.Moment
import CodeSurvey.Toml.Quotes

/-!
The values of a configuration: texts, truth values, numbers, dates, times, arrays of values of one
sort, and tables between braces. The elements of an array and the entries of a table are cut at
commas first and put together again where a cut fell into a text.
-/

namespace CodeSurvey.Toml

/-- A quote of either kind. -/
def isQuote (c : Char) : Bool := c == '"' || c == '\''

/-- What lies between the first and the last character. -/
def inner (s : List Char) : List Char := s.tail.dropLast

/-- Nothing follows the end of a text whose parts between quotes these are. `quotes` counts the
    quotes in a row in a text with three quotes at either end. -/
def endsOnce (isTriple isClosed : Bool) (quotes : Nat) : List (List Char) → Bool
  | [] => true
  | [] :: more =>
    if isTriple then endsOnce isTriple isClosed (quotes + 1) more
    else endsOnce isTriple true quotes more
  | part :: more =>
    if endsEscaping part then endsOnce isTriple isClosed quotes more
    else if isClosed then false
    else if !isTriple || 1 < quotes then endsOnce isTriple true quotes more
    else endsOnce isTriple false 0 more

/-- The text that a value in quotes stands for. -/
def quotedText (quote : Char) (v : List Char) : Except Fault Data := do
  let isOnce := match Text.pieces quote v.tail with
    | [] :: [] :: more => endsOnce true false 0 more
    | parts => endsOnce false false 0 parts
  if !isOnce then throw .malformed
  let v ← if quote == '"' then withoutEscapes v else pure v
  let isTriple := v[1]? == some quote && (v.length < 3 || v[1]? == v[2]?)
  return .text (String.ofList (inner (if isTriple then inner (inner v) else v)))

/-- A number as it should be written: no needless zero in front, and underscores between digits. -/
def isStrictNumber (s : List Char) : Bool :=
  let n := Text.trim s
  let rest := n.tail
  let isZeroLed := match n with
    | '0' :: c :: _ => !(c == '.' || c == 'o' || c == 'b' || c == 'x')
    | _ => false
  let isSigned := n.head? == some '+' || n.head? == some '-'
  let isSignedZeroLed := match rest with
    | '0' :: c :: _ => c != '.'
    | _ => false
  if n.isEmpty || n.head? == some '_' || n.getLast? == some '_' then false
  else if Text.hasInfix ['_', '.'] n || Text.hasInfix ['.', '_'] n then false
  else if rest.isEmpty then true
  else if isZeroLed || (isSigned && isSignedZeroLed) then false
  else !Text.hasInfix ['_', '_'] n

/-- A number. -/
def number (v : List Char) : Except Fault Data := do
  let (isNegative, v) := match v with
    | '-' :: rest => (true, rest)
    | '+' :: rest => (false, rest)
    | _ => (false, v)
  let v := v.filter (· != '_')
  let isFloat := v.contains '.' || (!v.contains 'x' && (v.contains 'e' || v.contains 'E'))
  if isFloat then
    if v.dropWhile (· != '.') == ['.'] || !v.head?.any Char.isDigit then throw .malformed
  if isFloat || Decimal.isWord "inf" v || Decimal.isWord "nan" v then
    match Decimal.read? v with
    | none => throw .malformed
    | some x => return .float (if isNegative && !x.equalsInt 0 then x.neg else x)
  match Integer.read .marked v with
  | .error _ => throw .malformed
  | .ok n => return .int (if isNegative then -n else n)

/-- A value that is neither a text nor made of values. -/
def plainValue (isStrict : Bool) (v : List Char) : Except Fault Data := do
  if v == "true".toList then return .bool true
  if v == "false".toList then return .bool false
  if Decimal.isWord "true" v || Decimal.isWord "false" v then throw .malformed
  match clock? v with
  | some (hour, minute, second, micros) =>
    match Calendar.time hour minute second micros with
    | .ok time => return .time time
    | .error _ => throw .malformed
  | none => pure ()
  match calendarValue? v with
  | some value => return value
  | none => if isStrict then number v else throw .malformed

/-- Values of one sort; a date and a moment are of one. -/
def isSameSort (a b : Data) : Bool :=
  let isDay := fun | Data.date _ | Data.moment _ => true | _ => false
  (isDay a && isDay b) || a.kindName == b.kindName

/-- The array in a text begins with a text. -/
def isTextArray (a : List Char) : Bool := (Text.trim (inner a)).head?.any isQuote

/-- A text that is empty, or ends with the character that it begins with, not escaped. -/
def isBounded (s : List Char) : Bool :=
  s.isEmpty || (s.getLast? == s.head? && !endsEscaping (inner s))

/-- An element of an array of texts was cut too early. -/
def isCut (part : List Char) : Bool :=
  let s := Text.trim part
  let back := s.reverse
  let isOpenTriple := match s with
    | a :: b :: c :: _ => a == b && b == c && back[1]? != some a && back[2]? != some a
    | _ => false
  !isBounded s || isOpenTriple

/-- The elements of an array of texts, of which the first is `part`, so far. The last one is not
    looked at, unless something was added to it. -/
def joinTexts (isJoined : Bool) (part : List Char) :
    List (List Char) → Except Fault (List (List Char))
  | [] => if isJoined && isCut part then .error .pastList else .ok [part]
  | next :: more =>
    if isCut part then joinTexts true (part ++ ',' :: next) more
    else do return part :: (← joinTexts false next more)

/-- Where the search for the tables in an array stands. -/
inductive Grouping where
  /-- Between tables; the next character is passed over if `isBehind`. -/
  | between (isBehind : Bool)
  | inside (read : List Char) (depth : Nat) (isText isEscaping : Bool)

/-- The tables between braces of an array. -/
def tablesFrom : Grouping → List Char → List (List Char)
  | _, [] => []
  | .between true, _ :: rest => tablesFrom (.between false) rest
  | .between false, c :: rest =>
    tablesFrom (if c == '\x7b' then .inside [c] 1 false false else .between false) rest
  | .inside read depth isText isEscaping, c :: rest =>
    let isText := if isQuote c && !(isText && isEscaping) then !isText else isText
    let depth := if !isText && c == '\x7b' then depth + 1 else depth
    let read := c :: read
    if isText || c != '\x7d' then
      tablesFrom (.inside read depth isText (c == '\\' && !isEscaping)) rest
    else if 1 < depth then tablesFrom (.inside read (depth - 1) isText false) rest
    else read.reverse :: tablesFrom (.between true) rest

/-- The tables in an array that begins with one. -/
def tablesIn : List Char → List (List Char)
  | [] => []
  | c :: rest => tablesFrom (.inside [c] (if c == '\x7b' then 1 else 0) false (c == '\\')) rest

/-- The pieces between the commas that lie outside of brackets. -/
def piecesOutside (depth : Int) : List Char → List (List Char)
  | [] => [[]]
  | c :: rest =>
    let depth := if c == '[' then depth + 1 else if c == ']' then depth - 1 else depth
    if c == ',' && depth == 0 then [] :: piecesOutside depth rest
    else match piecesOutside depth rest with
      | [] => [[c]]
      | piece :: more => (c :: piece) :: more

/-- The texts of the elements of an array. -/
def elementTexts (a : List Char) : Except Fault (List (List Char)) :=
  let body := inner a
  if body.contains '[' && body.head? == some '[' then .ok (piecesOutside 0 body)
  else if (Text.trim body).head? == some '\x7b' then .ok (tablesIn body)
  else
    let parts := Text.pieces ',' body
    if isTextArray a then joinTexts false (parts.headD []) parts.tail else .ok parts

/-- The elements of an array, all of the sort of the first one. -/
def elements (read : List Char → Except Fault Data) (first : Option Data) :
    List (List Char) → Except Fault (List Data)
  | [] => .ok []
  | part :: more =>
    let part := Text.trim part
    if part.isEmpty then elements read first more
    else do
      let value ← read part
      if !first.all (isSameSort value) then throw .malformed
      return value :: (← elements read (some (first.getD value)) more)

/-- The value of an entry of a table between braces was cut at its end, not within. -/
def isWhole (value : List Char) : Bool :=
  let first := value.headD ' '
  let final := value.getLastD ' '
  (isQuote first && first == final) || first == '-' || first.isDigit ||
    value == "true".toList || value == "false".toList ||
    (first == '[' && final == ']') || (first == '\x7b' && final == '\x7d')

/-- The entries of a table between braces, of which the first is `part`, so far. -/
def joinEntries (part : List Char) : List (List Char) → Except Fault (List (List Char))
  | [] => do
    let value := Text.trim (part.dropWhile (· != '=')).tail
    if !part.contains '=' then throw .malformed
    if value.isEmpty then throw .pastText
    if isWhole value then return [part]
    throw .malformed
  | next :: more => do
    let value := Text.trim (part.dropWhile (· != '=')).tail
    if !part.contains '=' then throw .malformed
    if value.isEmpty then throw .pastText
    if isWhole value then return part :: (← joinEntries next more)
    joinEntries (part ++ ',' :: next) more

/-- The texts of the entries of a table between braces. -/
def entryTexts (v : List Char) : Except Fault (List (List Char)) :=
  match Text.pieces ',' (inner v) with
  | [] => .ok []
  | [only] => if (Text.trim only).isEmpty then .ok [] else joinEntries only []
  | part :: more => joinEntries part more

/-- A text over several lines that is still open. -/
structure OpenText where
  name : List Char
  /-- What was read so far. -/
  content : List Char
  /-- The last line ended in a backslash that takes the line end away. -/
  isEscaping : Bool

/-- The part of an array of texts, open at its end, from the last text on. -/
def lastText (part : List Char) : List (List Char) → Except Fault (List Char)
  | [] => .ok part
  | before :: more =>
    match part with
    | [] => .error .pastText
    | c :: _ => if isQuote c then .ok part else lastText (before ++ ',' :: part) more

/-- The value is the beginning of a text over several lines, or of an array with one in the end. -/
def isOpenText (v : List Char) : Except Fault Bool := do
  if v.length < 3 then return false
  let isOpenArray := v.head? == some '[' && v.getLast? != some ']' && isTextArray v
  let p ← if isOpenArray then
      match (Text.pieces ',' (Text.trim v.tail)).reverse with
      | [] => pure []
      | final :: before => lastText final before
    else pure v
  match p with
  | [] => return false
  | q :: rest =>
    if !isQuote q then return false
    match rest with
    | [] => throw .pastText
    | a :: rest =>
      if a != q then return false
      match rest with
      | [] => throw .pastText
      | b :: _ =>
        if b != q then return false
        return !(5 < p.length && (p.reverse.take 3).all (· == q))

/-- The line cut in front of the last of so many separators: what stands before it, and behind. -/
def cutAt (cuts : Nat) (line : List Char) : List Char × List Char :=
  let parts := Text.splitFirst ['='] cuts line
  (Text.join ['='] parts.dropLast, parts.getLastD [])

/-- The text may be the value of an entry. -/
def isValueText (v : List Char) : Bool :=
  match v with
  | [] => true
  | c :: _ =>
    c == ' ' || c == '\t' || isQuote c || c == '[' || c == '\x7b' ||
      Text.trim v == "true".toList || Text.trim v == "false".toList ||
      (Decimal.readMarked? v).isSome || (calendarValue? v).isSome || (clock? v).isSome

/-- Moves the cut between name and value on until a value stands behind it. Also tells whether
    everything that stood there was written as a number should be. -/
def settleCut (line : List Char) (cuts : Nat) (isStrict : Bool) (front value : List Char) :
    Nat → Except Fault (List Char × List Char × Bool)
  | 0 => .error .malformed
  | fuel + 1 =>
    if isValueText value then .ok (front, value, isStrict)
    else
      let (front, next) := cutAt (cuts + 1) line
      if next == value then .error .malformed
      else settleCut line (cuts + 1) (isStrict && isStrictNumber next) front next fuel

/-- The parts of a name with points. -/
def nameParts (isQuoted : Bool) : List (List Char) → List (List Char)
  | [] => []
  | part :: more =>
    (if isQuoted then [part] else (Text.pieces '.' part).map Text.trim) ++
      nameParts (!isQuoted) more

/-- The names of the tables that an entry opens, and its own. -/
def entryNames (name : List Char) : Except Fault (List (List Char) × List Char) := do
  if name.contains '.' then
    let parts :=
      if name.any isQuote then nameParts false (quoteParts name) else Text.pieces '.' name
    match (parts.reverse.dropWhile List.isEmpty) with
    | [] => throw .pastList
    | own :: opened => return (opened.reverse, Text.trim own)
  else
    match name with
    | [] => throw .pastText
    | c :: _ =>
      if isQuote c && name.getLast? == some c then return ([], ← unescape (inner name))
      return ([], name)

/-- Puts an entry into a table. A text over several lines that the entry begins is returned. -/
def enterLine (read : Bool → List Char → Except Fault Data) (line : List Char) (level : Data) :
    Except Fault (Data × Option OpenText) := do
  let cuts := cutsBefore ['='] line
  let (front, value) := cutAt cuts line
  let isStrict := isStrictNumber value
  let value := if value.head?.any Char.isDigit then value.filter (· != '_') else value
  let (front, value, isStrict) ← settleCut line cuts isStrict front value (line.length + 2)
  let value := Text.trim value
  let (opened, name) ← entryNames (Text.trim front)
  let isOpen := isOpenText value
  let found := do if ← isOpen then pure none else return some (← read isStrict value)
  let level ← Level.enter name found opened level
  if ← isOpen then
    if name.isEmpty then throw .nameless
    let isEscaping := endsEscaping value
    let content := if isEscaping then value.dropLast else value ++ ['\n']
    return (level, some ⟨name, content, isEscaping⟩)
  return (level, none)

/-- Puts the entries of a table between braces into a table, up to one that is a text over several
    lines. -/
def enterAll (read : Bool → List Char → Except Fault Data) :
    List (List Char) → Data → Except Fault Data
  | [], level => .ok level
  | entry :: more, level => do
    let (level, isOpen) ← enterLine read entry level
    if isOpen.isSome then return level
    enterAll read more level

/-- A value. `fuel` bounds how deep values lie in values. -/
def valueWithin : Nat → Bool → List Char → Except Fault Data
  | 0, _, _ => .error .malformed
  | fuel + 1, isStrict, v =>
    match v with
    | [] => .error .malformed
    | c :: _ =>
      if isQuote c then quotedText c v
      else if c == '[' then do
        return .list (← elements (valueWithin fuel true) none (← elementTexts (Text.trim v)))
      else if c == '\x7b' then do enterAll (valueWithin fuel) (← entryTexts v) (.map [])
      else plainValue isStrict v

/-- A value; whether it is a number written as it should be is known for entries. -/
def value (isStrict : Bool) (v : List Char) : Except Fault Data :=
  valueWithin (v.length + 1) isStrict v

end CodeSurvey.Toml
