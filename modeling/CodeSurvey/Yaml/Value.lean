import CodeSurvey.Data
import CodeSurvey.Number.Decimal
import CodeSurvey.Text.Lower
import CodeSurvey.Yaml.Node

/-!
The value of a document. Keys of the kind `<<` are resolved first: the entries of what they name
come before the entries of the mapping, whose own keys thereby win. Then every node is read by its
type. The nodes are read level by level, so of several faults the one nearest to the root counts,
and of those on one level the first.
-/

namespace CodeSurvey.Yaml

/-! ### Merging -/

namespace Node

/-- The entries of a mapping. -/
def entries? : Node → Option (List (Node × Node))
  | mapping _ entries => some entries
  | _ => none

/-- Stands among the entries of a mapping for one that cannot be merged. -/
def unmergeable : Node × Node := (scalar .merge [], empty)

/-- The entries that a merge key with a value brings in: those of a mapping, or those of the
    mappings of a sequence, the last one first. -/
def mergedEntries : Node → List (Node × Node)
  | mapping _ entries => entries
  | sequence _ items =>
    if items.all (·.entries?.isSome) then (items.reverse.filterMap (·.entries?)).flatten
    else [unmergeable]
  | scalar .. => [unmergeable]

mutual

/-- The node with all its merge keys resolved. -/
def merged : Node → Node
  | scalar t s => scalar t s
  | sequence t items => sequence t (mergedItems items)
  | mapping t entries =>
    let (front, own) := splitEntries entries
    mapping t (front ++ own)

/-- The nodes of a sequence. -/
def mergedItems : List Node → List Node
  | [] => []
  | item :: more => merged item :: mergedItems more

/-- The entries that the merge keys of a mapping bring in, and all other entries. -/
def splitEntries : List (Node × Node) → List (Node × Node) × List (Node × Node)
  | [] => ([], [])
  | e :: more =>
    let (front, own) := splitEntries more
    let value := merged e.2
    if e.1.tag == .merge then (mergedEntries value ++ front, own)
    else (front, (merged e.1, value) :: own)

end

mutual

/-- The text of a scalar, or of the value that stands for a whole mapping. -/
def scalarText? : Node → Option (List Char)
  | scalar _ s => some s
  | sequence .. => none
  | mapping _ entries => defaultText? entries

/-- The text of the value that stands for a mapping with these entries. -/
def defaultText? : List (Node × Node) → Option (List Char)
  | [] => none
  | e :: more => if e.1.tag == .default then scalarText? e.2 else defaultText? more

end

end Node

/-! ### Scalars -/

/-- A whole number; underscores do not count. -/
def intOf (text : List Char) : Except Fault Int :=
  let read := fun base s => (Integer.read base s).mapError Fault.integer
  let text := text.filter (· != '_')
  let (negative, rest) := match text with
    | '-' :: rest => (true, rest)
    | '+' :: rest => (false, rest)
    | rest => (false, rest)
  let magnitude : Except Fault Int :=
    match rest with
    | [] => .error .emptyNumber
    | ['0'] => .ok 0
    | '0' :: 'b' :: digits => read .two digits
    | '0' :: 'x' :: digits => read .sixteen digits
    | '0' :: _ => read .eight rest
    | _ =>
      if rest.contains ':' then do
        let parts ← (Text.pieces ':' rest).mapM (read .ten)
        return parts.foldl (fun n part => n * 60 + part) 0
      else read .ten rest
  magnitude.map fun n => if negative then -n else n

/-- A floating point number; underscores do not count. -/
def floatOf (text : List Char) : Except Fault Double :=
  let read := fun s =>
    match Decimal.read? s with
    | some x => Except.ok x
    | none => .error (Fault.float s)
  let text := Text.lower (text.filter (· != '_'))
  let (negative, rest) := match text with
    | '-' :: rest => (true, rest)
    | '+' :: rest => (false, rest)
    | rest => (false, rest)
  let magnitude : Except Fault Double :=
    if rest.isEmpty then .error .emptyNumber
    else if rest == ".inf".toList then .ok (.infinite false)
    else if rest == ".nan".toList then .ok .nan
    else if rest.contains ':' then do
      let parts ← (Text.pieces ':' rest).mapM read
      let sum := parts.reverse.foldl
        (fun (s : Double × Nat) part => (s.1.add (part.mul (.ofInt s.2)), s.2 * 60))
        (Double.finite false 0, 1)
      return sum.1
    else read rest
  magnitude.map fun x => if negative then x.neg else x

/-- A truth value. -/
def truthOf (text : List Char) : Except Fault Bool :=
  let word := String.ofList (Text.lower text)
  if ["yes", "true", "on"].contains word then .ok true
  else if ["no", "false", "off"].contains word then .ok false
  else .error (.truth (word.toList))

/-- A number in decimal digits. -/
def numberOf (digits : List Char) : Nat := Integer.valueOf 10 (digits.filterMap Integer.digit?)

open Pattern in
/-- A date, with or without a time of day; the groups 1 to 3 are year, month and day. -/
def datePattern : Pattern :=
  seq [group 1 Tag.year, lit "-", group 2 Tag.shortNumber, lit "-", group 3 Tag.shortNumber,
    maybe Tag.clock, textEnd]

/-- The offset of a time of day in minutes. -/
def offsetOf (m : Pattern.Match) : Except Calendar.Error (Option Int) :=
  match m.group? 9, m.group? 8 with
  | some mark, _ =>
    let minutes : Int := numberOf (m.group 10) * 60 + numberOf (m.group 11)
    let minutes := if mark == ['-'] then -minutes else minutes
    if minutes.natAbs < 1440 then .ok (some minutes) else .error (.offset minutes)
  | none, some _ => .ok (some 0)
  | none, none => .ok none

/-- A date or a moment. A fraction of a second counts to six places. -/
def timestampOf (text : List Char) : Except Fault Data := do
  let some m := datePattern.matchStart? text | throw .timestamp
  let number := fun g => numberOf (m.group g)
  let made : Except Calendar.Error Data :=
    if (m.group? 4).isNone then do
      return .date (← Calendar.date (number 1) (number 2) (number 3))
    else do
      let fraction := (m.group 7).take 6
      let micros := numberOf (fraction ++ List.replicate (6 - fraction.length) '0')
      let offset ← offsetOf m
      let date ← Calendar.date (number 1) (number 2) (number 3)
      let time ← Calendar.time (number 4) (number 5) (number 6) micros
      return .moment ⟨date, time, offset⟩
  made.mapError Fault.calendar

/-- The value of a character in octets written as text. -/
def sextet? (c : Char) : Option Nat :=
  let n := c.toNat
  if 65 ≤ n && n ≤ 90 then some (n - 65)
  else if 97 ≤ n && n ≤ 122 then some (n - 71)
  else if 48 ≤ n && n ≤ 57 then some (n + 4)
  else if c == '+' then some 62
  else if c == '/' then some 63
  else none

/-- Octets from characters of six bits each; other characters do not count. `held` are the sextets
    of the group of four being read, and `pads` counts the signs that fill it up. -/
def octetsFrom (held : List Nat) (pads : Nat) : List Char → Option (List UInt8)
  | [] => if held.isEmpty then some [] else none
  | c :: rest =>
    if c == '=' then
      if 2 ≤ held.length && 4 ≤ held.length + pads + 1 then some []
      else octetsFrom held (if 2 ≤ held.length then pads + 1 else pads) rest
    else match sextet? c, held with
      | none, _ => octetsFrom held pads rest
      | some s, [] => octetsFrom [s] 0 rest
      | some s, [a] => (octetsFrom [a, s] 0 rest).map (UInt8.ofNat (a * 4 + s / 16) :: ·)
      | some s, [a, b] => (octetsFrom [a, b, s] 0 rest).map (UInt8.ofNat (b * 16 + s / 4) :: ·)
      | some s, _ :: _ :: d :: _ => (octetsFrom [] 0 rest).map (UInt8.ofNat (d * 64 + s) :: ·)

/-- Octets written as text. -/
def octetsOf (text : List Char) : Except Fault Data :=
  match if text.all (·.toNat < 128) then octetsFrom [] 0 text else none with
  | some octets => .ok (.bytes octets)
  | none => .error .malformed

/-! ### Nodes -/

/-- A value, or none where there are faults; each fault with its level. -/
abbrev Outcome := Data × List (Nat × Fault)

/-- A value or a fault on a level. -/
def outcome (level : Nat) : Except Fault Data → Outcome
  | .ok value => (value, [])
  | .error f => (.null, [(level, f)])

/-- A malformed document, as seen on a level. -/
def malformedAt (level : Nat) : Outcome := (.null, [(level, .malformed)])

/-- The value of a scalar of a type. -/
def scalarValue (tag : Tag) (text : List Char) : Except Fault Data :=
  match tag with
  | .null => .ok .null
  | .bool => (truthOf text).map .bool
  | .int => (intOf text).map .int
  | .float => (floatOf text).map .float
  | .binary => octetsOf text
  | .timestamp => timestampOf text
  | .text => .ok (.text (String.ofList text))
  | _ => .error .malformed

/-- The type is read from a text, also where a mapping names it by its default. -/
def Tag.isScalar : Tag → Bool
  | null | bool | int | float | binary | timestamp | text => true
  | _ => false

/-- The value of a node that is no collection, or of a collection that should not be one. -/
def plainValue (level : Nat) (n : Node) : Outcome :=
  match n.tag.isScalar, n.scalarText? with
  | true, some text => outcome level (scalarValue n.tag text)
  | _, _ => malformedAt (if n.tag == .unknown || n.tag == .merge || n.tag == .default ||
      n.tag.isScalar then level else level + 1)

mutual

/-- The value of a node on a level; the content of a collection is on the next level. -/
def valueAt (level : Nat) : Node → Outcome
  | .scalar t s => plainValue level (.scalar t s)
  | .sequence t items =>
    match t with
    | .sequence =>
      let (values, faults) := itemsAt (level + 1) items
      (.list values, faults)
    | .orderedMap | .pairs =>
      let (values, faults) := pairsAt (level + 1) items
      (.list values, faults)
    | _ => plainValue level (.sequence t items)
  | .mapping t entries =>
    match t with
    | .mapping =>
      let (values, faults) := entriesAt (level + 1) entries
      (.map (values.foldl (fun m e => Data.put m e.1 e.2) []), faults)
    | .set =>
      let (values, faults) := entriesAt (level + 1) entries
      (.set ((values.foldl (fun m e => Data.put m e.1 e.2) []).map (·.1)), faults)
    | _ => plainValue level (.mapping t entries)

/-- The values of the items of a sequence. -/
def itemsAt (level : Nat) : List Node → List Data × List (Nat × Fault)
  | [] => ([], [])
  | item :: more =>
    let (value, faults) := valueAt level item
    let (values, rest) := itemsAt level more
    (value :: values, faults ++ rest)

/-- The values of the items of a sequence of pairs, each a mapping with one entry. -/
def pairsAt (level : Nat) : List Node → List Data × List (Nat × Fault)
  | [] => ([], [])
  | .mapping _ [e] :: more =>
    let (key, faults) := valueAt level e.1
    let (value, others) := valueAt level e.2
    let (values, rest) := pairsAt level more
    (.list [key, value] :: values, faults ++ others ++ rest)
  | _ :: more =>
    let (values, rest) := pairsAt level more
    (values, (level, .malformed) :: rest)

/-- The keys and values of a mapping; a key has to be one that can be looked up. -/
def entriesAt (level : Nat) : List (Node × Node) → List (Data × Data) × List (Nat × Fault)
  | [] => ([], [])
  | e :: more =>
    let read := valueAt level e.1
    let (key, faults) :=
      match e.1 with
      | .scalar .default s => (Data.text (String.ofList s), [])
      | _ => read
    let faults := if key.isKey then faults else [(level, .malformed)]
    let (value, others) := valueAt level e.2
    let (values, rest) := entriesAt level more
    ((key, value) :: values, faults ++ others ++ rest)

end

/-- The fault that counts: the first of those on the lowest level. -/
def firstFault? (faults : List (Nat × Fault)) : Option Fault :=
  match (faults.map (·.1)).min? with
  | none => none
  | some level => (faults.find? (·.1 == level)).map (·.2)

/-- The value of the document in a text; nothing is null. -/
def load (text : List Char) : Except Fault Data := do
  match ← document text with
  | none => return .null
  | some root =>
    let (value, faults) := valueAt 0 root.merged
    match firstFault? faults with
    | some f => throw f
    | none => return value

end CodeSurvey.Yaml
