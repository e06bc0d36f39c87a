import CodeSurvey.Number.Shortest
import CodeSurvey.Toml.Document

/-!
The text of a configuration. In each table plain values come first, then arrays of tables; the
tables in it follow later, all tables of one level before those of the next, with a blank line in
front of each. A table that only holds tables has no header.
-/

namespace CodeSurvey.Toml

mutual

/-- The text of a value. A table in an array is written as the array of its names. -/
def valueText : Data → Except Fault (List Char)
  | .null => written "None".toList
  | .bool b => .ok (if b then "true" else "false").toList
  | .int n => .ok (toString n).toList
  | .float x => .ok (replaceAll "e-0".toList "e-".toList
      (replaceAll "e+0".toList "e+".toList x.text.toList))
  | .text s => written s.toList
  | .date d => .ok d.text.toList
  | .time t => .ok t.text.toList
  | .moment m => .ok (replaceAll "+00:00".toList ['Z'] m.text.toList)
  | .bytes b => .ok ('[' :: b.flatMap (fun n => s!" {n.toNat},".toList) ++ [']'])
  | .list items | .set items => do return '[' :: (← itemTexts items) ++ [']']
  | .map entries => do return '[' :: (← nameTexts entries) ++ [']']

/-- The texts of the elements of an array. -/
def itemTexts : List Data → Except Fault (List Char)
  | [] => .ok []
  | item :: more => do return ' ' :: (← valueText item) ++ ',' :: (← itemTexts more)

/-- The texts of the names in a table. -/
def nameTexts : List (Data × Data) → Except Fault (List Char)
  | [] => .ok []
  | (name, _) :: more => do return ' ' :: (← valueText name) ++ ',' :: (← nameTexts more)

end

/-- The text of a name, without quotes if it is bare; a line end may follow a bare name. -/
def nameText (name : List Char) : Except Fault (List Char) :=
  if Document.isBareName (if name.getLast? == some '\n' then name.dropLast else name) then .ok name
  else written name

/-- A table with its written name. -/
abbrev NamedTable := List Char × Data

/-- Puts a table in the place of the one with its name, or behind all others. -/
def putTable (t : NamedTable) : List NamedTable → List NamedTable
  | [] => [t]
  | u :: more => if u.1 == t.1 then t :: more else u :: putTable t more

/-- The text of the entries of a table that are no tables, and the tables. -/
structure Parts where
  plain : List Char := []
  arrays : List Char := []
  tables : List NamedTable := []

/-- The text of a table without its tables. -/
def Parts.text (p : Parts) : List Char := p.plain ++ p.arrays

/-- A name below another one. -/
def joinNames (above name : List Char) : List Char := above ++ '.' :: name

/-- The text of the tables in an element of an array, one level after the other; those without text
    are left out. `name` is the name of the array. -/
def levelsText (parts : List Char → Data → Except Fault Parts) (name : List Char) :
    Nat → List NamedTable → Except Fault (List Char)
  | 0, _ => .ok []
  | fuel + 1, tables => do
    if tables.isEmpty then return []
    let mut text := []
    let mut below := []
    for t in tables do
      let full := joinNames name t.1
      let p ← parts full t.2
      if !p.text.isEmpty then text := text ++ '[' :: full ++ ']' :: '\n' :: p.text
      for u in p.tables do below := putTable (joinNames t.1 u.1, u.2) below
    return text ++ (← levelsText parts name fuel below)

/-- The text of an element of an array of tables. Text that begins with a bracket comes after the
    line end that closes the element's own entries. -/
def elementText (parts : List Char → Data → Except Fault Parts) (name : List Char) (depth : Nat)
    (element : Data) : Except Fault (List Char) := do
  let p ← parts name element
  let nested ← levelsText parts name (depth + 1) p.tables
  let header := '[' :: '[' :: name ++ [']', ']', '\n']
  if p.text.head? == some '[' then return header ++ '\n' :: p.text ++ nested
  return header ++ p.text ++ '\n' :: nested

/-- Why something in an array of tables that is no table is not written. -/
def foreignElement : Data → Except Fault Parts
  | .text s => match s.toList with
    | [] => .ok {}
    | c :: _ => do
      let _ ← nameText [c]
      throw .textIndex
  | .list [] | .set [] | .bytes [] => .ok {}
  | .list (.text s :: _) => do
    let _ ← nameText s.toList
    throw .listIndex
  | .list _ | .set _ | .bytes _ => .error .listIndex
  | other => .error (.notIterable other.kindName)

/-- The value is an array with a table in it. -/
def isTableArray : Data → Bool
  | .list items => items.any fun | .map _ => true | _ => false
  | _ => false

/-- The parts of a table with a full name. `depth` bounds how deep values lie in it. -/
def partsWithin : Nat → List Char → Data → Except Fault Parts
  | 0, _, _ => .ok {}
  | depth + 1, above, .map entries =>
    entries.foldlM (fun (p : Parts) e => do
      let name := match e.1 with | .text s => s.toList | _ => []
      let own ← nameText name
      match e.2 with
      | .map _ => return { p with tables := putTable (own, e.2) p.tables }
      | .null => return p
      | .list items =>
        if isTableArray e.2 then
          let full := if above.isEmpty then own else joinNames above own
          let texts ← items.mapM (elementText (partsWithin depth) full depth)
          return { p with arrays := p.arrays ++ texts.flatten }
        return { p with plain := p.plain ++ own ++ " = ".toList ++ (← valueText e.2) ++ ['\n'] }
      | _ =>
        return { p with plain := p.plain ++ own ++ " = ".toList ++ (← valueText e.2) ++ ['\n'] }) {}
  | _ + 1, _, other => foreignElement other

/-- The text so far with the tables of one level and of those below it written behind it. -/
def blocksText (parts : List Char → Data → Except Fault Parts) :
    Nat → List Char → List NamedTable → Except Fault (List Char)
  | 0, text, _ => .ok text
  | fuel + 1, text, tables => do
    if tables.isEmpty then return text
    let mut text := text
    let mut below := []
    for t in tables do
      let p ← parts t.1 t.2
      if !p.text.isEmpty || p.tables.isEmpty then
        let isSpaced := text.isEmpty || (text.reverse.take 2) == ['\n', '\n']
        text := text ++ (if isSpaced then [] else ['\n']) ++ '[' :: t.1 ++ ']' :: '\n' :: p.text
      for u in p.tables do below := putTable (joinNames t.1 u.1, u.2) below
    blocksText parts fuel text below

/-- The text of a table as a configuration. -/
def text (entries : List (Data × Data)) : Except Fault (List Char) := do
  let depth := (Data.map entries).depth + 1
  let p ← partsWithin depth [] (.map entries)
  blocksText (partsWithin depth) depth p.text p.tables

end CodeSurvey.Toml
