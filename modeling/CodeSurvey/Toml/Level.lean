import CodeSurvey.Data
import CodeSurvey.Text.Basic
import CodeSurvey.Toml.Fault

/-!
The place in a configuration that entries go to. Names open tables inside of tables, and the last
element of an array of tables. Values that are no tables can stand in the way, each kind with a
fault of its own.
-/

namespace CodeSurvey.Toml

/-- One step down: to the value under a name, or to the last element of a list. -/
inductive Step where
  | named (name : List Char)
  | last
  deriving DecidableEq, Repr

namespace Level

/-- The value under a name, none if a table has no such name. -/
def get (name : List Char) : Data → Except Fault (Option Data)
  | .map entries => .ok (Data.get? entries (String.ofList name))
  | .text _ => .error .textIndex
  | .list _ => .error .listIndex
  | other => .error (.notSubscriptable other.kindName)

/-- The last element of a list, or the last character of a text; none for a table. -/
def last : Data → Except Fault (Option Data)
  | .map _ => .ok none
  | .text s => match s.toList.getLast? with
    | some c => .ok (some (.text (String.ofList [c])))
    | none => .error .pastText
  | .list items => match items.getLast? with
    | some item => .ok (some item)
    | none => .error .pastList
  | other => .error (.notSubscriptable other.kindName)

/-- The name is in a table or in a list, or is a part of a text. -/
def has (name : List Char) : Data → Except Fault Bool
  | .map entries => .ok (Data.get? entries (String.ofList name)).isSome
  | .text s => .ok (Text.hasInfix name s.toList)
  | .list items => .ok (items.any fun | .text s => s.toList == name | _ => false)
  | other => .error (.notSearchable other.kindName)

/-- Puts a value under a name. -/
def put (name : List Char) (value : Data) : Data → Except Fault Data
  | .map entries => .ok (.map (Data.put entries (.text (String.ofList name)) value))
  | .text _ => .error .notAssignable
  | .list _ => .error .listIndex
  | other => .error (.notSearchable other.kindName)

/-- The value a number of steps down. -/
def follow? : List Step → Data → Option Data
  | [], level => some level
  | .named name :: more, .map entries =>
    (Data.get? entries (String.ofList name)).bind (follow? more)
  | .last :: more, .list items => items.getLast?.bind (follow? more)
  | _ :: _, _ => none

/-- Changes the value a number of steps down. -/
def change (f : Data → Data) : List Step → Data → Data
  | [], level => f level
  | .named name :: more, .map entries =>
    .map (entries.map fun e =>
      match e.1 with
      | .text s => if s.toList == name then (e.1, change f more e.2) else e
      | _ => e)
  | .last :: more, .list items =>
    match items.reverse with
    | [] => .list []
    | item :: before => .list (before.reverse ++ [change f more item])
  | _ :: _, level => level

/-- Puts an entry below the tables that names open; a table that is missing is made, and a name that
    is empty opens nothing. The value, which may be yet to come, is looked at once the tables are
    open. The name must be new. -/
def enter (name : List Char) (value : Except Fault (Option Data)) :
    List (List Char) → Data → Except Fault Data
  | [], level => do
    let value ← value
    match level with
    | .map entries =>
      let key := String.ofList name
      if (Data.get? entries key).isSome then throw .malformed
      return .map (value.elim entries (Data.put entries (.text key)))
    | _ => throw .malformed
  | [] :: more, level => enter name value more level
  | opened :: more, level => do
    let level ← if ← has opened level then pure level else put opened (.map []) level
    let inner ← get opened level
    put opened (← enter name value more (inner.getD (.map []))) level

end Level

end CodeSurvey.Toml
