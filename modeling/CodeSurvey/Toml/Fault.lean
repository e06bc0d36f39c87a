import CodeSurvey.Data

/-!
Why a configuration has no table, or a table is not written. A configuration that breaks the rules
of the format is malformed; the other faults are found where a text ends too early, or where a value
stands that is no table.
-/

namespace CodeSurvey.Toml

/-- A fault of a configuration. -/
inductive Fault where
  | malformed
  /-- Something is missing at the end of a list. -/
  | pastList
  /-- Something is missing at the end of a text. -/
  | pastText
  /-- An escape for a number that is no code. -/
  | codeTooLarge
  /-- A value stands where a table is needed that can be looked into. -/
  | notSubscriptable (kind : String)
  /-- A value stands where a table is needed that can be searched. -/
  | notSearchable (kind : String)
  /-- A text stands where a table is needed that can be written to. -/
  | notAssignable
  /-- A text stands where a table is needed that has names. -/
  | textIndex
  /-- A list stands where a table is needed that has names. -/
  | listIndex
  /-- A table is to be added to something that is no list. -/
  | notAList
  /-- An array holds tables together with something that has no elements. -/
  | notIterable (kind : String)
  /-- A text over several lines stands behind an empty name. -/
  | nameless
  deriving DecidableEq, Repr

/-- The words for a fault. -/
def Fault.message : Fault → String
  | malformed => "malformed configuration"
  | pastList => "list index out of range"
  | pastText => "string index out of range"
  | codeTooLarge => "Python int too large to convert to C int"
  | notSubscriptable kind => s!"'{kind}' object is not subscriptable"
  | notSearchable kind => s!"argument of type '{kind}' is not iterable"
  | notAssignable => "'str' object does not support item assignment"
  | textIndex => "string indices must be integers, not 'str'"
  | listIndex => "list indices must be integers or slices, not str"
  | notAList => "You can only load a file descriptor, filename or list"
  | notIterable kind => s!"'{kind}' object is not iterable"
  | nameless => "cannot access local variable 'value' where it is not associated with a value"

end CodeSurvey.Toml
