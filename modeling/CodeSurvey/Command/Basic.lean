import CodeSurvey.Folder
import CodeSurvey.Number.Integer

/-!
The commands and how they are given. Values are looked at before the command begins: numbers have to
be at least one, and files that are read have to exist.

The arguments of a command are options, which begin with a hyphen, and all others. An option is
named in full after two hyphens, or by a letter after one; letters can be written together. A value
follows the name of an option as the next argument, after an equals sign or right behind the letter.
Two hyphens alone end the options.
-/

namespace CodeSurvey.Command

/-- Why arguments are refused. -/
inductive UsageError where
  | noSuchOption
  /-- A value is missing, or there is one where none belongs. -/
  | badOptionUse
  /-- A value that makes no sense; what is said about it, unless the parser does. -/
  | badParameter (message : Option String)
  | missingParameter
  /-- No such command, or too many arguments. -/
  | misuse
  deriving DecidableEq, Repr

/-- An option that a command takes. -/
structure Switch where
  /-- The name, without hyphens. -/
  name : String
  letter : Option Char := none
  takesValue : Bool := false
  deriving DecidableEq, Repr

/-- Options that were given, in their order, each with its value if it takes one. -/
abbrev Given := List (String × Option String)

/-- What the letters behind one hyphen say: the options among them, and the last one of these if its
    value is the next argument. -/
def lettersOf (switches : List Switch) :
    List Char → Except UsageError (Given × Option String)
  | [] => .ok ([], none)
  | c :: rest =>
    match switches.find? fun s => s.letter == some c with
    | none => .error .noSuchOption
    | some s =>
      if s.takesValue then
        if rest.isEmpty then .ok ([], some s.name)
        else .ok ([(s.name, some (String.ofList rest))], none)
      else do
        let (given, pending) ← lettersOf switches rest
        return ((s.name, none) :: given, pending)

/-- What an argument that begins with two hyphens says. -/
def nameOf (switches : List Switch) (text : List Char) :
    Except UsageError (Given × Option String) :=
  let name := String.ofList (text.takeWhile (· != '='))
  let value := (text.dropWhile (· != '=')).tail
  let hasValue := text.contains '='
  match switches.find? fun s => s.name == name with
  | none => .error .noSuchOption
  | some s =>
    if s.takesValue then
      if hasValue then .ok ([(s.name, some (String.ofList value))], none)
      else .ok ([], some s.name)
    else if hasValue then .error .badOptionUse else .ok ([(s.name, none)], none)

/-- Arguments told apart: the options, and all others. If options end with the first of the others,
    that one and all after it are `others`. -/
def parse (switches : List Switch) (endsEarly : Bool) :
    List String → Except UsageError (Given × List String)
  | [] => .ok ([], [])
  | argument :: rest =>
    match argument.toList with
    | ['-', '-'] => .ok ([], rest)
    | '-' :: c :: more => do
      let (given, pending) ←
        if c == '-' then nameOf switches more else lettersOf switches (c :: more)
      match pending with
      | none =>
        let (later, others) ← parse switches endsEarly rest
        return (given ++ later, others)
      | some name =>
        match rest with
        | [] => throw .badOptionUse
        | value :: rest =>
          let (later, others) ← parse switches endsEarly rest
          return (given ++ (name, some value) :: later, others)
    | _ =>
      if endsEarly then .ok ([], argument :: rest)
      else do
        let (given, others) ← parse switches endsEarly rest
        return (given, argument :: others)

/-- The option was given. -/
def isGiven (given : Given) (name : String) : Bool := given.any (·.1 == name)

/-- The value of an option; the last one counts. -/
def valueOf? (given : Given) (name : String) : Option String :=
  (given.reverse.lookup name).join

end CodeSurvey.Command

namespace CodeSurvey

/-- A command. -/
inductive Command where
  | version
  | signatures (file : String) (asJson : Bool)
  | complexity (file : String) (asJson : Bool)
  | repoMap (root : String) (tokens : Option Int) (asJson : Bool)
  | deps (root : String) (cycles : Bool) (top : Int) (asJson : Bool)
  | impact (root : String) (files : List String) (maxDepth : Option Int) (asJson : Bool)
  | classify (plans : List String) (root profile : Option String) (asJson : Bool)
  | showConfig
  | setConfig (key value : String)
  deriving DecidableEq, Repr

namespace Command

/-- The option for output as a record. -/
def jsonSwitch : Switch := { name := "json" }

/-- A number that an option gives, at least one. -/
def count? (given : Given) (name : String) : Except UsageError (Option Int) :=
  match valueOf? given name with
  | none => .ok none
  | some value =>
    match Integer.read .ten value.toList with
    | .ok n => if 1 ≤ n then .ok (some n) else .error (.badParameter none)
    | .error _ => .error (.badParameter none)

/-- A file stands at a path; a path that ends in a slash is none of a file. -/
def isFile (here : Folder) (path : String) : Bool :=
  let last := Path.baseName path.toList
  last != [] && last != ['.'] && (here.read? path).isSome

/-- The paths, if a file stands at each. -/
def existing (here : Folder) (paths : List String) : Except UsageError (List String) :=
  if paths.all (isFile here) then .ok paths else .error (.badParameter none)

/-- The only one of some arguments. -/
def single : List String → Except UsageError String
  | [] => .error .missingParameter
  | [only] => .ok only
  | _ => .error .misuse

/-- The only one of some arguments, or a single dot. -/
def rootOf (others : List String) : Except UsageError String :=
  if others.isEmpty then .ok "." else single others

/-- The file that is the only one of some arguments. -/
def fileOf (here : Folder) (others : List String) : Except UsageError String := do
  let _ ← existing here (others.take 1)
  single others

/-- A change of the configuration or a look at it. -/
def ofConfigArguments : List String → Except UsageError Command
  | "show" :: rest => do
    let (_, others) ← parse [] false rest
    if others.isEmpty then return showConfig
    throw .misuse
  | "set" :: rest => do
    let (_, others) ← parse [] false rest
    match others with
    | [] | [_] => throw .missingParameter
    | [key, value] => return setConfig key value
    | _ => throw .misuse
  | _ => .error .misuse

/-- The command of a name with its arguments. -/
def ofName (here : Folder) (name : String) (arguments : List String) :
    Except UsageError Command := do
  match name with
  | "signatures" =>
    let (given, others) ← parse [jsonSwitch] false arguments
    return signatures (← fileOf here others) (isGiven given "json")
  | "complexity" =>
    let (given, others) ← parse [jsonSwitch] false arguments
    return complexity (← fileOf here others) (isGiven given "json")
  | "repo-map" =>
    let tokens : Switch := { name := "tokens", letter := some 't', takesValue := true }
    let (given, others) ← parse [tokens, jsonSwitch] false arguments
    let tokens ← count? given "tokens"
    return repoMap (← rootOf others) tokens (isGiven given "json")
  | "deps" =>
    let top : Switch := { name := "top", takesValue := true }
    let (given, others) ← parse [{ name := "cycles" }, top, jsonSwitch] false arguments
    let top ← count? given "top"
    return deps (← rootOf others) (isGiven given "cycles") (top.getD 10) (isGiven given "json")
  | "impact" =>
    let depth : Switch := { name := "max-depth", letter := some 'd', takesValue := true }
    let (given, others) ← parse [depth, jsonSwitch] false arguments
    let depth ← count? given "max-depth"
    match others with
    | root :: file :: files => return impact root (file :: files) depth (isGiven given "json")
    | _ => throw .missingParameter
  | "classify" =>
    let root : Switch := { name := "root", letter := some 'r', takesValue := true }
    let profile : Switch := { name := "profile", letter := some 'p', takesValue := true }
    let (given, others) ← parse [root, profile, jsonSwitch] false arguments
    if others.isEmpty then throw .missingParameter
    return classify (← existing here others) (valueOf? given "root") (valueOf? given "profile")
      (isGiven given "json")
  | "config" =>
    let (_, others) ← parse [] true arguments
    ofConfigArguments others
  | _ => throw .misuse

/-- The command that arguments give. -/
def ofArguments (here : Folder) (arguments : List String) : Except UsageError Command := do
  let switches : List Switch :=
    [{ name := "version", letter := some 'v' }, { name := "verbose", letter := some 'V' }]
  let (given, others) ← parse switches true arguments
  if isGiven given "version" then return version
  match others with
  | [] => throw .misuse
  | name :: rest => ofName here name rest

end Command

end CodeSurvey
