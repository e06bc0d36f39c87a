import CodeSurvey.Ecma.Declared
import CodeSurvey.Export.Assigned
import CodeSurvey.Problem

/-!
The export surface of a module: what its export statements name, and what it assigns to `exports`.
Only statements at the top of the tree export.
-/

namespace CodeSurvey.Export

open Ecma

/-- What the export statements of a module say. -/
structure Statements where
  named : List String := []
  /-- The name of the default export; the last one wins. -/
  default : Option String := none
  /-- What is passed on from other modules. -/
  passedOn : List String := []
  deriving DecidableEq, Repr

/-- The names that specifiers export, each by its last name. -/
def specifierNames (clause : Node) : List String :=
  (clause.children.filter (·.kind == .exportSpecifier)).map fun spec =>
    match spec.child? .alias, spec.child? .name with
    | some other, _ => other.keyName
    | none, some own => own.keyName
    | none, none => "unknown"

/-- The name of what a default export exports. -/
def defaultName (target : Option Node) : String :=
  match target with
  | none => "anonymous"
  | some node =>
    match node.child? .name with
    | some name => name.text
    | none => if node.kind == .identifier then node.text else "anonymous"

/-- The text of a source between its quotes. -/
def sourceText (source : Node) : String := String.ofList (source.text.toList.drop 1).dropLast

/-- The names that a declaration binds: its own name, or those of its variables. -/
def declaredNames (declaration : Node) : List String :=
  match declaration.child? .name with
  | some name => [name.text]
  | none =>
    declaration.children.filterMap fun d =>
      ((d.child? .name).filter (·.kind == .identifier)).map (·.text)

/-- Adds what one statement exports. -/
def Statements.add (s : Statements) (n : Node) : Statements :=
  match n.kind with
  | .exportStatement isDefault =>
    let clause := n.children.find? (·.kind == .exportClause)
    if isDefault then
      { s with default := defaultName ((n.child? .declaration).or (n.child? .value)) }
    else match n.child? .source, clause, n.child? .declaration with
      | some _, some clause, _ => { s with passedOn := s.passedOn ++ specifierNames clause }
      | some source, none, _ =>
        { s with passedOn := s.passedOn ++ ["* from " ++ sourceText source] }
      | none, _, some declaration => { s with named := s.named ++ declaredNames declaration }
      | none, some clause, none => { s with named := s.named ++ specifierNames clause }
      | none, none, none => s
  | _ => s

/-- What the statements at the top of a tree export. -/
def Statements.ofTree (tree : Node) : Statements := tree.children.foldl add {}

/-- Which module system a source uses. -/
inductive Style where
  | esm
  | cjs
  | mixed
  deriving DecidableEq, Repr

/-- The word for a style. -/
def Style.label : Style → String
  | esm => "esm"
  | cjs => "cjs"
  | mixed => "mixed"

/-- The export surface of a source file. -/
structure Surface extends Statements where
  assigned : List String := []
  style : Style := .cjs
  language : Option String := none
  problem : Option Problem := none
  deriving DecidableEq, Repr

/-- The style of a module that has export statements or assigned exports. -/
def styleOf (hasStatements hasAssigned : Bool) : Style :=
  if hasStatements then if hasAssigned then .mixed else .esm else .cjs

/-- The surface of a source, given its tree unless the grammar rejected it. -/
def Surface.of (tree : Option Node) (code : List Char) (language : String) : Surface :=
  let statements := (tree.map Statements.ofTree).getD {}
  let assigned := assignedNames code
  let exports := !statements.named.isEmpty || statements.default.isSome ||
    !statements.passedOn.isEmpty
  { toStatements := statements, assigned, style := styleOf exports (!assigned.isEmpty),
    language := some language }

/-- The public names: what is named, what is assigned and the default, not what is passed on. -/
def Surface.names (s : Surface) : List String :=
  s.named ++ s.assigned ++ ((s.default.filter (· != "")).map ("default:" ++ ·)).toList

/-- The members of the record of a surface. -/
def Surface.members (s : Surface) : List (String × Json) :=
  [("named", .strings s.named), ("default", .string? s.default), ("reExports", .strings s.passedOn),
    ("cjsExports", .strings s.assigned), ("type", .string s.style.label),
    ("language", .string? s.language)] ++
    (s.problem.map fun p => ("error", Json.string p.tag)).toList

/-- The record of a surface. -/
def Surface.toJson (s : Surface) : Json := .object s.members

end CodeSurvey.Export
