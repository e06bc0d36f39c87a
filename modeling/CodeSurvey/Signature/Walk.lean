import CodeSurvey.Ecma.Declared

/-!
Signatures read off a syntax tree. The tree is walked from the top down and from left to right, so
declarations inside blocks and bodies are listed too; a class declaration lists itself and then its
members before anything inside them.
-/

namespace CodeSurvey.Signature

open Ecma

/-- How a parameter without default value is shown: a name as it is, a pattern by its brackets. -/
def placeLabel (place : Node) : String :=
  match place.kind with
  | .identifier => place.text
  | .objectPattern => "\x7b...\x7d"
  | .arrayPattern => "[...]"
  | _ => "?"

/-- How a parameter is shown. -/
def paramLabel (param : Node) : String :=
  match param.kind with
  | .assignmentPattern => ((param.child? .left).map placeLabel).getD "?"
  | .restPattern =>
    match param.children.head? with
    | some inner => if inner.kind == .identifier then "..." ++ inner.text else "..."
    | none => "..."
  | _ => placeLabel param

/-- How the parameters of a function are shown. -/
def paramLabels (function : Node) : List String :=
  match function.child? .parameter, function.child? .parameters with
  | some single, _ => [single.text]
  | none, some list => list.children.map paramLabel
  | none, none => []

/-- The signature of a declared function. -/
def ofDeclared (d : Declared) : Signature where
  name := d.name
  kind := d.kind
  params := paramLabels d.function
  line := d.line
  async := d.function.kind.isAsync
  generator := d.function.kind.isGenerator

/-- The signature of a class declaration itself. -/
def ofClass? (n : Node) : Option Signature :=
  if n.kind == .classDeclaration then
    (n.child? .name).map fun name => { name := name.text, kind := .classDef, line := n.line }
  else none

/-- The signatures that a node itself gives rise to. -/
def ofNode (n : Node) : List Signature := (ofClass? n).toList ++ n.declared.map ofDeclared

mutual

/-- The signatures of a node and everything below it. -/
def ofTree : Node → List Signature
  | n@⟨_, _, _, _, children⟩ => ofNode n ++ ofForest children

/-- The signatures of nodes and everything below them. -/
def ofForest : List Node → List Signature
  | [] => []
  | n :: more => ofTree n ++ ofForest more

end

theorem ofForest_append (l m : List Node) : ofForest (l ++ m) = ofForest l ++ ofForest m := by
  induction l with
  | nil => simp [ofForest]
  | cons n more ih => simp [ofForest, ih]

end CodeSurvey.Signature
