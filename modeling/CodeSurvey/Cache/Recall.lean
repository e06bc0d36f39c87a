import CodeSurvey.Cache.Basic
import CodeSurvey.Cache.Key
import CodeSurvey.Complexity.Report
import CodeSurvey.Plan.Document
import CodeSurvey.RepoMap.Summary

/-!
Lookups of results in a cache. A lookup asks the cache for the result under the key of its input;
if there is none the result is made and then kept, unless making it fails. What is found under the
key is taken for the result, whatever its kind. An input that yields nothing to keep, such as a file
that cannot be read or is in no known language, leaves the cache alone. Each access to the cache is a
step of its own, so that several lookups can go on side by side. The digest that makes keys is a
parameter.
-/

namespace CodeSurvey.Cache

/-- A result that is kept. -/
inductive Result where
  | signatures (r : SignatureReport)
  | surface (s : Export.Surface)
  | complexity (r : ComplexityReport)
  | head (entries : List (Data × Data))

/-- How far a lookup has come. -/
inductive Lookup where
  /-- The cache is to be asked; if it holds nothing the result is made. -/
  | ask (input : Input) (make : Unit → Except Yaml.Fault Result)
  /-- The result was made and is to be kept. -/
  | keep (input : Input) (result : Result)
  | done (result : Except Yaml.Fault Result)

namespace Lookup

/-- A result that is made of the text of a file and its language; there is another one if either is
    missing. -/
def ofFile (kind path : String) (language : Option String) (text : Option (List Char))
    (make : String → List Char → Result) (otherwise : Result) : Lookup :=
  match text, language with
  | some code, some language =>
    .ask ⟨kind, path, some language, code⟩ fun _ => .ok (make language code)
  | _, _ => .done (.ok otherwise)

/-- The signatures of a file. -/
def signatures (path : String) (asked : Option String) (text : Option (List Char)) : Lookup :=
  ofFile "signatures" path (Language.choose? asked path) text
    (fun language code => .signatures (SignatureReport.ofCode path language code))
    (.signatures (SignatureReport.of path asked text))

/-- The export surface of a file. -/
def surface (path : String) (asked : Option String) (text : Option (List Char)) : Lookup :=
  ofFile "exports" path ((Language.choose? asked path).filter Language.hasGrammar) text
    (fun language code =>
      .surface (Export.Surface.of (Ecma.treeOf? path language code) code language))
    (.surface (Export.Surface.ofFile path asked text))

/-- The complexity of a file. -/
def complexity (path : String) (asked : Option String) (text : Option (List Char)) : Lookup :=
  ofFile "complexity" path (Language.choose? asked path) text
    (fun language code => .complexity (ComplexityReport.ofCode path language code))
    (.complexity (ComplexityReport.of path asked text))

/-- The head of a plan. -/
def frontmatter (content : List Char) : Lookup :=
  if content.isEmpty then .done (.ok (.head []))
  else .ask ⟨"frontmatter", "", none, content⟩ fun _ => (Plan.frontmatter content).map .head

/-- The input of a lookup that has to do with the cache. -/
def input? : Lookup → Option Input
  | ask input _ | keep input _ => some input
  | done _ => none

/-- What a lookup comes to if nothing is found in the cache. -/
def answer : Lookup → Except Yaml.Fault Result
  | ask _ make => make ()
  | keep _ result => .ok result
  | done result => result

variable {κ : Type} [BEq κ] (digest : List UInt8 → κ)

/-- The next access of a lookup to the cache. -/
def advance (l : Lookup) (c : Cache κ Result) : Lookup × Cache κ Result :=
  match l with
  | ask input make =>
    match c.get (digest input.bytes) with
    | (some found, c) => (done (.ok found), c)
    | (none, c) =>
      match make () with
      | .ok result => (keep input result, c)
      | .error f => (done (.error f), c)
  | keep input result => (done (.ok result), c.put (digest input.bytes) result)
  | done result => (done result, c)

/-- Carries a lookup to its end, which is at most two accesses away. -/
def complete (l : Lookup) (c : Cache κ Result) : Except Yaml.Fault Result × Cache κ Result :=
  let (l, c) := l.advance digest c
  let (l, c) := l.advance digest c
  (l.answer, c)

/-- Carries lookups to their ends, one after the other. -/
def completeAll : List Lookup → Cache κ Result → List (Except Yaml.Fault Result) × Cache κ Result
  | [], c => ([], c)
  | l :: more, c =>
    let (result, c) := l.complete digest c
    let (results, c) := completeAll more c
    (result :: results, c)

/-- Lookups that go on side by side: at every turn any one of them has its next access to the
    cache. -/
inductive Pool : List Lookup → Cache κ Result → List Lookup → Cache κ Result → Prop where
  | rest {ls : List Lookup} {c : Cache κ Result} : Pool ls c ls c
  | turn {before after ls : List Lookup} {l : Lookup} {c c' : Cache κ Result}
      (more : Pool (before ++ (l.advance digest c).1 :: after) (l.advance digest c).2 ls c') :
      Pool (before ++ l :: after) c ls c'

end Lookup

end CodeSurvey.Cache
