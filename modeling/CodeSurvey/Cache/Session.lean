import CodeSurvey.Cache.Recall

/-!
Calls that share a cache. A call is an analysis of a file or a plan, which looks one result up, or a
map of files, which looks the signatures of each of them up, side by side, and is refused if its
budget is out of range. `Call.direct` is what a call comes to without a cache, `Call.cached` what it
comes to with one, and `Call.Session` what calls that share a cache can come to.
-/

namespace CodeSurvey.Cache

/-- A call. The text of a file is the one that is handed over or else the one that is read, none if
    it cannot be read. -/
inductive Call where
  | signatures (path : String) (asked : Option String) (text : Option (List Char))
  | surface (path : String) (asked : Option String) (text : Option (List Char))
  | complexity (path : String) (asked : Option String) (text : Option (List Char))
  | frontmatter (content : List Char)
  | repoMap (budget : Int) (root : String) (read : String → Option (List Char))
      (paths : List String)

/-- What a call comes to. -/
inductive Answer where
  | result (r : Result)
  | map (m : RepoMap)

/-- Why a call comes to nothing. -/
inductive CallError where
  | fault (f : Yaml.Fault)
  | budget (e : RepoMap.BudgetError)
  /-- Something else than signatures was found where signatures are needed. -/
  | otherKind

namespace Call

/-- What a call comes to without a cache. -/
def direct : Call → Except CallError Answer
  | signatures path asked text => .ok (.result (.signatures (SignatureReport.of path asked text)))
  | surface path asked text => .ok (.result (.surface (Export.Surface.ofFile path asked text)))
  | complexity path asked text => .ok (.result (.complexity (ComplexityReport.of path asked text)))
  | frontmatter content =>
    ((Plan.frontmatter content).map fun entries => .result (.head entries)).mapError .fault
  | repoMap budget root read paths =>
    ((RepoMap.checkBudget budget).map fun _ =>
      .map (RepoMap.ofFiles budget root read paths)).mapError .budget

/-- The answer that a lookup on its own comes to. -/
def answerOf (result : Except Yaml.Fault Result) : Except CallError Answer :=
  (result.map .result).mapError .fault

/-- The signatures that a lookup came to. -/
def reportOf : Except Yaml.Fault Result → Except CallError SignatureReport
  | .ok (.signatures r) => .ok r
  | .ok _ => .error .otherKind
  | .error f => .error (.fault f)

/-- The map of files, given what the lookups of their signatures came to. -/
def mapOf (budget : Int) (paths : List String) (results : List (Except Yaml.Fault Result)) :
    Except CallError Answer :=
  (results.mapM reportOf).map fun reports => .map (RepoMap.ofReports budget (paths.zip reports))

/-- What a call does. -/
inductive Work where
  /-- It looks nothing up. -/
  | refuse (e : CallError)
  | lookUp (l : Lookup)
  /-- Its lookups go on side by side, and its answer is made of what they come to. -/
  | lookUpAll (ls : List Lookup)
      (assemble : List (Except Yaml.Fault Result) → Except CallError Answer)

/-- Work that is refused if a budget is out of range. -/
def Work.within (budget : Except RepoMap.BudgetError Unit) (w : Work) : Work :=
  match budget with
  | .error e => .refuse (.budget e)
  | .ok _ => w

/-- The work of a call. -/
def work : Call → Work
  | signatures path asked text => .lookUp (.signatures path asked text)
  | surface path asked text => .lookUp (.surface path asked text)
  | complexity path asked text => .lookUp (.complexity path asked text)
  | frontmatter content => .lookUp (.frontmatter content)
  | repoMap budget root read paths =>
    .within (RepoMap.checkBudget budget) <|
      .lookUpAll (paths.map fun path =>
        let path := RepoMap.lookupPath root path
        .signatures path none (read path)) (mapOf budget paths)

variable {κ : Type} [BEq κ] (digest : List UInt8 → κ)

/-- What a call comes to with a cache; its lookups are carried out one after the other. -/
def cached (call : Call) (c : Cache κ Result) : Except CallError Answer × Cache κ Result :=
  match call.work with
  | .refuse e => (.error e, c)
  | .lookUp l =>
    let (result, c) := l.complete digest c
    (answerOf result, c)
  | .lookUpAll ls assemble =>
    let (results, c) := Lookup.completeAll digest ls c
    (assemble results, c)

/-- What calls come to that share a cache. -/
def cachedAll : List Call → Cache κ Result → List (Except CallError Answer) × Cache κ Result
  | [], c => ([], c)
  | call :: more, c =>
    let (answer, c) := call.cached digest c
    let (answers, c) := cachedAll more c
    (answer :: answers, c)

/-- What a call can come to with a cache, in whatever order its lookups go on. -/
inductive Runs : Call → Cache κ Result → Except CallError Answer → Cache κ Result → Prop where
  | refuse {call : Call} {e : CallError} {c : Cache κ Result} (work : call.work = .refuse e) :
      Runs call c (.error e) c
  | lookUp {call : Call} {l : Lookup} {c c' : Cache κ Result}
      {result : Except Yaml.Fault Result} (work : call.work = .lookUp l)
      (pool : Lookup.Pool digest [l] c [.done result] c') : Runs call c (answerOf result) c'
  | lookUpAll {call : Call} {ls : List Lookup}
      {assemble : List (Except Yaml.Fault Result) → Except CallError Answer}
      {results : List (Except Yaml.Fault Result)} {c c' : Cache κ Result}
      (work : call.work = .lookUpAll ls assemble)
      (pool : Lookup.Pool digest ls c (results.map .done) c') :
      Runs call c (assemble results) c'

/-- What calls that share a cache can come to. -/
inductive Session :
    List Call → Cache κ Result → List (Except CallError Answer) → Cache κ Result → Prop where
  | rest {c : Cache κ Result} : Session [] c [] c
  | next {call : Call} {more : List Call} {answer : Except CallError Answer}
      {answers : List (Except CallError Answer)} {c c' c'' : Cache κ Result}
      (here : Runs digest call c answer c') (there : Session more c' answers c'') :
      Session (call :: more) c (answer :: answers) c''

end Call

end CodeSurvey.Cache
