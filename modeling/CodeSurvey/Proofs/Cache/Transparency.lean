import CodeSurvey.Cache.Session
import CodeSurvey.Proofs.Cache.Key
import Mathlib.Data.Set.Function

/-!
Calls that share a cache come to what they would come to without it. Every entry of the cache is the
result of some input under the digest of that input; an access keeps this, and it changes nothing
about what a lookup comes to, as long as no two inputs that are looked up have the same digest and
different results. So the order in which lookups go on does not matter, and neither does what the
cache forgets. Main statement: if the digest tells the octets apart that it is given, and no path and
no language tag holds a NUL character, the calls of every session come to what they come to directly.
-/

namespace CodeSurvey

namespace Cache

variable {κ : Type} [DecidableEq κ] {digest : List UInt8 → κ} {inputs : Set Input}
  {c c' : Cache κ Result} {l : Lookup} {ls ls' : List Lookup}

/-! ### Inputs -/

/-- What is made of an input, by its kind. -/
def Input.made (i : Input) : Except Yaml.Fault Result :=
  let language := i.language.getD ""
  if i.kind = "signatures" then
    .ok (.signatures (SignatureReport.ofCode i.path language i.content))
  else if i.kind = "exports" then
    .ok (.surface (Export.Surface.of (Ecma.treeOf? i.path language i.content) i.content language))
  else if i.kind = "complexity" then
    .ok (.complexity (ComplexityReport.ofCode i.path language i.content))
  else (Plan.frontmatter i.content).map .head

/-- Inputs with the same octets have the same result. -/
theorem Input.made_eq {i j : Input} (hi : i.Separated) (hj : j.Separated)
    (h : i.bytes = j.bytes) : i.made = j.made := by
  obtain ⟨hkind, hpath, hlanguage, hcontent⟩ := Input.parts_eq hi hj h
  rw [made, made, hkind, hpath, hlanguage, hcontent]

/-! ### Accesses -/

/-- Every entry holds what is made of an input, under the digest of that input. -/
def Sound (digest : List UInt8 → κ) (inputs : Set Input) (c : Cache κ Result) : Prop :=
  ∀ e ∈ c.entries, ∃ i ∈ inputs, digest i.bytes = e.1 ∧ i.made = .ok e.2

/-- Inputs with the same digest have the same result. -/
def Telling (digest : List UInt8 → κ) (inputs : Set Input) : Prop :=
  ∀ i ∈ inputs, ∀ j ∈ inputs, digest i.bytes = digest j.bytes → i.made = j.made

namespace Lookup

/-- A lookup has one of the inputs, and makes or has made of it what is to be made of it. -/
def Fits (inputs : Set Input) : Lookup → Prop
  | ask input make => input ∈ inputs ∧ make () = input.made
  | keep input result => input ∈ inputs ∧ .ok result = input.made
  | done _ => True

/-- One access keeps the cache sound and does not change what the lookup comes to. -/
theorem advance_spec (htelling : Telling digest inputs) (hc : Sound digest inputs c)
    (hl : l.Fits inputs) :
    Sound digest inputs (l.advance digest c).2 ∧ (l.advance digest c).1.Fits inputs ∧
      (l.advance digest c).1.answer = l.answer := by
  cases l with
  | done result => exact ⟨hc, trivial, rfl⟩
  | keep input result =>
    refine ⟨?_, trivial, rfl⟩
    intro e he
    rcases mem_of_mem_put he with rfl | he
    · exact ⟨input, hl.1, rfl, hl.2.symm⟩
    · exact hc e he
  | ask input make =>
    have hget : Sound digest inputs (c.get (digest input.bytes)).2 :=
      fun e he => hc e (mem_of_mem_get he)
    have hfst := get_fst c (digest input.bytes)
    simp only [advance]
    generalize c.get (digest input.bytes) = r at hget hfst
    obtain ⟨found, c'⟩ := r
    cases found with
    | some result =>
      -- what is found was made of an input with the same digest
      obtain ⟨i, hi, hdigest, hmade⟩ := hc _ (mem_of_peek? hfst.symm)
      have hsame := htelling i hi input hl.1 hdigest
      exact ⟨hget, trivial, by rw [answer, answer, hl.2, ← hsame, hmade]⟩
    | none =>
      cases hmake : make () with
      | ok result => exact ⟨hget, ⟨hl.1, by rw [← hmake]; exact hl.2⟩, hmake.symm⟩
      | error f => exact ⟨hget, trivial, hmake.symm⟩

/-- Whatever the order of the accesses, the cache stays sound and the lookups come to the same. -/
theorem pool_spec (htelling : Telling digest inputs) (h : Pool digest ls c ls' c')
    (hc : Sound digest inputs c) (hls : ∀ l ∈ ls, l.Fits inputs) :
    Sound digest inputs c' ∧ ls'.map answer = ls.map answer := by
  induction h with
  | rest => exact ⟨hc, rfl⟩
  | @turn before after ls' l c c' _ ih =>
    have hl := hls l (by simp)
    obtain ⟨hsound, hfits, hanswer⟩ := advance_spec htelling hc hl
    have hothers : ∀ l' ∈ before ++ (l.advance digest c).1 :: after, l'.Fits inputs := by
      intro l' hl'
      rcases List.mem_append.1 hl' with hl' | hl'
      · exact hls l' (List.mem_append_left _ hl')
      · rcases List.mem_cons.1 hl' with rfl | hl'
        · exact hfits
        · exact hls l' (List.mem_append_right _ (List.mem_cons_of_mem _ hl'))
    obtain ⟨hsound', heq⟩ := ih hsound hothers
    refine ⟨hsound', heq.trans ?_⟩
    rw [List.map_append, List.map_append, List.map_cons, List.map_cons, hanswer]

theorem map_answer_done (results : List (Except Yaml.Fault Result)) :
    (results.map done).map answer = results := by
  induction results with
  | nil => rfl
  | cons r more ih => rw [List.map_cons, List.map_cons, ih]; rfl

/-! ### The lookups of the analyses -/

/-- A lookup that has not begun: it asks for what is to be made of its input, or there is nothing to
    ask for. -/
inductive Fresh : Lookup → Prop where
  | ask {input : Input} {make : Unit → Except Yaml.Fault Result} (made : make () = input.made) :
      Fresh (ask input make)
  | done {result : Except Yaml.Fault Result} : Fresh (done result)

theorem Fresh.fits (h : l.Fresh) (hinput : ∀ i, l.input? = some i → i ∈ inputs) :
    l.Fits inputs := by
  cases h with
  | ask made => exact ⟨hinput _ rfl, made⟩
  | done => trivial

section OfFile

variable {kind path : String} {language : Option String} {text : Option (List Char)}
  {make : String → List Char → Result} {otherwise : Result}

theorem fresh_ofFile (h : ∀ tag code, .ok (make tag code) = Input.made ⟨kind, path, some tag, code⟩) :
    (ofFile kind path language text make otherwise).Fresh := by
  unfold ofFile
  split
  · exact .ask (h _ _)
  · exact .done

theorem answer_ofFile {result : Result}
    (hmake : ∀ tag code, language = some tag → text = some code → make tag code = result)
    (hother : otherwise = result) :
    (ofFile kind path language text make otherwise).answer = .ok result := by
  unfold ofFile
  split
  · exact congrArg Except.ok (hmake _ _ rfl rfl)
  · exact congrArg Except.ok hother

theorem separated_ofFile (hkind : NulFree kind) (hpath : NulFree path)
    (hlanguage : ∀ tag, language = some tag → NulFree tag) {i : Input}
    (h : (ofFile kind path language text make otherwise).input? = some i) : i.Separated := by
  unfold ofFile at h
  split at h
  · obtain rfl := Option.some.inj h
    exact ⟨hkind, hpath, hlanguage _ rfl⟩
  · simp [input?] at h

end OfFile

theorem fresh_signatures (path : String) (asked : Option String) (text : Option (List Char)) :
    (signatures path asked text).Fresh := fresh_ofFile fun _ _ => rfl

theorem fresh_surface (path : String) (asked : Option String) (text : Option (List Char)) :
    (surface path asked text).Fresh := fresh_ofFile fun _ _ => rfl

theorem fresh_complexity (path : String) (asked : Option String) (text : Option (List Char)) :
    (complexity path asked text).Fresh := fresh_ofFile fun _ _ => rfl

theorem fresh_frontmatter (content : List Char) : (frontmatter content).Fresh := by
  unfold frontmatter
  split
  · exact .done
  · exact .ask rfl

theorem answer_signatures (path : String) (asked : Option String) (text : Option (List Char)) :
    (signatures path asked text).answer =
      .ok (.signatures (SignatureReport.of path asked text)) := by
  refine answer_ofFile (fun tag code htag htext => ?_) rfl
  simp only [SignatureReport.of, htext, htag]

theorem answer_surface (path : String) (asked : Option String) (text : Option (List Char)) :
    (surface path asked text).answer = .ok (.surface (Export.Surface.ofFile path asked text)) := by
  refine answer_ofFile (fun tag code htag htext => ?_) rfl
  obtain ⟨hchosen, hgrammar⟩ := Option.filter_eq_some_iff.1 htag
  simp only [Export.Surface.ofFile, htext, hchosen, hgrammar, if_true]

theorem answer_complexity (path : String) (asked : Option String) (text : Option (List Char)) :
    (complexity path asked text).answer =
      .ok (.complexity (ComplexityReport.of path asked text)) := by
  refine answer_ofFile (fun tag code htag htext => ?_) rfl
  simp only [ComplexityReport.of, htext, htag]

theorem answer_frontmatter (content : List Char) :
    (frontmatter content).answer = (Plan.frontmatter content).map .head := by
  unfold frontmatter
  split
  · rename_i hempty
    rw [List.isEmpty_iff.1 hempty]
    rfl
  · rfl

/-! ### Parts without a NUL character -/

theorem nulFree_of_byExtension : ∀ tag ∈ Language.byExtension.map (·.2), NulFree tag := by decide

/-- The language of a file holds no NUL character, unless one was asked for that does. -/
theorem nulFree_of_choose {path language : String} {asked : Option String}
    (hasked : ∀ tag, asked = some tag → NulFree tag)
    (h : Language.choose? asked path = some language) : NulFree language := by
  have hpath : Language.ofPath? path = some language → NulFree language := by
    intro hlookup
    obtain ⟨front, behind, heq, _⟩ := List.lookup_eq_some_iff.1 hlookup
    exact nulFree_of_byExtension language (by rw [heq]; simp)
  unfold Language.choose? at h
  split at h
  · rename_i tag
    split at h
    · exact hpath h
    · obtain rfl := Option.some.inj h
      exact hasked _ rfl
  · exact hpath h

section Separated

variable {path : String} {asked : Option String} {text : Option (List Char)} {i : Input}

theorem separated_signatures (hpath : NulFree path) (hasked : ∀ tag, asked = some tag → NulFree tag)
    (h : (signatures path asked text).input? = some i) : i.Separated :=
  separated_ofFile (by decide) hpath (fun _ htag => nulFree_of_choose hasked htag) h

theorem separated_surface (hpath : NulFree path) (hasked : ∀ tag, asked = some tag → NulFree tag)
    (h : (surface path asked text).input? = some i) : i.Separated :=
  separated_ofFile (by decide) hpath
    (fun _ htag => nulFree_of_choose hasked (Option.filter_eq_some_iff.1 htag).1) h

theorem separated_complexity (hpath : NulFree path) (hasked : ∀ tag, asked = some tag → NulFree tag)
    (h : (complexity path asked text).input? = some i) : i.Separated :=
  separated_ofFile (by decide) hpath (fun _ htag => nulFree_of_choose hasked htag) h

theorem separated_frontmatter {content : List Char}
    (h : (frontmatter content).input? = some i) : i.Separated := by
  have hparts : NulFree "frontmatter" ∧ NulFree "" ∧ NulFree "" := by decide
  unfold frontmatter at h
  split at h
  · simp [input?] at h
  · obtain rfl := Option.some.inj h
    exact hparts

end Separated

/-! ### Going on to the end -/

omit [DecidableEq κ] in
theorem Pool.trans [BEq κ] {ls₁ ls₂ ls₃ : List Lookup} {c₁ c₂ c₃ : Cache κ Result}
    (h : Pool digest ls₁ c₁ ls₂ c₂) (h' : Pool digest ls₂ c₂ ls₃ c₃) :
    Pool digest ls₁ c₁ ls₃ c₃ := by
  induction h with
  | rest => exact h'
  | turn _ ih => exact .turn (ih h')

/-- After two accesses a lookup is done. -/
theorem advance_advance (digest : List UInt8 → κ) (l : Lookup) (c c' : Cache κ Result) :
    ∃ result, (((l.advance digest c).1).advance digest c').1 = done result := by
  cases l with
  | ask input make =>
    simp only [advance]
    cases c.get (digest input.bytes) with
    | mk found _ =>
      cases found with
      | some _ => exact ⟨_, rfl⟩
      | none => cases make () <;> exact ⟨_, rfl⟩
  | keep _ _ => exact ⟨_, rfl⟩
  | done _ => exact ⟨_, rfl⟩

theorem pool_complete (before after : List Lookup) (l : Lookup) (c : Cache κ Result) :
    Pool digest (before ++ l :: after) c (before ++ done (l.complete digest c).1 :: after)
      (l.complete digest c).2 := by
  obtain ⟨result, hdone⟩ := advance_advance digest l c (l.advance digest c).2
  have hend : done (l.complete digest c).1 =
      (((l.advance digest c).1).advance digest (l.advance digest c).2).1 := by
    simp only [complete, hdone, answer]
  rw [hend]
  exact .turn (.turn .rest)

/-- One after the other is one way to go on side by side. -/
theorem pool_completeAll (before ls : List Lookup) (c : Cache κ Result) :
    Pool digest (before ++ ls) c (before ++ (completeAll digest ls c).1.map done)
      (completeAll digest ls c).2 := by
  induction ls generalizing before c with
  | nil => exact .rest
  | cons l more ih =>
    have hmore := ih (before ++ [done (l.complete digest c).1]) (l.complete digest c).2
    rw [List.append_assoc, List.append_assoc] at hmore
    exact (pool_complete before more l c).trans hmore

end Lookup

namespace Call

open Lookup

/-! ### Calls -/

/-- What a work comes to if the cache holds nothing. -/
def Work.direct : Work → Except CallError Answer
  | refuse e => .error e
  | lookUp l => answerOf l.answer
  | lookUpAll ls assemble => assemble (ls.map answer)

/-- The lookups of a work. -/
def Work.lookups : Work → List Lookup
  | refuse _ => []
  | lookUp l => [l]
  | lookUpAll ls _ => ls

/-- The lookups of a call. -/
def lookups (call : Call) : List Lookup := call.work.lookups

/-- No path and no language tag of a call holds a NUL character. -/
def Plain : Call → Prop
  | signatures path asked _ | surface path asked _ | complexity path asked _ =>
    NulFree path ∧ ∀ tag, asked = some tag → NulFree tag
  | frontmatter _ => True
  | repoMap _ root _ paths => NulFree root ∧ ∀ path ∈ paths, NulFree path

/-- The octets of which calls have digests made. -/
def digested (calls : List Call) : Set (List UInt8) :=
  { bytes | ∃ call ∈ calls, ∃ l ∈ call.lookups, ∃ i, l.input? = some i ∧ i.bytes = bytes }

/-- Lookups of signatures come to a map like the reports themselves. -/
theorem mapOf_answers (budget : Int) (root : String) (read : String → Option (List Char))
    (paths : List String) :
    mapOf budget paths ((paths.map fun path =>
      Lookup.signatures (RepoMap.lookupPath root path) none
        (read (RepoMap.lookupPath root path))).map answer) =
      .ok (.map (RepoMap.ofFiles budget root read paths)) := by
  have hreports : ∀ more : List String, ((more.map fun path =>
      Lookup.signatures (RepoMap.lookupPath root path) none
        (read (RepoMap.lookupPath root path))).map answer).mapM reportOf =
      .ok (more.map (RepoMap.reportOn root read)) := by
    intro more
    induction more with
    | nil => rfl
    | cons path more ih =>
      rw [List.map_cons, List.map_cons, List.mapM_cons, ih, answer_signatures]
      rfl
  rw [mapOf, hreports, RepoMap.ofFiles]
  have hzip : paths.zip (paths.map (RepoMap.reportOn root read)) =
      paths.map fun p => (p, RepoMap.reportOn root read p) := by
    induction paths with
    | nil => rfl
    | cons path more ih => rw [List.map_cons, List.zip_cons_cons, ih, List.map_cons]
  rw [← hzip]
  rfl

theorem answerOf_ok (r : Result) : answerOf (.ok r) = .ok (.result r) := rfl

/-- What a call comes to directly is what its work comes to if the cache holds nothing. -/
theorem direct_work (call : Call) : call.work.direct = call.direct := by
  cases call with
  | signatures path asked text =>
    simp only [work, Work.direct, answer_signatures, answerOf_ok, direct]
  | surface path asked text => simp only [work, Work.direct, answer_surface, answerOf_ok, direct]
  | complexity path asked text =>
    simp only [work, Work.direct, answer_complexity, answerOf_ok, direct]
  | frontmatter content =>
    simp only [work, Work.direct, answer_frontmatter, direct]
    cases Plan.frontmatter content <;> rfl
  | repoMap budget root read paths =>
    simp only [work, direct]
    cases RepoMap.checkBudget budget with
    | error e => rfl
    | ok _ => exact mapOf_answers budget root read paths

theorem Work.mem_lookups_within {budget : Except RepoMap.BudgetError Unit} {w : Work}
    (hl : l ∈ (w.within budget).lookups) : l ∈ w.lookups := by
  cases budget with
  | error e => exact absurd hl (List.not_mem_nil)
  | ok _ => exact hl

theorem fresh_of_mem_lookups {call : Call} (hl : l ∈ call.lookups) : l.Fresh := by
  cases call with
  | signatures path asked text => rw [List.mem_singleton.1 hl]; exact fresh_signatures ..
  | surface path asked text => rw [List.mem_singleton.1 hl]; exact fresh_surface ..
  | complexity path asked text => rw [List.mem_singleton.1 hl]; exact fresh_complexity ..
  | frontmatter content => rw [List.mem_singleton.1 hl]; exact fresh_frontmatter ..
  | repoMap budget root read paths =>
    rw [lookups, work] at hl
    obtain ⟨path, _, rfl⟩ := List.mem_map.1 (Work.mem_lookups_within hl)
    exact fresh_signatures ..

theorem nulFree_lookupPath {root path : String} (hroot : NulFree root) (hpath : NulFree path) :
    NulFree (RepoMap.lookupPath root path) := by
  intro h
  rw [RepoMap.lookupPath, String.toList_ofList] at h
  rcases Path.mem_tidy h with h | h | h
  · rcases Path.mem_append h with h | h | h
    · exact hroot h
    · exact hpath h
    · exact absurd h (by decide)
  · exact absurd h (by decide)
  · exact absurd h (by decide)

theorem separated_of_mem_lookups {call : Call} (hcall : call.Plain) (hl : l ∈ call.lookups)
    {i : Input} (hi : l.input? = some i) : i.Separated := by
  cases call with
  | signatures path asked text =>
    rw [List.mem_singleton.1 hl] at hi
    exact separated_signatures hcall.1 hcall.2 hi
  | surface path asked text =>
    rw [List.mem_singleton.1 hl] at hi
    exact separated_surface hcall.1 hcall.2 hi
  | complexity path asked text =>
    rw [List.mem_singleton.1 hl] at hi
    exact separated_complexity hcall.1 hcall.2 hi
  | frontmatter content =>
    rw [List.mem_singleton.1 hl] at hi
    exact separated_frontmatter hi
  | repoMap budget root read paths =>
    rw [lookups, work] at hl
    obtain ⟨path, hpath, rfl⟩ := List.mem_map.1 (Work.mem_lookups_within hl)
    exact separated_signatures (nulFree_lookupPath hcall.1 (hcall.2 path hpath)) (by simp) hi

/-- A call keeps the cache sound and comes to what it comes to directly. -/
theorem runs_spec {call : Call} {answer : Except CallError Answer} (htelling : Telling digest inputs)
    (h : Runs digest call c answer c') (hc : Sound digest inputs c)
    (hinputs : ∀ l ∈ call.lookups, ∀ i, l.input? = some i → i ∈ inputs) :
    Sound digest inputs c' ∧ answer = call.direct := by
  have hfits : ∀ l ∈ call.lookups, l.Fits inputs :=
    fun l hl => (fresh_of_mem_lookups hl).fits (hinputs l hl)
  rw [← direct_work]
  cases h with
  | refuse hwork => exact ⟨hc, by rw [hwork]; rfl⟩
  | @lookUp _ l _ result hwork pool =>
    rw [lookups, hwork] at hfits
    obtain ⟨hsound, hanswers⟩ := pool_spec htelling pool hc hfits
    have hresult := (List.cons.inj hanswers).1
    exact ⟨hsound, by rw [hwork, Work.direct, ← hresult]; rfl⟩
  | @lookUpAll _ ls assemble results _ hwork pool =>
    rw [lookups, hwork] at hfits
    obtain ⟨hsound, hanswers⟩ := pool_spec htelling pool hc hfits
    rw [map_answer_done] at hanswers
    exact ⟨hsound, by rw [hwork, hanswers]; rfl⟩

/-- The calls of a session come to what they come to directly. -/
theorem session_spec {calls : List Call} {answers : List (Except CallError Answer)}
    (htelling : Telling digest inputs) (h : Session digest calls c answers c')
    (hc : Sound digest inputs c)
    (hinputs : ∀ call ∈ calls, ∀ l ∈ call.lookups, ∀ i, l.input? = some i → i ∈ inputs) :
    answers = calls.map direct := by
  induction h with
  | rest => rfl
  | next here _ ih =>
    obtain ⟨hsound, hanswer⟩ := runs_spec htelling here hc (hinputs _ (List.mem_cons_self ..))
    rw [List.map_cons, hanswer, ih hsound fun call hcall =>
      hinputs call (List.mem_cons_of_mem _ hcall)]

/-- Carrying the lookups of a call out one after the other is one way to run it. -/
theorem runs_cached (call : Call) (c : Cache κ Result) :
    Runs digest call c (call.cached digest c).1 (call.cached digest c).2 := by
  unfold cached
  split
  · rename_i hwork
    exact .refuse hwork
  · rename_i l hwork
    exact .lookUp hwork (pool_complete [] [] l c)
  · rename_i ls assemble hwork
    exact .lookUpAll hwork (pool_completeAll [] ls c)

theorem session_cachedAll (calls : List Call) (c : Cache κ Result) :
    Session digest calls c (cachedAll digest calls c).1 (cachedAll digest calls c).2 := by
  induction calls generalizing c with
  | nil => exact .rest
  | cons call more ih => exact .next (runs_cached call c) (ih _)

omit [DecidableEq κ] in
/-- Inputs of calls without NUL characters have the same result if they have the same digest. -/
theorem telling_of_injOn {calls : List Call} (hplain : ∀ call ∈ calls, call.Plain)
    (hdigest : Set.InjOn digest (digested calls)) :
    Telling digest { i | ∃ call ∈ calls, ∃ l ∈ call.lookups, l.input? = some i } := by
  rintro i ⟨call, hcall, l, hl, hi⟩ j ⟨call', hcall', l', hl', hj⟩ hsame
  have hbytes := hdigest ⟨call, hcall, l, hl, i, hi, rfl⟩ ⟨call', hcall', l', hl', j, hj, rfl⟩ hsame
  exact Input.made_eq (separated_of_mem_lookups (hplain call hcall) hl hi)
    (separated_of_mem_lookups (hplain call' hcall') hl' hj) hbytes

end Call

end Cache

end CodeSurvey
