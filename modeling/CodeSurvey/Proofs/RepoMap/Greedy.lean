import CodeSurvey.Proofs.Number.Double
import CodeSurvey.RepoMap.Summary
import Mathlib

/-!
The repository map as a greedy choice. Main statement: the map shows as many of the ranked files as
fit, one after the other, each with as many signatures as the text so far leaves room for; the first
file is always shown.
-/

namespace CodeSurvey.RepoMap

variable {budget : Int} {before rest : List FileDigest} {taken : List (FileDigest × List Char)}

/-! ### The text so far -/

/-- The characters of a budget, 4.8 for a token. -/
def limit (budget : Int) : ℚ := 4.8 * budget

/-- The title, an empty line and the sections, one below the other. -/
def joined (sections : List (List Char)) : List Char :=
  Text.join ['\n'] ("# Repo Map".toList :: [] :: sections)

/-- The number of signatures that the next section may list. -/
def nextLimit (budget : Int) (sections : List (List Char)) : Int :=
  if limit budget - (joined sections).length < 2000 then 10 else 30

/-- The sections of digests, each with as many signatures as the ones before it leave room for. -/
def rendered (budget : Int) (digests : List FileDigest) : List (List Char) :=
  digests.foldl (fun sections d => sections ++ [fileSection d (nextLimit budget sections)]) []

/-- The number of characters up to the last section of digests. -/
def sizeOf (budget : Int) (digests : List FileDigest) : Nat :=
  (joined (rendered budget digests)).length

theorem join_header (sections : List (List Char)) :
    Text.join ['\n'] (header :: sections) = joined sections := by
  cases sections with
  | nil => rfl
  | cons s more => rfl

theorem header_prefix_joined (sections : List (List Char)) : header <+: joined sections := by
  rw [← join_header]
  cases sections with
  | nil => exact List.prefix_rfl
  | cons s more => exact ⟨['\n'] ++ Text.join ['\n'] (s :: more), rfl⟩

theorem length_joined_concat (sections : List (List Char)) (s : List Char) :
    (joined (sections ++ [s])).length = (joined sections).length + s.length + 1 := by
  have hconcat : joined (sections ++ [s]) = joined sections ++ ['\n'] ++ s :=
    Text.join_concat ['\n'] (List.cons_ne_nil "# Repo Map".toList ([] :: sections)) s
  rw [hconcat]
  simp only [List.length_append, List.length_singleton]
  omega

theorem rendered_concat (budget : Int) (before : List FileDigest) (d : FileDigest) :
    rendered budget (before ++ [d]) =
      rendered budget before ++ [fileSection d (nextLimit budget (rendered budget before))] := by
  rw [rendered, List.foldl_append, ← rendered]
  rfl

theorem sizeOf_concat (budget : Int) (before : List FileDigest) (d : FileDigest) :
    sizeOf budget (before ++ [d]) = sizeOf budget before +
      (fileSection d (nextLimit budget (rendered budget before))).length + 1 := by
  rw [sizeOf, rendered_concat, length_joined_concat, ← sizeOf]

theorem sizeOf_le_sizeOf_append (budget : Int) (before more : List FileDigest) :
    sizeOf budget before ≤ sizeOf budget (before ++ more) := by
  induction more generalizing before with
  | nil => rw [List.append_nil]
  | cons d more ih =>
    calc sizeOf budget before ≤ sizeOf budget (before ++ [d]) := by
          rw [sizeOf_concat]
          omega
      _ ≤ sizeOf budget (before ++ [d] ++ more) := ih _
      _ = sizeOf budget (before ++ d :: more) := by rw [List.append_assoc, List.singleton_append]

theorem sizeOf_take_le (budget : Int) (digests : List FileDigest) {i j : Nat} (h : i ≤ j) :
    sizeOf budget (digests.take i) ≤ sizeOf budget (digests.take j) := by
  obtain ⟨more, hmore⟩ := List.take_prefix_take_left (l := digests) h
  rw [← hmore]
  exact sizeOf_le_sizeOf_append budget _ more

/-! ### The exact limit -/

theorem fits_iff (budget : Int) (size : Nat) :
    fits budget size = true ↔ (size : ℚ) ≤ limit budget := by
  have hcast : 5 * (size : Int) ≤ 24 * budget ↔ 5 * (size : ℚ) ≤ 24 * budget := by exact_mod_cast Iff.rfl
  rw [fits, decide_eq_true_iff, hcast, limit]
  constructor <;> intro h <;> linarith

theorem signatureLimit_eq (budget : Int) (before : List FileDigest) :
    signatureLimit budget (sizeOf budget before) = nextLimit budget (rendered budget before) := by
  have hcast : 24 * budget - 5 * (sizeOf budget before : Int) < 10000 ↔
      24 * (budget : ℚ) - 5 * sizeOf budget before < 10000 := by exact_mod_cast Iff.rfl
  have hscale : 24 * (budget : ℚ) - 5 * sizeOf budget before < 10000 ↔
      limit budget - sizeOf budget before < 2000 := by
    rw [limit]
    constructor <;> intro h <;> linarith
  rw [signatureLimit, nextLimit, ← sizeOf]
  simp only [hcast, hscale]

/-- The counter goes on to the size of the text with one more section. -/
theorem sizeOf_add_section (budget : Int) (before : List FileDigest) (d : FileDigest) :
    sizeOf budget before +
      (fileSection d (signatureLimit budget (sizeOf budget before))).length + 1 =
        sizeOf budget (before ++ [d]) := by
  rw [signatureLimit_eq, sizeOf_concat]

/-! ### The run over the digests -/

/-- What the run over the digests takes when others stand before them. -/
structure Run (budget : Int) (before rest : List FileDigest)
    (taken : List (FileDigest × List Char)) : Prop where
  digests : taken.map (·.1) = rest.take taken.length
  sections : rendered budget (before ++ rest.take taken.length) =
    rendered budget before ++ taken.map (·.2)
  one_le : before = [] → rest ≠ [] → 1 ≤ taken.length
  within : 1 ≤ taken.length → 2 ≤ before.length + taken.length →
    fits budget (sizeOf budget (before ++ rest.take taken.length)) = true
  next : taken.length < rest.length →
    fits budget (sizeOf budget (before ++ rest.take (taken.length + 1))) = false

theorem Run.nil (budget : Int) (before : List FileDigest) : Run budget before [] [] where
  digests := rfl
  sections := by simp
  one_le _ h := absurd rfl h
  within h := absurd h (by decide)
  next h := absurd h (by simp)

/-- The next digest is not taken. -/
theorem Run.stop {d : FileDigest} (hbefore : before ≠ [])
    (hfull : fits budget (sizeOf budget (before ++ [d])) = false) :
    Run budget before (d :: rest) [] where
  digests := rfl
  sections := by simp
  one_le h := absurd h hbefore
  within h := absurd h (by decide)
  next _ := by simpa using hfull

/-- The next digest is taken: it is the first one, or it fits. -/
theorem Run.take {d : FileDigest}
    (htake : before = [] ∨ fits budget (sizeOf budget (before ++ [d])) = true)
    (h : Run budget (before ++ [d]) rest taken) :
    Run budget before (d :: rest)
      ((d, fileSection d (nextLimit budget (rendered budget before))) :: taken) where
  digests := by rw [List.map_cons, h.digests]; rfl
  sections := by
    have hsections := h.sections
    rw [rendered_concat, List.append_assoc, List.append_assoc] at hsections
    exact hsections
  one_le _ _ := Nat.le_add_left 1 _
  within _ htwo := by
    rcases Nat.eq_zero_or_pos taken.length with hzero | hpos
    · -- The digest is the last one taken.
      have hbefore : before ≠ [] := by
        rintro rfl
        simp [hzero] at htwo
      rw [List.length_cons, hzero]
      exact htake.resolve_left hbefore
    · have hwithin := h.within hpos (by rw [List.length_append, List.length_singleton]; omega)
      rw [List.append_assoc] at hwithin
      exact hwithin
  next hlt := by
    have hnext := h.next (Nat.lt_of_succ_lt_succ hlt)
    rw [List.append_assoc] at hnext
    exact hnext

/-- The counter of the run is the size of the text, so the run takes what it should. -/
theorem run_sectionsFrom (budget : Int) (before rest : List FileDigest) :
    Run budget before rest
      (sectionsFrom budget (sizeOf budget before) before.isEmpty rest) := by
  induction rest generalizing before with
  | nil => exact .nil budget before
  | cons d more ih =>
    have hmore := ih (before ++ [d])
    rw [List.isEmpty_eq_false_iff.2 (List.concat_ne_nil d before)] at hmore
    simp only [sectionsFrom, sizeOf_add_section, Bool.or_eq_true, List.isEmpty_iff]
    split
    next htake =>
      rw [signatureLimit_eq]
      exact .take htake hmore
    next hstop =>
      obtain ⟨hbefore, hfull⟩ := not_or.1 hstop
      exact .stop hbefore (Bool.eq_false_iff.2 hfull)

/-! ### The ranking -/

/-- More signatures come first, and files with equally many stand as they stood. -/
structure Ranked (files digests : List FileDigest) : Prop where
  perm : digests.Perm files
  pairwise : digests.Pairwise fun d e => e.signatures.length ≤ d.signatures.length
  stable : ∀ n, digests.filter (fun d => d.signatures.length == n) =
    files.filter fun d => d.signatures.length == n

theorem ranked_ranked (files : List FileDigest) : Ranked files (ranked files) where
  perm := ranked_perm files
  pairwise := pairwise_ranked files
  stable := Sorting.filter_largestFirst (·.signatures.length) files

/-! ### The map -/

/-- The map shows the first of the ranked digests, as many as fit. -/
structure Greedy (budget : Int) (digests : List FileDigest) (m : RepoMap) : Prop where
  files_le : m.files ≤ digests.length
  summary : m.summary = Text.trim (joined (rendered budget (digests.take m.files)))
  one_le : digests ≠ [] → 1 ≤ m.files
  within : 2 ≤ m.files → (m.summary.length : ℚ) ≤ limit budget
  next : m.files < digests.length →
    limit budget < (joined (rendered budget (digests.take (m.files + 1)))).length
  signatures : m.signatures = ((digests.take m.files).map (·.signatures.length)).sum
  tokens : (m.tokens : Int) = ⌈(m.summary.length : ℚ) / 4⌉

theorem tokens_eq_ceil (m : RepoMap) : (m.tokens : Int) = ⌈(m.summary.length : ℚ) / 4⌉ := by
  have hlow : m.summary.length ≤ 4 * m.tokens := by rw [tokens]; omega
  have hhigh : 4 * m.tokens < m.summary.length + 4 := by rw [tokens]; omega
  have hlow' : (m.summary.length : ℚ) ≤ 4 * m.tokens := by exact_mod_cast hlow
  have hhigh' : 4 * (m.tokens : ℚ) < m.summary.length + 4 := by exact_mod_cast hhigh
  refine (Int.ceil_eq_iff.2 ⟨?_, ?_⟩).symm <;> rw [Int.cast_natCast] <;> linarith

theorem run_ranked (budget : Int) (files : List FileDigest) :
    Run budget [] (ranked files) (sectionsFrom budget header.length true (ranked files)) := by
  have hsize : sizeOf budget [] = header.length := by
    rw [← Text.join.eq_2 ['\n'] header, join_header]
    rfl
  rw [← hsize]
  exact run_sectionsFrom budget [] (ranked files)

theorem files_le_length (budget : Int) (files : List FileDigest) :
    (ofDigests budget files).files ≤ (ranked files).length := by
  have htaken := ( sectionsFrom_prefix budget header.length true (ranked files)).length_le
  rw [List.length_map] at htaken
  exact htaken

theorem fits_files {files : List FileDigest} (h : 2 ≤ (ofDigests budget files).files) :
    fits budget (sizeOf budget ((ranked files).take (ofDigests budget files).files)) = true := by
  refine (run_ranked budget files).within (Nat.le_of_succ_le h) ?_
  rw [List.length_nil, Nat.zero_add]
  exact h

theorem not_fits_next {files : List FileDigest}
    (h : (ofDigests budget files).files < (ranked files).length) :
    fits budget (sizeOf budget ((ranked files).take ((ofDigests budget files).files + 1))) =
      false :=
  (run_ranked budget files).next h

theorem greedy_ofDigests (budget : Int) (files : List FileDigest) :
    Greedy budget (ranked files) (ofDigests budget files) := by
  have hrun := run_ranked budget files
  have hsummary : (ofDigests budget files).summary =
      Text.trim (joined (rendered budget ((ranked files).take (ofDigests budget files).files))) := by
    have hsections := hrun.sections
    rw [List.nil_append] at hsections
    rw [ofDigests, hsections, join_header]
    rfl
  refine ⟨files_le_length budget files, hsummary, hrun.one_le rfl, fun htwo => ?_, fun hlt => ?_, ?_,
    tokens_eq_ceil _⟩
  · -- within
    have hfits := (fits_iff ..).1 (fits_files htwo)
    have htrim := Text.length_trim_le
      (joined (rendered budget ((ranked files).take (ofDigests budget files).files)))
    rw [← hsummary] at htrim
    exact le_trans (by exact_mod_cast htrim) hfits
  · -- next
    have hfull := not_fits_next hlt
    rw [Bool.eq_false_iff, Ne, fits_iff, not_le] at hfull
    exact hfull
  · -- signatures
    have hdigests := congrArg (List.map (·.signatures.length)) hrun.digests
    rw [List.map_map] at hdigests
    exact congrArg List.sum hdigests

/-- What a report finds in the file at a path. -/
def digestOf (path : String) (r : SignatureReport) : FileDigest :=
  ⟨path, r.signatures, (r.surface.map (·.names)).getD []⟩

/-- The digests of the files below `root` in which something was found. -/
def digestsOf (root : String) (read : String → Option (List Char)) (paths : List String) :
    List FileDigest :=
  (paths.map fun path => digestOf path (reportOn root read path)).filter
    fun d => d.signatures ≠ [] ∨ d.exports ≠ []

theorem of?_eq_guard (path : String) (r : SignatureReport) :
    FileDigest.of? path r =
      Option.guard (fun d => d.signatures ≠ [] ∨ d.exports ≠ []) (digestOf path r) := by
  rw [FileDigest.of?, Option.guard]
  by_cases hsignatures : r.signatures = [] <;>
    by_cases hexports : (r.surface.map (·.names)).getD [] = [] <;>
      simp [digestOf, hsignatures, hexports]

theorem ofFiles_eq (budget : Int) (root : String) (read : String → Option (List Char))
    (paths : List String) :
    ofFiles budget root read paths = ofDigests budget (digestsOf root read paths) := by
  rw [ofFiles, ofReports, digestsOf, ← List.filterMap_eq_filter, List.filterMap_map,
    List.filterMap_map]
  refine congrArg _ (List.filterMap_congr fun path _ => ?_)
  exact of?_eq_guard path (reportOn root read path)

/-! ### Budgets -/

/-- The characters of a budget are within the range of floating point numbers. -/
def InRange (budget : Int) : Prop := (4 * budget).natAbs < Double.wholeBound

/-- There is a map within a budget if its characters can be said. -/
theorem checkBudget_eq_ok_iff (budget : Int) : checkBudget budget = .ok () ↔ InRange budget := by
  refine Iff.trans ?_ (Double.isFinite_ofInt (4 * budget))
  unfold checkBudget
  split
  · exact iff_of_true rfl ‹_›
  · exact iff_of_false (fun h => nomatch h) ‹_›

theorem inRange_of_abs_lt {budget : Int} (h : |budget| < 2 ^ 50) : InRange budget := by
  have hbound := Double.two_pow_le_wholeBound
  obtain ⟨hlow, hhigh⟩ := abs_lt.1 h
  rw [InRange]
  omega

/-- There is a map, the files in which something was found are ranked by their signatures, and the
    map shows as many of them as fit, the first one always. -/
theorem ofFiles_greedy (budget : Int) (hbudget : |budget| < 2 ^ 50) (root : String)
    (read : String → Option (List Char)) (paths : List String) :
    checkBudget budget = .ok () ∧
      Ranked (digestsOf root read paths) (ranked (digestsOf root read paths)) ∧
      Greedy budget (ranked (digestsOf root read paths)) (ofFiles budget root read paths) := by
  refine ⟨(checkBudget_eq_ok_iff budget).2 (inRange_of_abs_lt hbudget), ranked_ranked _, ?_⟩
  rw [ofFiles_eq]
  exact greedy_ofDigests budget _

/-- A folder with two scripts. -/
def twoScripts : String → Option (List Char)
  | "a.js" => some "function f(x) \x7b\x7d".toList
  | "b.js" => some "class A \x7b m() \x7b\x7d \x7d".toList
  | _ => none

theorem digestsOf_twoScripts : digestsOf "." twoScripts ["a.js", "b.js"] =
    [⟨"a.js", [⟨"f", .function, ["x"], 1, false, false⟩], []⟩,
      ⟨"b.js", [⟨"A", .classDef, [], 1, false, false⟩, ⟨"A.m", .method, [], 1, false, false⟩],
        []⟩] := by
  decide +kernel

/-- The script with two signatures comes first, and the other one still fits. -/
theorem ofFiles_greedy_two_scripts :
    |(25 : Int)| < 2 ^ 50 ∧ checkBudget 25 = .ok () ∧
      Ranked (digestsOf "." twoScripts ["a.js", "b.js"])
        (ranked (digestsOf "." twoScripts ["a.js", "b.js"])) ∧
      Greedy 25 (ranked (digestsOf "." twoScripts ["a.js", "b.js"]))
        (ofFiles 25 "." twoScripts ["a.js", "b.js"]) ∧
      (ranked (digestsOf "." twoScripts ["a.js", "b.js"])).map (·.path) = ["b.js", "a.js"] ∧
      (ofFiles 25 "." twoScripts ["a.js", "b.js"]).files = 2 := by
  have hgreedy := ofFiles_greedy 25 (by decide) "." twoScripts ["a.js", "b.js"]
  have hranked : (ranked (digestsOf "." twoScripts ["a.js", "b.js"])).map (·.path) =
      ["b.js", "a.js"] := by
    rw [digestsOf_twoScripts]
    cbv
  have hfiles : (ofFiles 25 "." twoScripts ["a.js", "b.js"]).files = 2 := by
    rw [ofFiles_eq, digestsOf_twoScripts]
    cbv
  exact ⟨by decide, hgreedy.1, hgreedy.2.1, hgreedy.2.2, hranked, hfiles⟩

end CodeSurvey.RepoMap
