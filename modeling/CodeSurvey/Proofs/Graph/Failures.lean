import CodeSurvey.Proofs.Graph.Build

/-!
Failures stay local. The graph of a list of files is compared with the graph that is built when some
of the failing files do not fail: files that cannot be read or scanned are read as empty texts, files
whose look-up fails have no known language. A file with an empty text is scanned and may be imported
but has no entry of its own, just like one without a text. Main statement: the two graphs are the
same but for the number of errors, which differs by the number of those files.
-/

namespace CodeSurvey

namespace Import

/-- An empty text has no imports, whatever the scan. -/
theorem scan_nil {language : String} {scan : List Char → List (List Char)}
    (h : scannerFor? language = some scan) : scan [] = [] := by
  have hempty : ∀ s ∈ [ofScript, ofPython, ofGo, ofElixir, ofRust], s [] = [] := by
    decide +kernel
  obtain ⟨before, after, htable, _⟩ := List.lookup_eq_some_iff.1 h
  have hmem : scan ∈ (before ++ (language, scan) :: after).map (·.2) := by simp
  rw [← htable] at hmem
  exact hempty scan (by simpa using hmem)

theorem edges_nil (path : String) (language : Option String) (files : List String) :
    edges path [] language files = [] := by
  unfold edges
  split
  · rfl
  · rename_i hscan
    obtain ⟨l, -, hl⟩ := Option.bind_eq_some_iff.1 hscan
    obtain ⟨scan, hscanner, heq⟩ := Option.map_eq_some_iff.1 hl
    obtain ⟨rfl, rfl⟩ := Prod.mk.inj heq
    rw [scan_nil hscanner, List.map_nil]

end Import

/-- The graph with more errors. -/
def DependencyGraph.withErrors (g : DependencyGraph) (more : Nat) : DependencyGraph :=
  { g with stats := { g.stats with errors := g.stats.errors + more } }

namespace Graph

variable {lookup lookup' : String → LanguageLookup} {read read' : String → FileText}
  {paths : List String} {F : Finset String}

/-- The reader that finds empty texts in some files. -/
def emptied (F : Finset String) (read : String → FileText) (path : String) : FileText :=
  if path ∈ F then .text [] else read path

/-- The look-up that knows no language of some files. -/
def forgotten (F : Finset String) (lookup : String → LanguageLookup) (path : String) :
    LanguageLookup :=
  if path ∈ F then .unknown else lookup path

/-! ### Counting -/

/-- A test that also comes out true for some more files counts these as well. -/
theorem count_eq_add_card {test test' : String → Bool}
    (htrue : ∀ f ∈ F, f ∈ paths ∧ test f = true) (hfalse : ∀ f ∈ F, test' f = false)
    (hsame : ∀ f, f ∉ F → test f = test' f) : count paths test = count paths test' + F.card := by
  have hdisjoint : Disjoint (paths.toFinset.filter fun p => test' p = true) F := by
    refine Finset.disjoint_left.2 fun f hf hF => ?_
    rw [Finset.mem_filter, hfalse f hF] at hf
    exact Bool.false_ne_true hf.2
  rw [count, count, ← Finset.card_union_of_disjoint hdisjoint]
  congr 1
  ext f
  rw [Finset.mem_union, Finset.mem_filter, Finset.mem_filter, List.mem_toFinset]
  by_cases hf : f ∈ F
  · simp [hf, htrue f hf]
  · simp [hf, hsame f hf]

/-! ### What two graphs share -/

/-- Graphs with the same scanned files and entries differ in their errors only. -/
theorem build_eq_withErrors {more : Nat}
    (himportable : importable lookup paths.eraseDups = importable lookup' paths.eraseDups)
    (hforward : forwardOf (scanned lookup read paths.eraseDups) =
      forwardOf (scanned lookup' read' paths.eraseDups))
    (herrors : count paths (fun p => lookup p == .failed) +
        count paths (fun p => (lookup p).isScanned && (read p).isMissing) =
      count paths (fun p => lookup' p == .failed) +
        count paths (fun p => (lookup' p).isScanned && (read' p).isMissing) + more)
    (builtAt : String) :
    build lookup read paths builtAt = (build lookup' read' paths builtAt).withErrors more := by
  rw [build_eq, build_eq, himportable, hforward, herrors, DependencyGraph.withErrors]

/-! ### Files without a text -/

theorem targetsOf_nil (path language : String) (files : List String) :
    targetsOf path language [] files = [] := by
  rw [targetsOf, Import.edges_nil]
  rfl

/-- A file without a text has no entry, and neither has one with an empty text. -/
theorem forwardOf_scanned_emptied (hF : ∀ f ∈ F, (read f).isMissing = true) (files : List String) :
    forwardOf (scanned lookup read files) = forwardOf (scanned lookup (emptied F read) files) := by
  rw [forwardOf, forwardOf, scanned, scanned, List.filterMap_map, List.filterMap_map]
  refine List.filterMap_congr fun e _ => ?_
  obtain ⟨path, language⟩ := e
  by_cases hpath : path ∈ F
  · have hmissing : (scanFile read files path language).targets = none := by
      rw [← Option.isNone_iff_eq_none, targets_isNone]
      exact hF path hpath
    have hempty : (scanFile (emptied F read) files path language).targets = some [] := by
      have hread : emptied F read path = .text [] := if_pos hpath
      simp only [scanFile, hread, targetsOf_nil]
    simp only [Function.comp_apply, hmissing, hempty]
  · have hread : emptied F read path = read path := if_neg hpath
    simp only [Function.comp_apply, scanFile, hread]

/-- Reading the files without a text as empty texts takes away their errors and nothing else. -/
theorem build_emptied
    (hF : ∀ f ∈ F, f ∈ paths ∧ (lookup f).isScanned = true ∧ (read f).isMissing = true)
    (builtAt : String) :
    build lookup read paths builtAt =
      (build lookup (emptied F read) paths builtAt).withErrors F.card := by
  have hcount : count paths (fun p => (lookup p).isScanned && (read p).isMissing) =
      count paths (fun p => (lookup p).isScanned && (emptied F read p).isMissing) + F.card := by
    refine count_eq_add_card (fun f hf => ⟨(hF f hf).1, ?_⟩) (fun f hf => ?_) fun f hf => ?_
    · rw [(hF f hf).2.1, (hF f hf).2.2]
      rfl
    · rw [emptied, if_pos hf, FileText.isMissing, Bool.and_false]
    · rw [emptied, if_neg hf]
  refine build_eq_withErrors rfl (forwardOf_scanned_emptied (fun f hf => (hF f hf).2.2) _) ?_ _
  rw [hcount, Nat.add_assoc]

/-! ### Files whose look-up fails -/

/-- A file whose look-up fails is not scanned, and neither is one without a known language. -/
theorem importable_forgotten (hF : ∀ f ∈ F, lookup f = .failed) (files : List String) :
    importable lookup files = importable (forgotten F lookup) files := by
  refine List.filterMap_congr fun path _ => ?_
  by_cases hpath : path ∈ F
  · simp only [forgotten, if_pos hpath, hF path hpath]
  · simp only [forgotten, if_neg hpath]

theorem isScanned_forgotten (hF : ∀ f ∈ F, lookup f = .failed) (path : String) :
    (lookup path).isScanned = (forgotten F lookup path).isScanned := by
  by_cases hpath : path ∈ F
  · rw [forgotten, if_pos hpath, hF path hpath]
    rfl
  · rw [forgotten, if_neg hpath]

/-- Taking the files whose look-up fails for files without a known language takes away their errors
    and nothing else. -/
theorem build_forgotten (hF : ∀ f ∈ F, f ∈ paths ∧ lookup f = .failed) (builtAt : String) :
    build lookup read paths builtAt =
      (build (forgotten F lookup) read paths builtAt).withErrors F.card := by
  have hfailed : ∀ f ∈ F, lookup f = .failed := fun f hf => (hF f hf).2
  have hcount : count paths (fun p => lookup p == .failed) =
      count paths (fun p => forgotten F lookup p == .failed) + F.card := by
    refine count_eq_add_card (fun f hf => ⟨(hF f hf).1, ?_⟩) (fun f hf => ?_) fun f hf => ?_
    · rw [hfailed f hf]
      rfl
    · rw [forgotten, if_pos hf]
      rfl
    · rw [forgotten, if_neg hf]
  refine build_eq_withErrors (importable_forgotten hfailed _) ?_ ?_ _
  · rw [scanned, scanned, importable_forgotten hfailed]
  · simp only [← isScanned_forgotten hfailed]
    rw [hcount, Nat.add_right_comm]

/-- Failures stay local. Files of the list that have a language with an import scan and cannot be
    read or scanned leave the graph that there is when they are empty, and files whose look-up fails
    the one that there is when they have no known language; each of them counts as one error. -/
theorem failures_local (lookup : String → LanguageLookup) (read : String → FileText)
    (paths : List String) (builtAt : String) :
    (∀ F : Finset String,
      (∀ f ∈ F, f ∈ paths ∧ (lookup f).isScanned = true ∧ (read f).isMissing = true) →
        build lookup read paths builtAt =
          (build lookup (emptied F read) paths builtAt).withErrors F.card) ∧
    ∀ F : Finset String, (∀ f ∈ F, f ∈ paths ∧ lookup f = .failed) →
      build lookup read paths builtAt =
        (build (forgotten F lookup) read paths builtAt).withErrors F.card :=
  ⟨fun _ hF => build_emptied hF builtAt, fun _ hF => build_forgotten hF builtAt⟩

/-- `a.py` imports `b.py`, which cannot be read; the look-up of `c.py` fails. -/
theorem failures_local_read_lookup :
    let lookup : String → LanguageLookup :=
      fun path => if path = "c.py" then .failed else .found "python"
    let read : String → FileText :=
      fun path => if path = "a.py" then .text "import b".toList else .unreadable
    let paths := ["a.py", "b.py", "c.py"]
    let g := build lookup read paths ""
    (g.forward = [("a.py", ["b.py"])] ∧ g.stats.errors = 2) ∧
      (∀ f ∈ ({"b.py"} : Finset String),
        f ∈ paths ∧ (lookup f).isScanned = true ∧ (read f).isMissing = true) ∧
      g = (build lookup (emptied {"b.py"} read) paths "").withErrors 1 ∧
      (∀ f ∈ ({"c.py"} : Finset String), f ∈ paths ∧ lookup f = .failed) ∧
      g = (build (forgotten {"c.py"} lookup) read paths "").withErrors 1 := by
  intro lookup read paths g
  have hmissing : ∀ f ∈ ({"b.py"} : Finset String),
      f ∈ paths ∧ (lookup f).isScanned = true ∧ (read f).isMissing = true := by
    simp only [Finset.mem_singleton, forall_eq]
    decide +kernel
  have hfailed : ∀ f ∈ ({"c.py"} : Finset String), f ∈ paths ∧ lookup f = .failed := by
    simp only [Finset.mem_singleton, forall_eq]
    decide +kernel
  have hlocal := failures_local lookup read paths ""
  exact ⟨by decide +kernel, hmissing, hlocal.1 _ hmissing, hfailed, hlocal.2 _ hfailed⟩

end Graph

end CodeSurvey
