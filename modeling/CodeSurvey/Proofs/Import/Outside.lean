import CodeSurvey.Proofs.Import.ModuleName
import CodeSurvey.Proofs.Path.Climb

/-!
Specifiers that climb out of the project. No path from outside is one of its files, yet such a
specifier may resolve. Main statement: what it then stands for, which is a module at the root for a
dotted name that climbs too far, and a file whose name begins with two dots for a path that comes to
the directory above the project and goes no further.
-/

namespace CodeSurvey.Import

open CodeSurvey.Path Text

variable {names : List (List Char)} {base dir p s fromFile rest : List Char} {files : List String}
  {levels : Nat}

/-- A path of the project: none of its components is empty, a dot or two dots. -/
def IsProjectPath (p : List Char) : Prop :=
  ∀ c ∈ components p, c ≠ [] ∧ c ≠ ['.'] ∧ c ≠ ['.', '.']

instance (p : List Char) : Decidable (IsProjectPath p) := List.decidableBAll _ _

/-- So many times `../`, then the rest. -/
def climbing : Nat → List Char → List Char
  | 0, rest => rest
  | levels + 1, rest => "../".toList ++ climbing levels rest

/-- The endings of the files that a module name may stand for. -/
def moduleEndings : List String := [".py", "/__init__.py", ".pyi"]

/-- The endings that a path in a script may leave out. -/
def scriptEndings : List String := [".js", ".ts", ".tsx", ".jsx", ".cjs", ".mjs"]

/-! ### Paths from outside -/

theorem isOutside_append (h : IsOutside p) (s : List Char) : IsOutside (p ++ s) := by
  obtain ⟨rest, rfl | rfl⟩ := h
  · exact ⟨rest ++ s, .inl rfl⟩
  · exact ⟨rest ++ s, .inr rfl⟩

/-- An ending without a slash does not bring a path outside. -/
theorem isOutside_of_append (hs : '/' ∉ s) (h : IsOutside (p ++ s)) : IsOutside p := by
  obtain ⟨front, hfront, rest, heq⟩ : ∃ front, (front = [] ∨ front = ['.', '.']) ∧
      ∃ rest, p ++ s = front ++ '/' :: rest := by
    obtain ⟨rest, heq | heq⟩ := h
    · exact ⟨[], .inl rfl, rest, heq⟩
    · exact ⟨['.', '.'], .inr rfl, rest, heq⟩
  obtain ⟨more, rfl⟩ : ∃ more, p = front ++ '/' :: more := by
    rcases List.append_eq_append_iff.1 heq with ⟨more, -, hs'⟩ | ⟨more, rfl, hmore⟩
    · exact absurd (by rw [hs']; simp) hs
    · cases more with
      | nil => exact absurd (by rw [← List.nil_append s, ← hmore]; simp) hs
      | cons c more =>
        obtain ⟨rfl, -⟩ := List.cons.inj hmore
        exact ⟨more, rfl⟩
  rcases hfront with rfl | rfl
  · exact ⟨more, .inl rfl⟩
  · exact ⟨more, .inr rfl⟩

theorem not_isProjectPath_of_isOutside (h : IsOutside p) : ¬ IsProjectPath p := by
  obtain ⟨rest, rfl | rfl⟩ := h
  · exact fun hp => (hp [] (by simp [components, pieces])).1 rfl
  · have hfirst : components ('.' :: '.' :: '/' :: rest) = ['.', '.'] :: components rest :=
      pieces_of_first (s := ['.', '.']) (by decide) rest
    exact fun hp => (hp ['.', '.'] (hfirst ▸ List.mem_cons_self ..)).2.2 rfl

theorem firstExisting_eq_none_iff {candidates : List (List Char)} :
    firstExisting files candidates = none ↔ ∀ c ∈ candidates, String.ofList c ∉ files := by
  simp [firstExisting]

theorem notMem_of_isOutside (hfiles : ∀ file ∈ files, IsProjectPath file.toList)
    (h : IsOutside p) : String.ofList p ∉ files := fun hmem =>
  not_isProjectPath_of_isOutside h (by simpa using hfiles _ hmem)

/-! ### Dotted names -/

theorem ancestor_of_absolute (h : dir.head? = some '/') (levels : Nat) :
    (ancestor levels dir).head? = some '/' := by
  induction levels generalizing dir with
  | zero => exact h
  | succ n ih => exact ih (directory_of_absolute h)

/-- Going up as many levels as a directory is deep leads to the root of the project. -/
theorem ancestor_eq_nil (hhead : dir.head? ≠ some '/') (hlast : dir.getLast? ≠ some '/')
    (h : depth dir ≤ levels) : ancestor levels dir = [] := by
  induction levels generalizing dir with
  | zero =>
    show dir = []
    by_contra hne
    have := depth_directory hne hhead hlast
    omega
  | succ n ih =>
    by_cases hne : dir = []
    · rw [hne, ancestor_nil]
    · obtain ⟨hhead', hlast'⟩ := directory_of_relative hhead
      have := depth_directory hne hhead hlast
      exact ih hhead' hlast' (by omega)

theorem rootSlashes_ne_nil (h : p.head? = some '/') : rootSlashes p ≠ [] := by
  obtain ⟨rest, rfl⟩ := List.head?_eq_some_iff.1 h
  unfold rootSlashes
  split <;> simp_all

theorem isOutside_normalised_of_absolute (h : p.head? = some '/') : IsOutside (normalised p) := by
  obtain ⟨rest, rfl⟩ := List.head?_eq_some_iff.1 h
  exact normalise_of_absolute (rootSlashes_ne_nil rfl)

theorem head?_append_of_absolute (h : dir.head? = some '/') (p : List Char) :
    (append dir p).head? = some '/' := by
  obtain ⟨rest, rfl⟩ := List.head?_eq_some_iff.1 h
  unfold append
  split
  · rename_i hp
    exact isPrefixOf_slash.1 hp
  · split <;> rfl

/-- A dotted name that climbs out of the project is looked for at its root. -/
theorem resolvePython_climbing_iff (hfiles : ∀ file ∈ files, IsProjectPath file.toList)
    (hlevels : depth (directory fromFile) < levels) (hne : names ≠ [])
    (hnames : ∀ c ∈ names, IsModuleName c) :
    resolvePython (relativeName levels names) fromFile files = none ↔
      (fromFile.head? ≠ some '/' →
        ∀ ending ∈ moduleEndings, String.ofList (join ['/'] names ++ ending.toList) ∉ files) := by
  have hentries : ∀ c ∈ names, IsEntryName c := fun c hc => (hnames c hc).isEntryName
  rw [resolvePython, pythonRoots_relativeName hne hnames, firstExisting_eq_none_iff]
  by_cases habsolute : fromFile.head? = some '/'
  · refine iff_of_true (fun c hc => notMem_of_isOutside hfiles ?_) fun h => absurd habsolute h
    have hbase := ancestor_of_absolute (directory_of_absolute habsolute) levels
    rw [List.flatMap_singleton, List.mem_map] at hc
    obtain ⟨ending, -, rfl⟩ := hc
    exact isOutside_append (isOutside_normalised_of_absolute (head?_append_of_absolute hbase _)) _
  · obtain ⟨hhead, hlast⟩ := directory_of_relative habsolute
    rw [ancestor_eq_nil hhead hlast (Nat.le_of_lt hlevels), append_nil_left,
      normalised_join hne hentries]
    simp [moduleEndings, habsolute]

/-! ### Paths in scripts -/

theorem swap_climbing (levels : Nat) (rest : List Char) :
    swap '\\' '/' (climbing levels rest) = climbing levels (swap '\\' '/' rest) := by
  induction levels with
  | zero => rfl
  | succ n ih => rw [climbing, swap_append, ih]; rfl

theorem components_climbing (levels : Nat) (rest : List Char) :
    components (climbing levels rest) =
      List.replicate levels ['.', '.'] ++ components rest := by
  induction levels with
  | zero => rfl
  | succ n ih =>
    have hfirst : components ("../".toList ++ climbing n rest) =
        ['.', '.'] :: components (climbing n rest) :=
      pieces_of_first (s := ['.', '.']) (by decide) _
    rw [climbing, hfirst, ih]
    rfl

/-- Putting a relative path below a directory keeps its components at the end. -/
theorem exists_components_append (dir : List Char) (h : p.head? ≠ some '/') :
    ∃ front, components (swap '\\' '/' (append dir p)) =
        front ++ components (swap '\\' '/' p) ∧
      (front.filter (· != [])).length = depth (swap '\\' '/' dir) := by
  have hrelative := mt isPrefixOf_slash.1 h
  have hbehind : ∀ s, components (swap '\\' '/' (s ++ '/' :: p)) =
      components (swap '\\' '/' s) ++ components (swap '\\' '/' p) := fun s => by
    rw [swap_append]
    exact pieces_append '/' _ _
  rw [append, if_neg hrelative]
  split
  · rename_i hends
    rcases Bool.or_eq_true_iff.1 hends with hnil | hslash
    · rw [List.isEmpty_iff.1 hnil]
      exact ⟨[], rfl, rfl⟩
    · obtain ⟨s, rfl⟩ := List.getLast?_eq_some_iff.1 (isSuffixOf_slash.1 hslash)
      refine ⟨_, by rw [List.append_assoc, List.singleton_append, hbehind], ?_⟩
      rw [swap_append]
      exact (depth_concat_slash _).symm
  · exact ⟨_, hbehind dir, rfl⟩

/-- A path that climbs further than the importing file is deep comes to the directory above the
    project or leads further away. -/
theorem normalised_climbing {lead : List Char} (hlead : lead ∈ [[], "./".toList])
    (rest : List Char) (hlevels : depth (swap '\\' '/' dir) < levels) :
    normalised (append dir (lead ++ climbing levels rest)) = "..".toList ∨
      IsOutside (normalised (append dir (lead ++ climbing levels rest))) := by
  obtain ⟨n, rfl⟩ : ∃ n, levels = n + 1 := Nat.exists_eq_succ_of_ne_zero (by omega)
  obtain ⟨stay, hstay, hsplit⟩ : ∃ stay, (∀ kept, stay.foldl (normaliseStep false) kept = kept) ∧
      components (swap '\\' '/' (lead ++ climbing (n + 1) rest)) =
        stay ++ (List.replicate (n + 1) ['.', '.'] ++ components (swap '\\' '/' rest)) := by
    rw [swap_append, swap_climbing, ← components_climbing]
    rcases List.mem_pair.1 hlead with rfl | rfl
    · exact ⟨[], fun _ => rfl, rfl⟩
    · exact ⟨[['.']], fun _ => rfl, pieces_of_first (s := ['.']) (by decide) _⟩
  have hrelative : (lead ++ climbing (n + 1) rest).head? ≠ some '/' := by
    rcases List.mem_pair.1 hlead with rfl | rfl <;>
      exact fun h => absurd (Option.some.inj h) (by decide)
  obtain ⟨front, hcomponents, hdepth⟩ := exists_components_append dir hrelative
  -- the directory leaves no more names than it is deep, which are not enough for the climb
  have hkeeps : Keeps (depth (swap '\\' '/' dir)) 0
      ((front ++ stay).foldl (normaliseStep false) []) := by
    rw [List.foldl_append, hstay, ← hdepth, ← Nat.zero_add (front.filter _).length]
    exact keeps_nil.foldl front
  have hall : components (swap '\\' '/' (append dir (lead ++ climbing (n + 1) rest))) =
      (front ++ stay) ++
        (List.replicate (n + 1) ['.', '.'] ++ components (swap '\\' '/' rest)) := by
    rw [hcomponents, hsplit, List.append_assoc]
  exact normalise_outside hall hkeeps hlevels

theorem isOutside_of_mem_scriptCandidates (h : IsOutside base) {candidate : List Char}
    (hmem : candidate ∈ scriptCandidates base) : IsOutside candidate := by
  simp only [scriptCandidates, List.cons_append, List.mem_cons, List.mem_append,
    List.mem_map] at hmem
  rcases hmem with rfl | (⟨ending, -, rfl⟩ | ⟨ending, -, rfl⟩) | hstem
  · exact h
  · exact isOutside_append h _
  · exact isOutside_append h _
  · unfold dropEnding? at hstem
    split at hstem
    · rename_i hends
      obtain ⟨stem, rfl⟩ := List.isSuffixOf_iff_suffix.1 hends
      obtain ⟨ending, -, rfl⟩ := List.mem_map.1 hstem
      rw [List.length_append, Nat.add_sub_cancel, List.take_left]
      exact isOutside_append (isOutside_of_append (by decide) h) _
    · simp at hstem

theorem scriptCandidates_parent :
    scriptCandidates "..".toList =
      "..".toList :: scriptEndings.map (fun e => "..".toList ++ e.toList) ++
        ["../index.js", "../index.ts", "../index.tsx"].map String.toList := by decide

/-- A path that climbs out of the project stands for no file, unless it comes to the directory
    above and an ending makes a name of the project out of its two dots. -/
theorem resolveScript_climbing_iff {lead : List Char}
    (hfiles : ∀ file ∈ files, IsProjectPath file.toList) (hlead : lead ∈ [[], "./".toList])
    (rest : List Char) (hlevels : depth (swap '\\' '/' (directory fromFile)) < levels) :
    resolveScript (lead ++ climbing levels rest) fromFile files = none ↔
      (normalised (append (directory fromFile) (lead ++ climbing levels rest)) = "..".toList →
        ∀ ending ∈ scriptEndings, String.ofList ("..".toList ++ ending.toList) ∉ files) := by
  have hdot : (lead ++ climbing levels rest).head? = some '.' := by
    obtain ⟨n, rfl⟩ : ∃ n, levels = n + 1 := Nat.exists_eq_succ_of_ne_zero (by omega)
    rcases List.mem_pair.1 hlead with rfl | rfl <;> rfl
  rw [resolveScript, if_pos (beq_iff_eq.2 hdot), firstExisting_eq_none_iff]
  rcases normalised_climbing hlead rest hlevels with hparent | houtside
  -- no slash is behind the two dots of the directory above, so an ending makes a name of them
  · have hdots : String.ofList "..".toList ∉ files := fun hmem =>
      absurd (hfiles _ hmem) (by decide)
    have hindex : ∀ c ∈ ["../index.js", "../index.ts", "../index.tsx"].map String.toList,
        String.ofList c ∉ files := by
      refine fun c hc => notMem_of_isOutside hfiles ?_
      simp only [List.map_cons, List.map_nil, List.mem_cons, List.not_mem_nil, or_false] at hc
      rcases hc with rfl | rfl | rfl <;> exact ⟨_, .inr rfl⟩
    rw [hparent, scriptCandidates_parent, List.forall_mem_append, List.forall_mem_cons,
      List.forall_mem_map]
    exact ⟨fun h _ => h.1.2, fun h => ⟨⟨hdots, h rfl⟩, hindex⟩⟩
  · refine iff_of_true (fun c hc => notMem_of_isOutside hfiles
      (isOutside_of_mem_scriptCandidates houtside hc)) fun hparent => ?_
    obtain ⟨more, hmore | hmore⟩ := hparent ▸ houtside
    · exact absurd hmore (by simp)
    · exact absurd hmore (by simp)

/-! ### Both ways of climbing -/

/-- A specifier that climbs out of the project stays unresolved but for two cases: a dotted name
    falls back to the root of the project, and the two dots of the directory above may become the
    name of a file. Backslashes count as slashes where a script climbs. -/
theorem unresolved_climbing_iff (hfiles : ∀ file ∈ files, IsProjectPath file.toList)
    (fromFile : List Char) :
    (∀ lead ∈ [[], "./".toList], ∀ levels rest,
      depth (swap '\\' '/' (directory fromFile)) < levels →
        (resolveScript (lead ++ climbing levels rest) fromFile files = none ↔
          (normalised (append (directory fromFile) (lead ++ climbing levels rest)) =
              "..".toList →
            ∀ ending ∈ scriptEndings, String.ofList ("..".toList ++ ending.toList) ∉ files))) ∧
      ∀ levels names, depth (directory fromFile) < levels → names ≠ [] →
        (∀ c ∈ names, IsModuleName c) →
          (resolvePython (relativeName levels names) fromFile files = none ↔
            (fromFile.head? ≠ some '/' → ∀ ending ∈ moduleEndings,
              String.ofList (join ['/'] names ++ ending.toList) ∉ files)) :=
  ⟨fun _ hlead _ rest hlevels => resolveScript_climbing_iff hfiles hlead rest hlevels,
    fun _ _ hlevels hne hnames => resolvePython_climbing_iff hfiles hlevels hne hnames⟩

/-- Nothing at the root has the name that is asked for, though a module below does. -/
theorem unresolved_climbing_below :
    let files := ["a/x.py", "a/x.js", "x.js"]
    resolveScript "./../../x".toList "a/b.js".toList files = none ∧
      resolvePython "...x".toList "a/b.py".toList files = none := by
  intro files
  have hfiles : ∀ file ∈ files, IsProjectPath file.toList := by decide
  have hscript := (unresolved_climbing_iff hfiles "a/b.js".toList).1 "./".toList (by decide) 2
    "x".toList (by decide)
  have hmodule := (unresolved_climbing_iff hfiles "a/b.py".toList).2 2 ["x".toList] (by decide)
    (by decide) (by decide)
  exact ⟨hscript.2 fun hparent => absurd hparent (by decide), hmodule.2 (by decide)⟩

/-- Three dots in a file one directory down lead out of the project, and so does `../` in a file at
    its root. -/
theorem resolved_climbing :
    (∀ file ∈ ["x.py", "...js"], IsProjectPath file.toList) ∧
      depth (directory "a/b.py".toList) < 2 ∧ relativeName 2 ["x".toList] = "...x".toList ∧
      resolvePython "...x".toList "a/b.py".toList ["x.py", "...js"] = some "x.py".toList ∧
      depth (directory "a.js".toList) < 1 ∧ climbing 1 [] = "../".toList ∧
      resolveScript "../".toList "a.js".toList ["x.py", "...js"] = some "...js".toList := by
  decide

end CodeSurvey.Import
