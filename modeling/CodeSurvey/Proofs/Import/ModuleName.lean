import CodeSurvey.Proofs.Import.Relative
import Mathlib.Data.List.Induction

/-!
Dotted names of modules. An absolute name spells the way from the root of the project to a module; a
relative one goes up with its leading dots and spells the way down from there. Main statement: all
names of a module resolve to its file.
-/

namespace CodeSurvey.Import

open CodeSurvey.Path Text

variable {common up dirs names below : List (List Char)} {fromName fromFile : List Char}
  {files : List String}

/-- A name as modules have it: not empty, and without the characters that part names from one
    another or stand for all names. Identifiers are such names. -/
structure IsModuleName (name : List Char) : Prop where
  ne_nil : name ≠ []
  plain : ∀ c ∈ "./\\:*".toList, c ∉ name

instance (name : List Char) : Decidable (IsModuleName name) :=
  have : Decidable (∀ c ∈ "./\\:*".toList, c ∉ name) := List.decidableBAll _ _
  decidable_of_iff (name ≠ [] ∧ ∀ c ∈ "./\\:*".toList, c ∉ name)
    ⟨fun ⟨hne, hplain⟩ => ⟨hne, hplain⟩, fun h => ⟨h.ne_nil, h.plain⟩⟩

theorem IsModuleName.isEntryName {name : List Char} (h : IsModuleName name) :
    IsEntryName name := by
  have hdot : '.' ∉ name := h.plain '.' (by decide)
  refine ⟨⟨h.ne_nil, h.plain '/' (by decide)⟩, ?_, ?_, h.plain '\\' (by decide)⟩
  · rintro rfl
    exact hdot (List.mem_cons_self ..)
  · rintro rfl
    exact hdot (List.mem_cons_self ..)

/-- The source file of a module, given the names on the way to it. -/
def moduleFile (names : List (List Char)) : List Char := join ['/'] names ++ ".py".toList

/-- The name of a module from the root of the project. -/
def absoluteName (names : List (List Char)) : List Char := join ['.'] names

/-- The name of a module from the directory so many levels above the one a file is in. -/
def relativeName (levels : Nat) (below : List (List Char)) : List Char :=
  List.replicate (levels + 1) '.' ++ join ['.'] below

example : relativeName 1 ["lib".toList, "text".toList] = "..lib.text".toList := by decide

/-! ### Directories above -/

theorem ancestor_nil (levels : Nat) : ancestor levels [] = [] := by
  induction levels with
  | zero => rfl
  | succ n ih => exact ih

/-- Each level takes back one directory. -/
theorem ancestor_join (h : ∀ c ∈ common ++ up, IsComponent c) :
    ancestor up.length (join ['/'] (common ++ up)) = join ['/'] common := by
  induction up using List.reverseRecOn with
  | nil => rw [List.append_nil]; rfl
  | append_singleton up dir ih =>
    rw [← List.append_assoc] at h ⊢
    obtain ⟨hdirs, hdir⟩ := List.forall_mem_append.1 h
    rw [List.length_append, List.length_singleton, ancestor,
      directory_join hdirs (hdir dir (List.mem_singleton_self dir))]
    exact ih hdirs

/-! ### What a name may stand for -/

/-- A path written with names is in its normal form. -/
theorem normalised_join (hne : names ≠ []) (h : ∀ c ∈ names, IsEntryName c) :
    normalised (join ['/'] names) = join ['/'] names := by
  have hcomponents := fun c hc => (h c hc).isComponent
  have hkept : names.foldl (normaliseStep false) [] = names.reverse := by
    rw [foldl_normaliseStep_names false [] h, List.append_nil]
  rw [normalised, swap_join fun c hc => (h c hc).no_backslash]
  exact normalise_join hne hcomponents hne hkept hcomponents

/-- Dots are told apart from the name behind them, which spells a path. -/
theorem leadingDots_facts (hne : names ≠ []) (h : ∀ c ∈ names, IsModuleName c) (dots : Nat) :
    let specifier := List.replicate dots '.' ++ join ['.'] names
    specifier.takeWhile (· == '.') = List.replicate dots '.' ∧
      specifier.dropWhile (· == '.') = join ['.'] names ∧
        swap '.' '/' (join ['.'] names) = join ['/'] names := by
  have hdot : ∀ c ∈ names, '.' ∉ c := fun c hc => (h c hc).plain '.' (by decide)
  have hdots : ∀ c ∈ List.replicate dots '.', (c == '.') = true := fun c hc =>
    beq_iff_eq.2 (List.eq_of_mem_replicate hc)
  -- the names do not begin with a dot, so the dots end where the names begin
  obtain ⟨c, rest, hjoin, hc⟩ : ∃ c rest, join ['.'] names = c :: rest ∧ ¬ (c == '.') = true := by
    obtain ⟨first, hfirst, -, -, hhead, -⟩ :=
      exists_ends_join ['.'] hne fun c hc => (h c hc).ne_nil
    obtain ⟨c, more, rfl⟩ := List.exists_cons_of_ne_nil (h first hfirst).ne_nil
    obtain ⟨rest, hrest⟩ := List.head?_eq_some_iff.1 hhead
    exact ⟨c, rest, hrest, fun heq => hdot _ hfirst (eq_of_beq heq ▸ List.mem_cons_self ..)⟩
  refine ⟨?_, ?_, swap_join_separator '/' hdot⟩
  · rw [List.takeWhile_append_of_pos hdots, hjoin,
      List.takeWhile_cons_of_neg (p := (· == '.')) hc, List.append_nil]
  · rw [List.dropWhile_append_of_pos hdots, hjoin,
      List.dropWhile_cons_of_neg (p := (· == '.')) hc]

theorem pythonRoots_absoluteName (hne : names ≠ []) (h : ∀ c ∈ names, IsModuleName c)
    (fromFile : List Char) :
    pythonRoots (absoluteName names) fromFile =
      [join ['/'] names, "src/".toList ++ join ['/'] names] := by
  obtain ⟨hdots, hrest, hpath⟩ := leadingDots_facts hne h 0
  simp only [List.replicate_zero, List.nil_append] at hdots hrest
  simp only [pythonRoots, absoluteName, hdots, hrest, hpath, List.length_nil]

theorem pythonRoots_relativeName (hne : below ≠ []) (h : ∀ c ∈ below, IsModuleName c)
    (levels : Nat) (fromFile : List Char) :
    pythonRoots (relativeName levels below) fromFile =
      [normalised (append (ancestor levels (directory fromFile)) (join ['/'] below))] := by
  obtain ⟨hdots, hrest, hpath⟩ := leadingDots_facts hne h (levels + 1)
  have hway : join ['/'] below ≠ [] :=
    (join_ends_ne_slash hne fun c hc => (h c hc).isEntryName.isComponent).2.2
  simp only [pythonRoots, relativeName, hdots, hrest, hpath, List.length_replicate,
    List.isEmpty_iff, hway, append_ne_nil _ hway, if_false]

theorem resolvePython_of_root {specifier root : List Char} {roots : List (List Char)}
    (hroots : pythonRoots specifier fromFile = root :: roots)
    (hfile : String.ofList (root ++ ".py".toList) ∈ files) :
    resolvePython specifier fromFile files = some (root ++ ".py".toList) := by
  rw [resolvePython, hroots]
  exact firstExisting_of_mem hfile _

/-- Every dotted name of a module, absolute or from a directory that the importing file is in,
    resolves to the file of the module. -/
theorem resolvePython_moduleFile (hfrom : components fromFile = dirs ++ [fromName])
    (hcomponents : ∀ c ∈ components fromFile, c ≠ []) (hne : names ≠ [])
    (hnames : ∀ c ∈ names, IsModuleName c) (hfile : String.ofList (moduleFile names) ∈ files) :
    resolvePython (absoluteName names) fromFile files = some (moduleFile names) ∧
      ∀ common up below, dirs = common ++ up → names = common ++ below → below ≠ [] →
        resolvePython (relativeName up.length below) fromFile files = some (moduleFile names) := by
  refine ⟨resolvePython_of_root (pythonRoots_absoluteName hne hnames fromFile) hfile, ?_⟩
  rintro common up below rfl rfl hbelow
  have hdirs : ∀ c ∈ common ++ up ++ [fromName], IsComponent c := by
    intro c hc
    rw [← hfrom] at hc
    exact ⟨hcomponents c hc, notMem_of_mem_pieces '/' hc⟩
  obtain ⟨hdirs, hname⟩ := List.forall_mem_append.1 hdirs
  have hfromText : fromFile = join ['/'] (common ++ up ++ [fromName]) := by
    rw [← hfrom]
    exact (join_pieces '/' fromFile).symm
  have hentries : ∀ c ∈ common ++ below, IsEntryName c := fun c hc => (hnames c hc).isEntryName
  have hbelowNames := (List.forall_mem_append.1 hnames).2
  have hroot : normalised (append (ancestor up.length (directory fromFile)) (join ['/'] below)) =
      join ['/'] (common ++ below) := by
    rw [hfromText, directory_join hdirs (hname fromName (List.mem_singleton_self _)),
      ancestor_join hdirs, append_join (List.forall_mem_append.1 hdirs).1 hbelow
        fun c hc => (hbelowNames c hc).isEntryName.isComponent]
    exact normalised_join hne hentries
  have hroots := pythonRoots_relativeName hbelow hbelowNames up.length fromFile
  rw [hroot] at hroots
  exact resolvePython_of_root hroots hfile

/-- A module two directories up, past a package and a stub of the same name. -/
theorem resolvePython_moduleFile_parents :
    let files := ["src/shop/cart.py", "shop/cart/__init__.py", "shop/cart.pyi", "shop/cart.py"]
    let file := some "shop/cart.py".toList
    resolvePython "shop.cart".toList "shop/api/v1/views.py".toList files = file ∧
      resolvePython "...cart".toList "shop/api/v1/views.py".toList files = file ∧
      resolvePython "....shop.cart".toList "shop/api/v1/views.py".toList files = file := by
  intro files file
  have hfrom : components "shop/api/v1/views.py".toList =
      ["shop".toList, "api".toList, "v1".toList] ++ ["views.py".toList] := by decide
  have hfile : String.ofList (moduleFile ["shop".toList, "cart".toList]) ∈ files := by decide
  obtain ⟨habsolute, hrelative⟩ :=
    resolvePython_moduleFile hfrom (by decide) (by decide) (by decide) hfile
  exact ⟨habsolute, hrelative ["shop".toList] ["api".toList, "v1".toList] ["cart".toList]
      (by decide) (by decide) (by decide),
    hrelative [] ["shop".toList, "api".toList, "v1".toList] ["shop".toList, "cart".toList]
      (by decide) (by decide) (by decide)⟩

end CodeSurvey.Import
