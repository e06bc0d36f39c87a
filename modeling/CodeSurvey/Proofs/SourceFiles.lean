import CodeSurvey.Proofs.Path
import CodeSurvey.SourceFiles
import Mathlib.Data.List.Nodup

/-!
What a walk through a folder finds. Main statement: exactly the files with a known extension that
are in no folder that is left out, each once, in an order that is told by their paths alone, so
however the entries of the folders are listed the walk is the same.
-/

namespace CodeSurvey.Folder

/-- A file stands at a path below a folder. -/
inductive FileAt : Folder → List String → Prop
  | file {here : Folder} {name : String} {content : List UInt8}
      (h : .file name content ∈ here) : FileAt here [name]
  | inside {here entries : Folder} {name : String} {path : List String}
      (h : .folder name entries ∈ here) (hpath : FileAt entries path) : FileAt here (name :: path)

/-- The entries of a folder have names, each its own, and so have those of the folders in it. -/
inductive Proper : Folder → Prop
  | mk {here : Folder} (names : ∀ e ∈ here, Path.IsEntryName e.name.toList)
      (nodup : (here.map Entry.name).Nodup)
      (folders : ∀ name entries, .folder name entries ∈ here → Proper entries) : Proper here

variable {here other : Folder} {path : List String}

theorem FileAt.ne_nil (h : here.FileAt path) : path ≠ [] := by
  cases h <;> exact List.cons_ne_nil _ _

theorem FileAt.isEntryName (h : here.FileAt path) (hproper : here.Proper) :
    ∀ name ∈ path, Path.IsEntryName name.toList := by
  induction h with
  | file h =>
    obtain ⟨names, -, -⟩ := hproper
    intro name hname
    rw [List.mem_singleton.1 hname]
    exact names _ h
  | inside h _ ih =>
    obtain ⟨names, -, folders⟩ := hproper
    exact List.forall_mem_cons.2 ⟨names _ h, ih (folders _ _ h)⟩

theorem FileAt.perm (hlisted : here.Perm other) : here.FileAt path → other.FileAt path
  | .file h => .file (hlisted.mem_iff.1 h)
  | .inside h hpath => .inside (hlisted.mem_iff.1 h) hpath

theorem Proper.perm (hlisted : here.Perm other) : here.Proper → other.Proper
  | .mk names nodup folders =>
    .mk (fun e he => names e (hlisted.mem_iff.2 he)) ((hlisted.map _).nodup_iff.1 nodup)
      fun name entries h => folders name entries (hlisted.mem_iff.2 h)

end CodeSurvey.Folder

namespace CodeSurvey.SourceFiles

variable {here other : Folder} {name : String} {path : List String} {e : Entry}

/-! ### Which paths are listed -/

/-- A file with a known extension stands at the path, and no folder on the way is left out. -/
def IsSourceAt (here : Folder) (path : List String) : Prop :=
  here.FileAt path ∧ ∃ dirs name, path = dirs ++ [name] ∧
    String.ofList (Path.extension name.toList) ∈ Language.byExtension.map (·.1) ∧
    ∀ dir ∈ dirs, dir ∉ skippedNames ∧ ¬ ".egg-info".toList <:+ dir.toList

theorem isSource_iff : isSource name = true ↔
    String.ofList (Path.extension name.toList) ∈ Language.byExtension.map (·.1) := by
  rw [isSource, Language.ofFileName?, List.lookup_isSome_iff, List.mem_map]
  exact exists_congr fun pair => and_congr_right fun _ => by rw [beq_iff_eq, eq_comm]

theorem isSkipped_eq_false_iff : isSkipped name = false ↔
    name ∉ skippedNames ∧ ¬ ".egg-info".toList <:+ name.toList := by
  rw [isSkipped, Bool.or_eq_false_iff, ← Bool.not_eq_true, ← Bool.not_eq_true,
    List.contains_iff_mem, List.isSuffixOf_iff_suffix]

/-- The entries of a kind by name, with what is found in each. -/
def listed (kind : Entry → Bool) (here : Folder) : List (String × List (List String)) :=
  byName ((here.filter kind).map fun e => (e.name, found e))

/-- The entries in the order of a walk. -/
def inOrder (here : Folder) : List (String × List (List String)) :=
  listed (!·.isFolder) here ++ listed Entry.isFolder here

/-- The paths that the walk lists, as components. -/
def paths (here : Folder) : List (List String) := (inOrder here).flatMap (·.2)

theorem foundIn_eq (here : Folder) : foundIn here =
    ((here.filter (!·.isFolder)).map fun e => (e.name, found e),
      (here.filter Entry.isFolder).map fun e => (e.name, found e)) := by
  induction here with
  | nil => rfl
  | cons e more ih =>
    rw [foundIn, ih]
    cases hfolder : e.isFolder <;> simp [hfolder]

theorem walk_eq (here : Folder) : walk here = (paths here).map (String.intercalate "/") := by
  rw [walk, foundIn_eq]
  rfl

theorem found_folder (name : String) (entries : Folder) :
    found (.folder name entries) =
      if isSkipped name then [] else (paths entries).map (name :: ·) := by
  rw [found, foundIn_eq]
  rfl

theorem mem_listed {kind : Entry → Bool} {pair : String × List (List String)} :
    pair ∈ listed kind here ↔ ∃ e ∈ here, kind e = true ∧ (e.name, found e) = pair := by
  rw [listed, (byName_perm _).mem_iff, List.mem_map]
  simp only [List.mem_filter, and_assoc]

theorem mem_inOrder {pair : String × List (List String)} :
    pair ∈ inOrder here ↔ ∃ e ∈ here, (e.name, found e) = pair := by
  rw [inOrder, List.mem_append, mem_listed, mem_listed]
  constructor
  · rintro (⟨e, he, -, rfl⟩ | ⟨e, he, -, rfl⟩)
    · exact ⟨e, he, rfl⟩
    · exact ⟨e, he, rfl⟩
  · rintro ⟨e, he, rfl⟩
    cases hfolder : e.isFolder with
    | false => exact .inl ⟨e, he, by rw [hfolder]; rfl, rfl⟩
    | true => exact .inr ⟨e, he, hfolder, rfl⟩

theorem mem_paths : path ∈ paths here ↔ ∃ e ∈ here, path ∈ found e := by
  rw [paths, List.mem_flatMap]
  constructor
  · rintro ⟨pair, hpair, hpath⟩
    obtain ⟨e, he, rfl⟩ := mem_inOrder.1 hpair
    exact ⟨e, he, hpath⟩
  · rintro ⟨e, he, hpath⟩
    exact ⟨(e.name, found e), mem_inOrder.2 ⟨e, he, rfl⟩, hpath⟩

theorem mem_found_file (content : List UInt8) :
    path ∈ found (.file name content) ↔ isSource name = true ∧ path = [name] := by
  rw [found]
  split <;> simp_all

theorem mem_found_folder {entries : Folder} : path ∈ found (.folder name entries) ↔
    isSkipped name = false ∧ ∃ rest ∈ paths entries, name :: rest = path := by
  rw [found_folder]
  split <;> simp_all

theorem nil_notMem_paths (here : Folder) : [] ∉ paths here := by
  rw [mem_paths]
  rintro ⟨e, -, hnil⟩
  cases e with
  | file name content =>
    exact absurd ((mem_found_file content).1 hnil).2 (List.cons_ne_nil name []).symm
  | folder name entries =>
    obtain ⟨-, rest, -, heq⟩ := mem_found_folder.1 hnil
    exact List.cons_ne_nil name rest heq

/-- A path of one name is listed if a source file of this name is there. -/
theorem singleton_mem_paths :
    [name] ∈ paths here ↔ (∃ content, .file name content ∈ here) ∧ isSource name = true := by
  rw [mem_paths]
  constructor
  · rintro ⟨e, he, hpath⟩
    cases e with
    | file other content =>
      obtain ⟨hsource, heq⟩ := (mem_found_file content).1 hpath
      obtain rfl : name = other := List.singleton_inj.1 heq
      exact ⟨⟨content, he⟩, hsource⟩
    | folder other entries =>
      obtain ⟨-, rest, hrest, heq⟩ := mem_found_folder.1 hpath
      obtain rfl : rest = [] := (List.cons.inj heq).2
      exact absurd hrest (nil_notMem_paths entries)
  · rintro ⟨⟨content, hfile⟩, hsource⟩
    exact ⟨_, hfile, (mem_found_file content).2 ⟨hsource, rfl⟩⟩

/-- A longer path is listed if it is listed in a folder that is not left out. -/
theorem cons_mem_paths (hpath : path ≠ []) :
    name :: path ∈ paths here ↔
      isSkipped name = false ∧ ∃ entries, .folder name entries ∈ here ∧ path ∈ paths entries := by
  rw [mem_paths]
  constructor
  · rintro ⟨e, he, hfound⟩
    cases e with
    | file other content =>
      exact absurd (List.cons.inj ((mem_found_file content).1 hfound).2).2 hpath
    | folder other entries =>
      obtain ⟨hkept, rest, hrest, heq⟩ := mem_found_folder.1 hfound
      obtain ⟨rfl, rfl⟩ := List.cons.inj heq
      exact ⟨hkept, entries, he, hrest⟩
  · rintro ⟨hkept, entries, hfolder, hrest⟩
    exact ⟨_, hfolder, mem_found_folder.2 ⟨hkept, path, hrest, rfl⟩⟩

theorem isSourceAt_singleton :
    IsSourceAt here [name] ↔ (∃ content, .file name content ∈ here) ∧ isSource name = true := by
  rw [isSource_iff]
  constructor
  · rintro ⟨hfile, dirs, last, heq, hknown, -⟩
    obtain ⟨rfl, rfl⟩ : dirs = [] ∧ last = name := by
      simpa [List.singleton_eq_append_iff] using heq
    cases hfile with
    | file h => exact ⟨⟨_, h⟩, hknown⟩
    | inside _ hpath => exact absurd rfl hpath.ne_nil
  · rintro ⟨⟨content, h⟩, hknown⟩
    exact ⟨.file h, [], name, rfl, hknown, by simp⟩

theorem isSourceAt_cons (hpath : path ≠ []) :
    IsSourceAt here (name :: path) ↔
      isSkipped name = false ∧
        ∃ entries, .folder name entries ∈ here ∧ IsSourceAt entries path := by
  rw [isSkipped_eq_false_iff]
  constructor
  · rintro ⟨hfile, dirs, last, heq, hknown, hdirs⟩
    cases dirs with
    | nil => exact absurd (List.cons.inj heq).2 hpath
    | cons dir dirs =>
      obtain ⟨rfl, hrest⟩ := List.cons.inj heq
      obtain ⟨hname, hdirs⟩ := List.forall_mem_cons.1 hdirs
      cases hfile with
      | file h => exact absurd rfl hpath
      | inside h hfile => exact ⟨hname, _, h, hfile, dirs, last, hrest, hknown, hdirs⟩
  · rintro ⟨hname, entries, h, hfile, dirs, last, rfl, hknown, hdirs⟩
    exact ⟨.inside h hfile, name :: dirs, last, rfl, hknown, List.forall_mem_cons.2 ⟨hname, hdirs⟩⟩

/-- The walk lists exactly the paths of source files. -/
theorem mem_paths_iff : path ∈ paths here ↔ IsSourceAt here path := by
  induction path generalizing here with
  | nil => exact iff_of_false (nil_notMem_paths here) fun hsource => hsource.1.ne_nil rfl
  | cons name path ih =>
    -- a single name is a file, what is longer begins with a folder
    by_cases hpath : path = []
    · subst hpath
      rw [singleton_mem_paths, isSourceAt_singleton]
    · rw [cons_mem_paths hpath, isSourceAt_cons hpath]
      simp only [ih]

/-! ### Their order -/

/-- The order of a walk: in each folder the files by name, and then the folders by name with all
    that is in them. -/
inductive Precedes : List String → List String → Prop
  | files {file other : String} (h : file < other) : Precedes [file] [other]
  | fileFirst {file dir : String} {path : List String} (hpath : path ≠ []) :
      Precedes [file] (dir :: path)
  | folders {dir other : String} {path rest : List String} (hpath : path ≠ []) (hrest : rest ≠ [])
      (h : dir < other) : Precedes (dir :: path) (other :: rest)
  | inside {dir : String} {path rest : List String} (h : Precedes path rest) :
      Precedes (dir :: path) (dir :: rest)

theorem Precedes.ne_nil {p q : List String} (h : Precedes p q) : p ≠ [] ∧ q ≠ [] := by
  cases h <;> exact ⟨List.cons_ne_nil _ _, List.cons_ne_nil _ _⟩

theorem Precedes.asymm {p q : List String} (h : Precedes p q) : ¬ Precedes q p := by
  induction h with
  | files hlt =>
    intro hback
    cases hback with
    | files hgt => exact String.lt_asymm hlt hgt
    | fileFirst hpath => exact hpath rfl
    | folders hpath => exact hpath rfl
    | inside h => exact h.ne_nil.1 rfl
  | fileFirst hpath =>
    intro hback
    cases hback with
    | files => exact hpath rfl
    | fileFirst => exact hpath rfl
    | folders _ hrest => exact hrest rfl
    | inside h => exact h.ne_nil.2 rfl
  | folders hpath hrest hlt =>
    intro hback
    cases hback with
    | files => exact hpath rfl
    | fileFirst => exact hrest rfl
    | folders _ _ hgt => exact String.lt_asymm hlt hgt
    | inside => exact String.lt_irrefl _ hlt
  | inside h ih =>
    intro hback
    cases hback with
    | files => exact h.ne_nil.1 rfl
    | fileFirst => exact h.ne_nil.2 rfl
    | folders _ _ hlt => exact String.lt_irrefl _ hlt
    | inside hback => exact ih hback

theorem Precedes.ne {p q : List String} (h : Precedes p q) : p ≠ q := by
  rintro rfl
  exact h.asymm h

theorem pairwise_lt_byName {α : Type} {pairs : List (String × α)}
    (h : (pairs.map Prod.fst).Nodup) : (byName pairs).Pairwise fun a b => a.1 < b.1 := by
  have hnodup : (byName pairs).Pairwise fun a b => a.1 ≠ b.1 :=
    List.pairwise_map.1 (((byName_perm pairs).map Prod.fst).nodup_iff.2 h)
  exact ((pairwise_byName pairs).and hnodup).imp fun h => Std.lt_of_le_of_ne h.1 h.2

theorem pairwise_listed (h : (here.map Entry.name).Nodup) (kind : Entry → Bool) :
    (listed kind here).Pairwise fun a b => a.1 < b.1 := by
  refine pairwise_lt_byName ?_
  rw [List.map_map]
  exact h.sublist (List.filter_sublist.map Entry.name)

/-- Files precede folders, and entries of one kind are in the order of their names. -/
theorem precedes_of_mem_found {d e : Entry} {p q : List String}
    (hkinds : d.isFolder = true → e.isFolder = true)
    (hnames : d.isFolder = e.isFolder → d.name < e.name) (hp : p ∈ found d) (hq : q ∈ found e) :
    Precedes p q := by
  cases d with
  | file name content =>
    obtain ⟨-, rfl⟩ := (mem_found_file content).1 hp
    cases e with
    | file other more =>
      obtain ⟨-, rfl⟩ := (mem_found_file more).1 hq
      exact .files (hnames rfl)
    | folder other entries =>
      obtain ⟨-, rest, hrest, rfl⟩ := mem_found_folder.1 hq
      exact .fileFirst (ne_of_mem_of_not_mem hrest (nil_notMem_paths entries))
  | folder name entries =>
    obtain ⟨-, path, hpath, rfl⟩ := mem_found_folder.1 hp
    cases e with
    | file other more => exact absurd (hkinds rfl) Bool.false_ne_true
    | folder other others =>
      obtain ⟨-, rest, hrest, rfl⟩ := mem_found_folder.1 hq
      exact .folders (ne_of_mem_of_not_mem hpath (nil_notMem_paths entries))
        (ne_of_mem_of_not_mem hrest (nil_notMem_paths others)) (hnames rfl)

theorem pairwise_precedes_listed (h : (here.map Entry.name).Nodup) {kind : Entry → Bool}
    (hkind : ∀ d e, kind d = true → kind e = true → d.isFolder = e.isFolder) :
    (listed kind here).Pairwise fun a b => ∀ p ∈ a.2, ∀ q ∈ b.2, Precedes p q := by
  refine (pairwise_listed h kind).imp_of_mem fun ha hb hlt p hp q hq => ?_
  obtain ⟨d, -, hd, rfl⟩ := mem_listed.1 ha
  obtain ⟨e, -, he, rfl⟩ := mem_listed.1 hb
  exact precedes_of_mem_found (fun hfolder => hkind d e hd he ▸ hfolder) (fun _ => hlt) hp hq

theorem pairwise_inOrder (h : (here.map Entry.name).Nodup) :
    (inOrder here).Pairwise fun a b => ∀ p ∈ a.2, ∀ q ∈ b.2, Precedes p q := by
  refine List.pairwise_append.2 ⟨pairwise_precedes_listed h fun d e hd he => ?_,
    pairwise_precedes_listed h fun d e hd he => hd.trans he.symm, ?_⟩
  · rw [Bool.not_eq_true'] at hd he
    exact hd.trans he.symm
  · intro a ha b hb p hp q hq
    obtain ⟨d, -, hd, rfl⟩ := mem_listed.1 ha
    obtain ⟨e, -, he, rfl⟩ := mem_listed.1 hb
    rw [Bool.not_eq_true'] at hd
    have hne : d.isFolder ≠ e.isFolder := by
      rw [hd, he]
      exact Bool.false_ne_true
    exact precedes_of_mem_found (fun _ => he) (fun heq => absurd heq hne) hp hq

theorem pairwise_found (e : Entry)
    (h : ∀ name entries, e = .folder name entries → (paths entries).Pairwise Precedes) :
    (found e).Pairwise Precedes := by
  cases e with
  | file name content =>
    rw [found]
    split
    · exact List.pairwise_singleton ..
    · exact .nil
  | folder name entries =>
    rw [found_folder]
    split
    · exact .nil
    · exact List.pairwise_map.2 ((h name entries rfl).imp .inside)

/-- The paths of a walk are in its order. -/
theorem pairwise_paths (h : here.Proper) : (paths here).Pairwise Precedes := by
  induction h with
  | mk names nodup folders ih =>
    -- paths of one entry are in order by induction, those of two entries by the entries
    refine List.pairwise_flatMap.2 ⟨fun pair hpair => ?_, pairwise_inOrder nodup⟩
    obtain ⟨e, he, rfl⟩ := mem_inOrder.1 hpair
    exact pairwise_found e fun name entries heq => ih name entries (heq ▸ he)

theorem nodup_paths (h : here.Proper) : (paths here).Nodup :=
  (pairwise_paths h).imp Precedes.ne

/-! ### Their texts -/

theorem toList_intercalate (path : List String) :
    (String.intercalate "/" path).toList = Text.join ['/'] (path.map String.toList) := by
  rw [String.toList_intercalate]
  induction path with
  | nil => rfl
  | cons name path ih =>
    cases path with
    | nil => simp [Text.join]
    | cons next path =>
      rw [List.map_cons, List.map_cons, List.intercalate_cons_cons, ← List.map_cons, ih]
      rfl

/-- The components of a path are read back from its text. -/
theorem steps_intercalate (hne : path ≠ []) (h : ∀ name ∈ path, Path.IsEntryName name.toList) :
    Folder.steps (String.intercalate "/" path) = path := by
  have hnames : ∀ c ∈ path.map String.toList, Path.IsEntryName c := List.forall_mem_map.2 h
  have hkept : ∀ c ∈ path.map String.toList, (c != [] && c != ['.']) = true := by
    intro c hc
    simp [(hnames c hc).isComponent.1, (hnames c hc).ne_dot]
  rw [Folder.steps, toList_intercalate, Path.components_join (by simpa using hne)
    fun c hc => (hnames c hc).isComponent, List.filter_eq_self.2 hkept, List.map_map]
  simp

theorem ofPath?_intercalate {dirs : List String}
    (h : ∀ dir ∈ dirs ++ [name], Path.IsEntryName dir.toList) :
    Language.ofPath? (String.intercalate "/" (dirs ++ [name])) =
      Language.ofFileName? name.toList := by
  have hnames : ∀ c ∈ (dirs ++ [name]).map String.toList, Path.IsEntryName c :=
    List.forall_mem_map.2 h
  have hname := h name (by simp)
  rw [Language.ofPath?, toList_intercalate, Path.swap_join fun c hc => (hnames c hc).no_backslash,
    List.map_append]
  exact congrArg Language.ofFileName? (Path.fileName_join
    (List.forall_mem_map.2 fun dir hdir => (h dir (List.mem_append_left _ hdir)).isComponent)
    hname.isComponent hname.ne_dot)

theorem isEntryName_of_mem_paths (h : here.Proper) (hpath : path ∈ paths here) :
    ∀ name ∈ path, Path.IsEntryName name.toList :=
  (mem_paths_iff.1 hpath).1.isEntryName h

theorem steps_of_mem_paths (h : here.Proper) (hpath : path ∈ paths here) :
    Folder.steps (String.intercalate "/" path) = path :=
  steps_intercalate (mem_paths_iff.1 hpath).1.ne_nil (isEntryName_of_mem_paths h hpath)

theorem mem_walk {text : String} :
    text ∈ walk here ↔ ∃ path, IsSourceAt here path ∧ text = String.intercalate "/" path := by
  rw [walk_eq, List.mem_map]
  exact exists_congr fun path => and_congr mem_paths_iff eq_comm

theorem nodup_walk (h : here.Proper) : (walk here).Nodup := by
  rw [walk_eq]
  refine List.Nodup.map_on (fun p hp q hq heq => ?_) (nodup_paths h)
  rw [← steps_of_mem_paths h hp, heq, steps_of_mem_paths h hq]

theorem isSome_language_of_mem_walk (h : here.Proper) {text : String} (htext : text ∈ walk here) :
    (Language.ofPath? text).isSome = true := by
  obtain ⟨path, ⟨hfile, dirs, name, rfl, hknown, -⟩, rfl⟩ := mem_walk.1 htext
  rw [ofPath?_intercalate (hfile.isEntryName h)]
  exact isSource_iff.2 hknown

theorem pairwise_walk (h : here.Proper) :
    (walk here).Pairwise fun p q => Precedes (Folder.steps p) (Folder.steps q) := by
  rw [walk_eq, List.pairwise_map]
  refine (pairwise_paths h).imp_of_mem fun hp hq hpq => ?_
  rw [steps_of_mem_paths h hp, steps_of_mem_paths h hq]
  exact hpq

/-- The order in which entries are listed does not matter, only where the files are. -/
theorem walk_eq_of_fileAt (h : here.Proper) (hother : other.Proper)
    (hsame : ∀ path, other.FileAt path ↔ here.FileAt path) : walk other = walk here := by
  have hsource : ∀ path, path ∈ paths other ↔ path ∈ paths here := by
    intro path
    rw [mem_paths_iff, mem_paths_iff, IsSourceAt, IsSourceAt, hsame]
  -- the same paths can be in order in one way only
  have hperm := (List.perm_ext_iff_of_nodup (nodup_paths hother) (nodup_paths h)).2 hsource
  rw [walk_eq, walk_eq, hperm.eq_of_pairwise (fun p q _ _ hpq hqp => absurd hqp hpq.asymm)
    (pairwise_paths hother) (pairwise_paths h)]

/-- The source files of a folder are listed, each once and nothing else; every path has a language,
    in each folder the files come by name before the folders by name, and the list is the same for
    every folder with files at the same paths, in whatever order its entries are listed. -/
theorem walk_lists_source_files (h : here.Proper) :
    (∀ text, text ∈ walk here ↔
      ∃ path, IsSourceAt here path ∧ text = String.intercalate "/" path) ∧
    (walk here).Nodup ∧
    (∀ text ∈ walk here, (Language.ofPath? text).isSome = true) ∧
    (walk here).Pairwise (fun p q => Precedes (Folder.steps p) (Folder.steps q)) ∧
    ∀ other : Folder, other.Proper → (∀ path, other.FileAt path ↔ here.FileAt path) →
      walk other = walk here :=
  ⟨fun _ => mem_walk, nodup_walk h, fun _ => isSome_language_of_mem_walk h, pairwise_walk h,
    fun _ => walk_eq_of_fileAt h⟩

/-- A project with a folder that is left out and a file that is none of its sources; it may as well
    be listed the other way round. -/
theorem walk_lists_source_files_reversed :
    let here : Folder :=
      [.folder "src" [.file "b.py" [], .file "a.js" []], .folder "build" [.file "c.js" []],
        .file "setup.py" [], .file "notes.txt" []]
    here.Proper ∧ walk here.reverse = walk here ∧ "src/a.js" ∈ walk here ∧
      (walk here).Pairwise fun p q => Precedes (Folder.steps p) (Folder.steps q) := by
  intro here
  have hproper : here.Proper := by
    refine .mk (by decide) (by decide) fun name entries hfolder => ?_
    obtain ⟨rfl, rfl⟩ | ⟨rfl, rfl⟩ :
        name = "src" ∧ entries = [.file "b.py" [], .file "a.js" []] ∨
          name = "build" ∧ entries = [.file "c.js" []] := by simpa [here] using hfolder
    all_goals exact .mk (by decide) (by decide) fun _ _ hnone => by simp at hnone
  have hreverse : List.Perm here.reverse here := List.reverse_perm here
  have hsame : ∀ path, Folder.FileAt here.reverse path ↔ here.FileAt path :=
    fun path => ⟨.perm hreverse, .perm hreverse.symm⟩
  obtain ⟨hmem, -, -, horder, hother⟩ := walk_lists_source_files hproper
  have hlast : Entry.file "a.js" [] ∈ [Entry.file "b.py" [], .file "a.js" []] := by simp
  have hfile : here.FileAt ["src", "a.js"] := .inside (List.mem_cons_self ..) (.file hlast)
  have hsource : IsSourceAt here ["src", "a.js"] :=
    ⟨hfile, ["src"], "a.js", rfl, by decide, by decide⟩
  exact ⟨hproper, hother _ (hproper.perm hreverse.symm) hsame, (hmem _).2 ⟨_, hsource, by decide⟩,
    horder⟩

end CodeSurvey.SourceFiles
