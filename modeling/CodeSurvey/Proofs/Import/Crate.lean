import CodeSurvey.Proofs.Import.ModuleName
import Mathlib.Data.List.Infix

/-!
Paths through the modules of a crate. A path may start at the crate or climb from the module it is
written in. Main statement: climbing to an outer module and spelling the way to it from the crate
resolve to the same file, whatever comes behind, if the outer modules have files.
-/

namespace CodeSurvey.Import

open CodeSurvey.Path Text

variable {names outer inner below segments : List (List Char)} {fromFile base : List Char}
  {files : List String}

/-- A path as it is written. -/
def rustPath (segments : List (List Char)) : List Char := join [':', ':'] segments

/-- The directory that holds the children of a module, given the names on the way to it. -/
def crateDir (names : List (List Char)) : List Char := join ['/'] ("src".toList :: names)

/-- The files that may hold the module with this directory. -/
def moduleFiles (dir : List Char) : List (List Char) := [dir ++ ".rs".toList, dir ++ "/mod.rs".toList]

/-- The file of the module that a path starts from. -/
def startFile? (files : List String) (base : List Char) : Option (List Char) :=
  firstExisting files
    (moduleFiles (normalised base) ++ [normalised base ++ "/lib.rs".toList,
      normalised base ++ "/main.rs".toList])

/-! ### Where a module lies -/

theorem isEntryName_src : IsEntryName "src".toList := by decide

theorem crateDir_concat (names : List (List Char)) (name : List Char) :
    crateDir (names ++ [name]) = crateDir names ++ '/' :: name := by
  rw [crateDir, crateDir, ← List.cons_append, join_concat _ (List.cons_ne_nil _ _),
    List.append_assoc, List.singleton_append]

theorem directory_crateDir_concat (h : ∀ c ∈ names, IsComponent c) (name : List Char)
    (hname : IsComponent name) : directory (crateDir (names ++ [name])) = crateDir names :=
  directory_join (List.forall_mem_cons.2 ⟨isEntryName_src.isComponent, h⟩) hname

theorem crateDir_ne_nil (h : ∀ c ∈ names, IsComponent c) : crateDir names ≠ [] :=
  (join_ends_ne_slash (List.cons_ne_nil _ _)
    (List.forall_mem_cons.2 ⟨isEntryName_src.isComponent, h⟩)).2.2

theorem normalised_crateDir (h : ∀ c ∈ names, IsEntryName c) :
    normalised (crateDir names) = crateDir names :=
  normalised_join (List.cons_ne_nil _ _) (List.forall_mem_cons.2 ⟨isEntryName_src, h⟩)

/-- Going down one name after another. -/
theorem foldl_append_crateDir (h : ∀ c ∈ outer, IsComponent c) :
    outer.foldl append "src".toList = crateDir outer := by
  induction outer using List.reverseRecOn with
  | nil => rfl
  | append_singleton outer name ih =>
    obtain ⟨houter, hname⟩ := List.forall_mem_append.1 h
    have hbase := append_join (List.forall_mem_cons.2 ⟨isEntryName_src.isComponent, houter⟩)
      (List.cons_ne_nil name []) hname
    rw [List.foldl_append, ih houter]
    exact hbase

/-- The file of a module tells the directory of its children. -/
theorem rustModuleDir_of_mem (h : fromFile ∈ moduleFiles (crateDir names)) (hne : names ≠ [])
    (hnames : ∀ c ∈ names, IsModuleName c)
    (hlast : ∀ c ∈ names.getLast?, c ∉ ["mod", "lib", "main"].map String.toList) :
    rustModuleDir fromFile = crateDir names := by
  obtain ⟨outer, name, rfl⟩ : ∃ outer name, names = outer ++ [name] :=
    ⟨_, _, (List.dropLast_append_getLast hne).symm⟩
  obtain ⟨houter, hname⟩ := List.forall_mem_append.1 hnames
  have hname := hname name (List.mem_singleton_self name)
  have hcomponents : ∀ c ∈ outer, IsComponent c := fun c hc =>
    (houter c hc).isEntryName.isComponent
  have hcomponent := hname.isEntryName.isComponent
  rcases List.mem_cons.1 h with rfl | h
  · -- the file is named after the module
    have hfile : crateDir (outer ++ [name]) ++ ".rs".toList =
        crateDir (outer ++ [name ++ ".rs".toList]) := by
      rw [crateDir_concat, crateDir_concat, List.append_assoc, List.cons_append]
    have hslash : '/' ∉ name ++ ".rs".toList := by
      rw [List.mem_append, not_or]
      exact ⟨hcomponent.2, by decide⟩
    have hstem : stem (name ++ ".rs".toList) = name :=
      stem_append_extension hname.ne_nil (hname.plain '.' (by decide)) (by decide)
    have hroot : ¬ ["mod", "lib", "main"].contains (String.ofList name) = true := by
      intro hmem
      refine hlast name List.getLast?_concat (List.mem_map.2 ⟨_, List.contains_iff_mem.1 hmem, ?_⟩)
      exact String.toList_ofList
    have hdir := directory_crateDir_concat hcomponents (name ++ ".rs".toList) ⟨by simp, hslash⟩
    have hbase : baseName (crateDir (outer ++ [name ++ ".rs".toList])) = name ++ ".rs".toList :=
      baseName_join (List.cons_ne_nil _ _) hslash
    have hopen : ¬ (crateDir outer).isEmpty = true := by
      rw [List.isEmpty_iff]
      exact crateDir_ne_nil hcomponents
    rw [hfile]
    simp only [rustModuleDir, hdir, hbase, hstem]
    rw [if_neg hroot, if_neg hopen]
    exact append_join (List.forall_mem_cons.2 ⟨isEntryName_src.isComponent, hcomponents⟩)
      (List.cons_ne_nil name []) (List.forall_mem_singleton.2 hcomponent)
  · -- the file is the root of its directory
    obtain rfl := List.mem_singleton.1 h
    have hfile : crateDir (outer ++ [name]) ++ "/mod.rs".toList =
        crateDir (outer ++ [name] ++ ["mod.rs".toList]) := (crateDir_concat ..).symm
    have hdir := directory_crateDir_concat
      (List.forall_mem_append.2 ⟨hcomponents, List.forall_mem_singleton.2 hcomponent⟩)
      "mod.rs".toList (by decide)
    have hbase : baseName (crateDir (outer ++ [name] ++ ["mod.rs".toList])) = "mod.rs".toList :=
      baseName_join (List.cons_ne_nil _ _) (by decide)
    rw [hfile]
    simp only [rustModuleDir, hdir, hbase]
    exact if_pos (by decide)

/-! ### The search for a file -/

/-- A search sees no more of a function than its values on the list. -/
theorem findSome?_congr {α β : Type} {f g : α → Option β} {l : List α}
    (h : ∀ a ∈ l, f a = g a) : l.findSome? f = l.findSome? g := by
  have hmap : ∀ f : α → Option β, l.findSome? f = (l.map f).findSome? id := fun f => by
    rw [List.findSome?_map, Function.id_comp]
  rw [hmap f, hmap g, List.map_congr_left h]

/-- Ever shorter paths are tried, so first those that go on below an outer module. -/
theorem rustModuleFile?_append (files : List String) (base : List Char)
    (outer below : List (List Char)) :
    rustModuleFile? files base (outer ++ below) =
      (rustModuleFile? files (outer.foldl append base) below).or
        (rustModuleFile? files base outer) := by
  have hbelow : ∀ n, (outer ++ below).take (outer.length + n + 1) = outer ++ below.take (n + 1) :=
    fun n => List.take_length_add_append (n + 1)
  have houter : ∀ n ∈ (List.range outer.length).reverse,
      (outer ++ below).take (n + 1) = outer.take (n + 1) := fun n hn =>
    List.take_append_of_le_length (List.mem_range.1 (List.mem_reverse.1 hn))
  simp only [rustModuleFile?, List.length_append, List.range_add, List.reverse_append,
    List.findSome?_append, ← List.map_reverse, List.findSome?_map]
  congr 1
  · refine findSome?_congr fun n _ => ?_
    simp only [Function.comp_apply, hbelow, List.foldl_append]
  · exact findSome?_congr fun n hn => by rw [houter n hn]

/-- A single segment is looked for where it stands. -/
theorem rustModuleFile?_singleton (files : List String) (base name : List Char) :
    rustModuleFile? files base [name] =
      firstExisting files (moduleFiles (normalised (append base name))) := by
  have hsearch : rustModuleFile? files base [name] = [0].findSome? fun _ =>
      firstExisting files (moduleFiles (normalised (append base name))) := rfl
  rw [hsearch, List.findSome?_singleton]

/-- An outer module that has a file is found at once. -/
theorem rustModuleFile?_eq_startFile? (hne : outer ≠ []) (h : ∀ c ∈ outer, IsEntryName c)
    (hfile : ∃ file ∈ moduleFiles (crateDir outer), String.ofList file ∈ files) :
    rustModuleFile? files "src".toList outer = startFile? files (crateDir outer) ∧
      (startFile? files (crateDir outer)).isSome := by
  have hsome : (firstExisting files (moduleFiles (crateDir outer))).isSome := by
    obtain ⟨file, hmem, hfile⟩ := hfile
    exact List.find?_isSome.2 ⟨file, hmem, List.contains_iff_mem.2 hfile⟩
  obtain ⟨found, hfound⟩ := Option.isSome_iff_exists.1 hsome
  have hstart : startFile? files (crateDir outer) = some found := by
    rw [startFile?, normalised_crateDir h, firstExisting, List.find?_append]
    exact congrArg (Option.or · _) hfound
  have hsearch : rustModuleFile? files "src".toList outer = some found := by
    obtain ⟨above, name, rfl⟩ : ∃ above name, outer = above ++ [name] :=
      ⟨_, _, (List.dropLast_append_getLast hne).symm⟩
    have hway : append (above.foldl append "src".toList) name = crateDir (above ++ [name]) := by
      rw [← foldl_append_crateDir fun c hc => (h c hc).isComponent, List.foldl_concat]
    rw [rustModuleFile?_append, rustModuleFile?_singleton, hway, normalised_crateDir h, hfound,
      Option.some_or]
  rw [hsearch, hstart]
  exact ⟨rfl, rfl⟩

/-! ### Where a path starts -/

/-- Each `super` in front goes up one directory. -/
theorem rustClimb_replicate (hbelow : below.head? ≠ some "super".toList) (levels : Nat)
    (base : List Char) :
    rustClimb base (List.replicate levels "super".toList ++ below) = (ancestor levels base, below) := by
  induction levels generalizing base with
  | zero =>
    cases below with
    | nil => rfl
    | cons segment below =>
      have hsegment : ¬ (segment == "super".toList) = true := fun heq =>
        hbelow (congrArg some (eq_of_beq heq))
      show rustClimb base (segment :: below) = _
      rw [rustClimb, if_neg hsegment]
      rfl
  | succ n ih =>
    rw [List.replicate_succ, List.cons_append, rustClimb, if_pos (beq_self_eq_true _), ih]
    rfl

/-- A path that starts at the crate or above is searched for, and falls back to the file it starts
    from. -/
theorem resolveRust_rustPath {root : RustRoot} {start : List Char}
    (hroot : RustRoot.ofSegment? start = some root) (hitself : root ≠ .currentModule)
    (hstart : IsModuleName start) (hsegments : ∀ c ∈ segments, IsModuleName c)
    (hbase : root.start fromFile segments = (base, below)) (hne : base ≠ []) :
    resolveRust (rustPath (start :: segments)) fromFile files =
      (rustModuleFile? files base below).or (startFile? files base) := by
  have hpieces : piecesPair ':' ':' (rustPath (start :: segments)) = start :: segments :=
    piecesPair_join (List.cons_ne_nil _ _) fun c hc =>
      (List.forall_mem_cons.2 ⟨hstart, hsegments⟩ c hc).plain ':' (by decide)
  have hkept : segments.filter (fun s => s != [] && s != ['*']) = segments := by
    refine List.filter_eq_self.2 fun c hc => ?_
    have hstar : c ≠ ['*'] := by
      rintro rfl
      exact (hsegments _ hc).plain '*' (by decide) (List.mem_cons_self ..)
    simp [(hsegments c hc).ne_nil, hstar]
  have hfallback : ¬ (root == .currentModule || base.isEmpty) = true := by
    rw [Bool.or_eq_true, beq_iff_eq, List.isEmpty_iff, not_or]
    exact ⟨hitself, hne⟩
  rw [resolveRust]
  simp only [hpieces, List.head?_cons, Option.bind_some, hroot, List.drop_one, List.tail_cons,
    hkept, hbase]
  rw [if_neg hfallback]
  cases rustModuleFile? files base below <;> rfl

/-- As many `super`s as there are modules below the outer one lead to it. -/
theorem start_parentModule {levels : Nat} (hfrom : fromFile ∈ moduleFiles (crateDir (outer ++ inner)))
    (hnames : ∀ c ∈ outer ++ inner, IsModuleName c)
    (hlast : ∀ c ∈ (outer ++ inner).getLast?, c ∉ ["mod", "lib", "main"].map String.toList)
    (hinner : inner.length = levels + 1) (hbelow : below.head? ≠ some "super".toList) :
    RustRoot.start .parentModule fromFile (List.replicate levels "super".toList ++ below) =
      (crateDir outer, below) := by
  have hcomponents : ∀ c ∈ "src".toList :: outer ++ inner, IsComponent c :=
    List.forall_mem_cons.2 ⟨isEntryName_src.isComponent,
      fun c hc => (hnames c hc).isEntryName.isComponent⟩
  have hancestor := ancestor_join hcomponents
  rw [hinner] at hancestor
  have hne : outer ++ inner ≠ [] := List.ne_nil_of_length_pos (by rw [List.length_append]; omega)
  rw [RustRoot.start, rustModuleDir_of_mem hfrom hne hnames hlast, rustClimb_replicate hbelow]
  exact congrArg (·, below) hancestor

/-- A path from the crate through a module that has a file leads to what is below this module, or
    else to the module itself. -/
theorem resolveRust_crate (houter : ∀ c ∈ outer, IsModuleName c)
    (hbelow : ∀ c ∈ below, IsModuleName c)
    (hfile : outer ≠ [] → ∃ file ∈ moduleFiles (crateDir outer), String.ofList file ∈ files) :
    resolveRust (rustPath ("crate".toList :: (outer ++ below))) fromFile files =
      (rustModuleFile? files (crateDir outer) below).or (startFile? files (crateDir outer)) := by
  have hentries : ∀ c ∈ outer, IsEntryName c := fun c hc => (houter c hc).isEntryName
  have hpath : resolveRust (rustPath ("crate".toList :: (outer ++ below))) fromFile files =
      (rustModuleFile? files "src".toList (outer ++ below)).or (startFile? files "src".toList) :=
    resolveRust_rustPath rfl (by decide) (by decide) (List.forall_mem_append.2 ⟨houter, hbelow⟩)
      rfl (by decide)
  rw [hpath, rustModuleFile?_append, foldl_append_crateDir fun c hc => (hentries c hc).isComponent]
  by_cases hnil : outer = []
  · subst hnil
    have hnothing : rustModuleFile? files "src".toList [] = none := rfl
    rw [hnothing, Option.or_none]
    rfl
  · -- the outer module itself has a file, so the search ends there at the latest
    obtain ⟨hfound, hsome⟩ := rustModuleFile?_eq_startFile? hnil hentries (hfile hnil)
    obtain ⟨found, hstart⟩ := Option.isSome_iff_exists.1 hsome
    rw [hfound, hstart, Option.or_assoc, Option.some_or]

/-- Climbing from a module to an outer one is starting at the crate and going down to that one. -/
theorem resolveRust_super_eq_crate {levels : Nat} (hfrom : fromFile ∈ moduleFiles (crateDir names))
    (hnames : ∀ c ∈ names, IsModuleName c)
    (hlast : ∀ c ∈ names.getLast?, c ∉ ["mod", "lib", "main"].map String.toList)
    (houter : ∀ outer, outer ≠ [] → outer <+: names → outer ≠ names →
      ∃ file ∈ moduleFiles (crateDir outer), String.ofList file ∈ files)
    (hbelow : ∀ c ∈ below, IsModuleName c ∧ c ∉ ["super", "self", "crate"].map String.toList)
    (hlevels : 1 ≤ levels) (hle : levels ≤ names.length) :
    resolveRust (rustPath (List.replicate levels "super".toList ++ below)) fromFile files =
      resolveRust (rustPath ("crate".toList :: (names.take (names.length - levels) ++ below)))
        fromFile files := by
  obtain ⟨climbs, rfl⟩ := Nat.exists_eq_add_of_le' hlevels
  generalize hkept : names.take (names.length - (climbs + 1)) = outer
  obtain ⟨inner, rfl, hinner⟩ : ∃ inner, names = outer ++ inner ∧ inner.length = climbs + 1 := by
    refine ⟨names.drop (names.length - (climbs + 1)), ?_, ?_⟩
    · rw [← hkept, List.take_append_drop]
    · rw [List.length_drop]
      omega
  have houterNames := (List.forall_mem_append.1 hnames).1
  have hbelowNames : ∀ c ∈ below, IsModuleName c := fun c hc => (hbelow c hc).1
  have hhead : below.head? ≠ some "super".toList := fun hsuper =>
    (hbelow _ (List.mem_of_head? hsuper)).2 (by decide)
  have hclimbs : ∀ c ∈ List.replicate climbs "super".toList, IsModuleName c := fun c hc =>
    List.eq_of_mem_replicate hc ▸ by decide
  have hproper : outer ≠ outer ++ inner := by
    intro heq
    have := congrArg List.length heq
    rw [List.length_append] at this
    omega
  rw [resolveRust_crate houterNames hbelowNames fun hne =>
    houter outer hne (List.prefix_append ..) hproper]
  exact resolveRust_rustPath rfl (by decide) (by decide)
    (List.forall_mem_append.2 ⟨hclimbs, hbelowNames⟩)
    (start_parentModule hfrom hnames hlast hinner hhead)
    (crateDir_ne_nil fun c hc => (houterNames c hc).isEntryName.isComponent)

/-- Two directories up from a module in a directory of its own; what is named there has no file, so
    both paths lead to the outer module itself. -/
theorem resolveRust_super_eq_crate_item :
    let files := ["src/main.rs", "src/api.rs", "src/api/v1/mod.rs", "src/api/v1/user/mod.rs"]
    let fromFile := "src/api/v1/user/mod.rs".toList
    resolveRust "super::super::Request".toList fromFile files = some "src/api.rs".toList ∧
      resolveRust "crate::api::Request".toList fromFile files = some "src/api.rs".toList := by
  intro files fromFile
  let names := ["api".toList, "v1".toList, "user".toList]
  have hfrom : fromFile ∈ moduleFiles (crateDir names) := by decide
  have hprefixes : ∀ outer ∈ names.inits, outer ≠ [] → outer ≠ names →
      ∃ file ∈ moduleFiles (crateDir outer), String.ofList file ∈ files := by decide
  have hbelow : ∀ c ∈ ["Request".toList],
      IsModuleName c ∧ c ∉ ["super", "self", "crate"].map String.toList := by decide
  have hspellings := resolveRust_super_eq_crate hfrom (by decide) (by decide)
    (fun outer hne hprefix hproper => hprefixes outer ((List.mem_inits ..).2 hprefix) hne hproper)
    hbelow (show 1 ≤ 2 by decide) (by decide)
  have hcrate : resolveRust "crate::api::Request".toList fromFile files =
      some "src/api.rs".toList := by decide +kernel
  exact ⟨hspellings.trans hcrate, hcrate⟩

end CodeSurvey.Import
