import CodeSurvey.Graph.Build
import CodeSurvey.Proofs.Graph.Entries
import CodeSurvey.Sorting
import Mathlib.Data.Finset.Card
import Mathlib.Algebra.Ring.Nat

/-!
Building the graph of a list of files. Adding the scanned files one by one keeps the two adjacencies
turned round against each other. Main statement: whatever the files hold and whichever of them fail,
the two adjacencies list the same edges, between different files of the list, each once, and the
counts are those of the files and edges.
-/

namespace CodeSurvey.Graph

open Adjacency

variable {lookup : String → LanguageLookup} {read : String → FileText} {files : List String}
  {f t path language : String}

/-! ### The scanned files -/

/-- The look-up finds a language with an import scan. -/
def LanguageLookup.isScanned : LanguageLookup → Bool
  | .found language => Import.isImportable language
  | _ => false

/-- There is no text to scan. -/
def FileText.isMissing : FileText → Bool
  | .text _ => false
  | _ => true

theorem mem_importable : (path, language) ∈ importable lookup files ↔
    path ∈ files ∧ lookup path = .found language ∧ Import.isImportable language = true := by
  rw [importable, List.mem_filterMap]
  constructor
  · rintro ⟨p, hp, h⟩
    split at h
    · rename_i l hl
      split at h
      · rename_i hi
        obtain ⟨rfl, rfl⟩ := Prod.mk.inj (Option.some.inj h)
        exact ⟨hp, hl, hi⟩
      · simp at h
    · simp at h
  · rintro ⟨hp, hl, hi⟩
    exact ⟨path, hp, by simp [hl, hi]⟩

theorem importable_map_fst (lookup : String → LanguageLookup) (files : List String) :
    (importable lookup files).map (·.1) = files.filter fun p => (lookup p).isScanned := by
  induction files with
  | nil => rfl
  | cons p more ih =>
    rw [importable] at ih
    rw [importable, List.filterMap_cons, List.filter_cons]
    cases hl : lookup p with
    | failed => simpa [hl, LanguageLookup.isScanned] using ih
    | unknown => simpa [hl, LanguageLookup.isScanned] using ih
    | found l =>
      by_cases hi : Import.isImportable l = true
      · simpa [hl, LanguageLookup.isScanned, hi] using ih
      · simpa [hl, LanguageLookup.isScanned, hi] using ih

/-- The scanned files of a list. -/
def scanned (lookup : String → LanguageLookup) (read : String → FileText) (files : List String) :
    List ScannedFile :=
  (importable lookup files).map fun (path, language) => scanFile read files path language

theorem scanned_map_path (lookup : String → LanguageLookup) (read : String → FileText)
    (files : List String) :
    (scanned lookup read files).map (·.path) = files.filter fun p => (lookup p).isScanned := by
  rw [← importable_map_fst, scanned, List.map_map]
  rfl

theorem targets_isNone (read : String → FileText) (files : List String) (path language : String) :
    (scanFile read files path language).targets.isNone = (read path).isMissing := by
  unfold scanFile FileText.isMissing
  cases read path <;> rfl

/-- The forward adjacency of scanned files; a file without targets has no entry. -/
def forwardOf (scanned : List ScannedFile) : Adjacency :=
  scanned.filterMap fun s =>
    match s.targets with
    | some (t :: ts) => some (s.path, t :: ts)
    | _ => none

theorem mem_forwardOf {s : List ScannedFile} {ts : List String} :
    (f, ts) ∈ forwardOf s ↔ ts ≠ [] ∧ ∃ e ∈ s, e.path = f ∧ e.targets = some ts := by
  rw [forwardOf, List.mem_filterMap]
  constructor
  · rintro ⟨e, he, h⟩
    split at h
    · rename_i u us htargets
      obtain ⟨rfl, rfl⟩ := Prod.mk.inj (Option.some.inj h)
      exact ⟨List.cons_ne_nil _ _, e, he, rfl, htargets⟩
    · simp at h
  · rintro ⟨hne, e, he, rfl, ht⟩
    refine ⟨e, he, ?_⟩
    obtain ⟨u, us, rfl⟩ := List.exists_cons_of_ne_nil hne
    rw [ht]

theorem keys_forwardOf_sublist (s : List ScannedFile) :
    ((forwardOf s).map (·.1)).Sublist (s.map (·.path)) := by
  induction s with
  | nil => exact List.Sublist.refl _
  | cons e more ih =>
    rw [forwardOf] at ih
    rw [forwardOf, List.filterMap_cons]
    split
    · exact ih.cons _
    · rename_i entry hentry
      split at hentry
      · obtain rfl := Option.some.inj hentry
        exact ih.cons_cons _
      · simp at hentry

/-! ### The merge -/

/-- The graph that scanned files add up to. -/
def collected (errors : Nat) (scanned : List ScannedFile) : DependencyGraph where
  forward := forwardOf scanned
  reverse := (forwardOf scanned).turned
  stats :=
    { edges := (forwardOf scanned).size, languages := scanned.map (·.language),
      errors := errors + (scanned.filter (·.targets.isNone)).length }

/-- Adding a file that has no entry yet keeps the graph that of the files added. -/
theorem addScanned_collected {errors : Nat} {front : List ScannedFile} {e : ScannedFile}
    (h : e.path ∉ front.map (·.path)) :
    addScanned (collected errors front) e = collected errors (front ++ [e]) := by
  have hkeys : e.path ∉ (forwardOf front).map (·.1) :=
    fun hm => h ((keys_forwardOf_sublist front).subset hm)
  obtain ⟨path, language, targets⟩ := e
  cases targets with
  | none => simp [addScanned, collected, forwardOf, Nat.add_assoc]
  | some targets =>
    cases targets with
    | nil => simp [addScanned, collected, forwardOf]
    | cons t ts =>
      have hforward : forwardOf (front ++ [⟨path, language, some (t :: ts)⟩]) =
          forwardOf front ++ [(path, t :: ts)] := by
        simp [forwardOf]
      simp only [addScanned, collected, hforward, turned_concat, size_concat,
        put_of_notMem hkeys]
      simp

theorem foldl_addScanned (errors : Nat) (front : List ScannedFile) {more : List ScannedFile}
    (h : ((front ++ more).map (·.path)).Nodup) :
    more.foldl addScanned (collected errors front) = collected errors (front ++ more) := by
  induction more generalizing front with
  | nil => rw [List.append_nil]; rfl
  | cons e more ih =>
    rw [List.append_cons] at h
    have hnew : e.path ∉ front.map (·.path) := by
      rw [List.map_append, List.map_append] at h
      have := List.nodup_append.1 (List.nodup_append.1 h).1
      exact fun hm => this.2.2 _ hm _ (List.mem_singleton.2 rfl) rfl
    rw [List.foldl_cons, addScanned_collected hnew, ih _ h, ← List.append_cons]

/-- The merge gives the adjacency of the scanned files, the same turned round, and their counts. -/
theorem merge_eq {s : List ScannedFile} (h : (s.map (·.path)).Nodup) (errors : Nat)
    (builtAt : String) :
    merge errors s builtAt =
      { forward := forwardOf s
        reverse := (forwardOf s).turned
        stats :=
          { filesParsed := s.length, edges := (forwardOf s).size,
            languages := sortedLanguages (s.map (·.language)),
            errors := errors + (s.filter (·.targets.isNone)).length }
        builtAt } := by
  have hfold : s.foldl addScanned (collected errors []) = collected errors s :=
    foldl_addScanned errors [] h
  rw [merge, show ({ stats := { errors } } : DependencyGraph) = collected errors [] from rfl, hfold]
  rfl

theorem mem_targetsOf {content : List Char} : t ∈ targetsOf path language content files ↔
    ∃ e ∈ Import.edges path content (some language) files, e.resolved = some t := by
  rw [targetsOf, List.mem_eraseDups, List.mem_filterMap]

/-- A file's entry lists what its text imports, if it is scanned and imports something. -/
theorem mem_forward_scanned {ts : List String} :
    (f, ts) ∈ forwardOf (scanned lookup read files) ↔ ts ≠ [] ∧ ∃ language content,
      (f, language) ∈ importable lookup files ∧ read f = .text content ∧
        ts = targetsOf f language content files := by
  rw [mem_forwardOf, scanned]
  refine and_congr_right fun _ => ?_
  constructor
  · rintro ⟨e, he, rfl, ht⟩
    obtain ⟨⟨p, l⟩, hp, rfl⟩ := List.mem_map.1 he
    cases hr : read p with
    | text content =>
      refine ⟨l, content, hp, hr, ?_⟩
      simpa [scanFile, hr] using ht.symm
    | unreadable => simp [scanFile, hr] at ht
    | unscannable => simp [scanFile, hr] at ht
  · rintro ⟨l, content, hp, hr, rfl⟩
    exact ⟨_, List.mem_map.2 ⟨_, hp, rfl⟩, rfl, by simp [scanFile, hr]⟩

theorem keys_forward_scanned_sublist (lookup : String → LanguageLookup) (read : String → FileText)
    (files : List String) : ((forwardOf (scanned lookup read files)).map (·.1)).Sublist files := by
  refine (keys_forwardOf_sublist _).trans ?_
  rw [scanned_map_path]
  exact List.filter_sublist

theorem functional_forward_scanned (h : files.Nodup) :
    (forwardOf (scanned lookup read files)).Functional :=
  h.sublist (keys_forward_scanned_sublist lookup read files)

theorem nodup_of_mem_forward {e : String × List String}
    (he : e ∈ forwardOf (scanned lookup read files)) : e.2.Nodup := by
  obtain ⟨_, l, content, _, _, hts⟩ := mem_forward_scanned.1 he
  rw [hts]
  exact Distinct.nodup_eraseDups _

/-! ### The counts -/

/-- The files of a list for which a test comes out true, each counted once. -/
def count (paths : List String) (test : String → Bool) : Nat :=
  (paths.toFinset.filter fun p => test p = true).card

theorem length_filter_eraseDups (paths : List String) (test : String → Bool) :
    (paths.eraseDups.filter test).length = count paths test := by
  rw [count, ← List.toFinset_card_of_nodup ((Distinct.nodup_eraseDups paths).filter test)]
  congr 1
  ext p
  simp

/-- The files that are scanned and have no text to scan. -/
theorem length_missing_scanned (lookup : String → LanguageLookup) (read : String → FileText)
    (files : List String) :
    ((scanned lookup read files).filter (·.targets.isNone)).length =
      (files.filter fun p => (lookup p).isScanned && (read p).isMissing).length := by
  have hfilter : (scanned lookup read files).filter (·.targets.isNone) =
      ((importable lookup files).filter fun e => (read e.1).isMissing).map
        fun (path, language) => scanFile read files path language := by
    rw [scanned, List.filter_map]
    congr 1
    refine List.filter_congr fun e _ => ?_
    exact targets_isNone read files e.1 e.2
  rw [hfilter, List.length_map, ← List.length_map (·.1)]
  have : ((importable lookup files).filter fun e => (read e.1).isMissing).map (·.1) =
      ((importable lookup files).map (·.1)).filter fun p => (read p).isMissing := by
    rw [List.filter_map]; rfl
  rw [this, importable_map_fst, List.filter_filter]
  congr 1
  refine List.filter_congr fun p _ => ?_
  exact Bool.and_comm _ _

/-- The languages come in order, each once. -/
theorem pairwise_sortedLanguages (languages : List String) :
    (sortedLanguages languages).Pairwise (· < ·) := by
  have hle : (sortedLanguages languages).Pairwise (· ≤ ·) :=
    List.Pairwise.sublist (Distinct.eraseDups_sublist _)
      (Sorting.pairwise_smallestFirst id languages)
  refine (hle.and (Distinct.nodup_eraseDups _)).imp fun ⟨h, hne⟩ => ?_
  exact String.not_le.1 fun hge => hne (String.le_antisymm h hge)

theorem mem_sortedLanguages {languages : List String} :
    language ∈ sortedLanguages languages ↔ language ∈ languages := by
  rw [sortedLanguages, List.mem_eraseDups, List.mem_mergeSort]

theorem mem_languages_scanned : language ∈ (scanned lookup read files).map (·.language) ↔
    ∃ p ∈ files, lookup p = .found language ∧ Import.isImportable language = true := by
  rw [scanned, List.map_map, List.mem_map]
  constructor
  · rintro ⟨⟨p, l⟩, hp, rfl⟩
    exact ⟨p, mem_importable.1 hp⟩
  · rintro ⟨p, hp⟩
    exact ⟨(p, language), mem_importable.2 hp, rfl⟩

/-! ### The edges -/

/-- An entry leads from one of the files to others of them. -/
theorem listed_of_mem_forward {e : String × List String}
    (he : e ∈ forwardOf (scanned lookup read files)) :
    e.1 ∈ files ∧ ∀ t ∈ e.2, t ∈ files ∧ t ≠ e.1 := by
  obtain ⟨_, l, content, hp, _, hts⟩ := mem_forward_scanned.1 he
  refine ⟨(mem_importable.1 hp).1, fun t ht => ?_⟩
  obtain ⟨i, hi, hit⟩ := mem_targetsOf.1 (hts ▸ ht)
  exact Import.resolved_mem_edges hi hit

/-- An edge is an import that the text of a scanned file shows. -/
theorem mem_neighbours_forward (h : files.Nodup) :
    t ∈ (forwardOf (scanned lookup read files)).neighbours f ↔ ∃ language content,
      (f, language) ∈ importable lookup files ∧ read f = .text content ∧
        ∃ e ∈ Import.edges f content (some language) files, e.resolved = some t := by
  refine (functional_forward_scanned h).edge_iff.trans ?_
  constructor
  · rintro ⟨ts, hts, ht⟩
    obtain ⟨_, l, content, hp, hr, rfl⟩ := mem_forward_scanned.1 hts
    exact ⟨l, content, hp, hr, mem_targetsOf.1 ht⟩
  · rintro ⟨l, content, hp, hr, ht⟩
    have ht := mem_targetsOf.2 ht
    exact ⟨_, mem_forward_scanned.2 ⟨List.ne_nil_of_mem ht, l, content, hp, hr, rfl⟩, ht⟩

/-- The importers of a file are the files with an entry that lists it, in the order of the
    entries. -/
theorem reverse_eq {e : String × List String}
    (he : e ∈ (forwardOf (scanned lookup read files)).turned) :
    e.2 = ((forwardOf (scanned lookup read files)).filter fun d => d.2.contains e.1).map (·.1) := by
  rw [← neighbours_turned_of_nodup fun d hd => nodup_of_mem_forward hd]
  exact ((functional_turned _).neighbours_eq he).symm

theorem reverse_sublist {e : String × List String}
    (he : e ∈ (forwardOf (scanned lookup read files)).turned) : e.2.Sublist files := by
  rw [reverse_eq he]
  exact (List.filter_sublist.map _).trans (keys_forward_scanned_sublist lookup read files)

/-- What has importers is one of the files, since some importer lists it. -/
theorem mem_of_mem_turned {e : String × List String}
    (he : e ∈ (forwardOf (scanned lookup read files)).turned) : e.1 ∈ files := by
  obtain ⟨x, hx⟩ := List.exists_mem_of_ne_nil _ (ne_nil_of_mem_turned _ e he)
  rw [reverse_eq he, List.mem_map] at hx
  obtain ⟨d, hd, _⟩ := hx
  obtain ⟨hd, hc⟩ := List.mem_filter.1 hd
  exact ((listed_of_mem_forward hd).2 e.1 (List.contains_iff_mem.1 hc)).1

/-! ### The graph -/

/-- The graph of a list of files, by its scanned files and the failures. -/
theorem build_eq (lookup : String → LanguageLookup) (read : String → FileText)
    (paths : List String) (builtAt : String) :
    build lookup read paths builtAt =
      { forward := forwardOf (scanned lookup read paths.eraseDups)
        reverse := (forwardOf (scanned lookup read paths.eraseDups)).turned
        stats :=
          { filesParsed := (importable lookup paths.eraseDups).length
            edges := (forwardOf (scanned lookup read paths.eraseDups)).size
            languages := sortedLanguages ((importable lookup paths.eraseDups).map (·.2))
            errors := count paths (fun p => lookup p == .failed) +
              count paths fun p => (lookup p).isScanned && (read p).isMissing }
        builtAt } := by
  have hpaths : ((scanned lookup read paths.eraseDups).map (·.path)).Nodup := by
    rw [scanned_map_path]
    exact (Distinct.nodup_eraseDups paths).filter _
  have hlength : (scanned lookup read paths.eraseDups).length =
      (importable lookup paths.eraseDups).length := List.length_map _
  have hlanguages : (scanned lookup read paths.eraseDups).map (·.language) =
      (importable lookup paths.eraseDups).map (·.2) := List.map_map
  rw [show build lookup read paths builtAt = _ from merge_eq hpaths _ builtAt, hlength, hlanguages,
    length_missing_scanned, length_filter_eraseDups, length_filter_eraseDups]

/-- What holds of the graph of a list of files, whatever the look-up and the reader return. -/
structure Consistent (lookup : String → LanguageLookup) (read : String → FileText)
    (paths : List String) (g : DependencyGraph) : Prop where
  forward_functional : g.forward.Functional
  reverse_functional : g.reverse.Functional
  /-- An edge is an import that the text of a scanned file shows. -/
  edge_iff : ∀ f t, t ∈ g.forward.neighbours f ↔ ∃ language content,
    (f, language) ∈ importable lookup paths ∧ read f = .text content ∧
      ∃ e ∈ Import.edges f content (some language) paths.eraseDups, e.resolved = some t
  mirror : ∀ f t, t ∈ g.forward.neighbours f ↔ f ∈ g.reverse.neighbours t
  forward_lists : ∀ e ∈ g.forward, e.2 ≠ [] ∧ e.2.Nodup
  reverse_lists : ∀ e ∈ g.reverse, e.2 ≠ [] ∧ e.2.Nodup
  forward_listed : ∀ e ∈ g.forward, e.1 ∈ paths ∧ ∀ t ∈ e.2, t ∈ paths
  reverse_listed : ∀ e ∈ g.reverse, e.1 ∈ paths ∧ ∀ f ∈ e.2, f ∈ paths
  no_loop : ∀ f, f ∉ g.forward.neighbours f
  edges_forward : g.stats.edges = (g.forward.map fun e => e.2.length).sum
  edges_reverse : g.stats.edges = (g.reverse.map fun e => e.2.length).sum
  /-- Importers stand in the order in which the list first names them. -/
  importers_in_order : ∀ e ∈ g.reverse,
    e.2.Pairwise fun x y => paths.idxOf x < paths.idxOf y
  filesParsed : g.stats.filesParsed = count paths fun p => (lookup p).isScanned
  languages_sorted : g.stats.languages.Pairwise (· < ·)
  mem_languages : ∀ language, language ∈ g.stats.languages ↔
    ∃ p ∈ paths, lookup p = .found language ∧ Import.isImportable language = true
  errors : g.stats.errors = count paths (fun p => lookup p == .failed) +
    count paths fun p => (lookup p).isScanned && (read p).isMissing

/-- The graph of a list of files is consistent, whichever files cannot be looked up or read. -/
theorem build_consistent (lookup : String → LanguageLookup) (read : String → FileText)
    (paths : List String) (builtAt : String) :
    Consistent lookup read paths (build lookup read paths builtAt) := by
  have hfiles := Distinct.nodup_eraseDups paths
  have hpaths : ((scanned lookup read paths.eraseDups).map (·.path)).Nodup := by
    rw [scanned_map_path]
    exact hfiles.filter _
  have hbuild := merge_eq hpaths
    (paths.eraseDups.filter fun path => lookup path == .failed).length builtAt
  rw [show build lookup read paths builtAt = _ from hbuild]
  refine ⟨functional_forward_scanned hfiles, functional_turned _, ?_, ?_, ?_, ?_, ?_, ?_, ?_, rfl,
    (size_turned _).symm, ?_, ?_, pairwise_sortedLanguages _, ?_, ?_⟩
  · -- edge_iff
    intro f t
    refine (mem_neighbours_forward hfiles).trans ?_
    simp only [mem_importable, List.mem_eraseDups]
  · -- mirror
    intro f t
    refine (functional_forward_scanned hfiles).edge_iff.trans
      (Iff.trans ?_ (mem_neighbours_turned ..).symm)
    constructor
    · rintro ⟨ts, hts, ht⟩
      exact ⟨_, hts, rfl, ht⟩
    · rintro ⟨⟨x, ts⟩, hts, rfl, ht⟩
      exact ⟨ts, hts, ht⟩
  · -- forward_lists
    intro e he
    exact ⟨(mem_forward_scanned.1 he).1, nodup_of_mem_forward he⟩
  · -- reverse_lists
    intro e he
    exact ⟨ne_nil_of_mem_turned _ e he, hfiles.sublist (reverse_sublist he)⟩
  · -- forward_listed
    intro e he
    obtain ⟨hfile, htargets⟩ := listed_of_mem_forward he
    exact ⟨List.mem_eraseDups.1 hfile, fun t ht => List.mem_eraseDups.1 (htargets t ht).1⟩
  · -- reverse_listed
    intro e he
    exact ⟨List.mem_eraseDups.1 (mem_of_mem_turned he),
      fun f hf => List.mem_eraseDups.1 ((reverse_sublist he).subset hf)⟩
  · -- no_loop
    intro f hf
    obtain ⟨ts, hts, hf⟩ := Edge.exists_entry hf
    exact ((listed_of_mem_forward hts).2 f hf).2 rfl
  · -- importers_in_order
    intro e he
    exact (Distinct.pairwise_idxOf_eraseDups paths).sublist (reverse_sublist he)
  · -- filesParsed
    show (scanned lookup read paths.eraseDups).length = _
    rw [← length_filter_eraseDups, ← scanned_map_path lookup read, List.length_map]
  · -- mem_languages
    intro language
    refine mem_sortedLanguages.trans (mem_languages_scanned.trans ?_)
    simp only [List.mem_eraseDups]
  · -- errors
    show (paths.eraseDups.filter _).length +
      ((scanned lookup read paths.eraseDups).filter (·.targets.isNone)).length = _
    rw [length_missing_scanned, length_filter_eraseDups, length_filter_eraseDups]

end CodeSurvey.Graph
