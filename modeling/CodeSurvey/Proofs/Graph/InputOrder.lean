import CodeSurvey.Proofs.Graph.Build
import CodeSurvey.Proofs.Import.FileSet

/-!
The graph of a list of files does not depend on the order of the list. What a file imports depends
on which files there are, so another order of the list brings the scanned files in another order
and changes nothing else: the entries of the forward adjacency move as they are, and the importers
of a file move within their list. Main statement: two permutations of a list have graphs with the
same entries forward, the same importers of every file and the same counts.
-/

namespace CodeSurvey.Adjacency

variable {a b : Adjacency}

/-- The order of the entries does not matter to a file with one entry at most. -/
theorem Functional.neighbours_perm (ha : a.Functional) (h : a.Perm b) (file : String) :
    a.neighbours file = b.neighbours file := by
  have hkeys : (a.map (·.1)).Perm (b.map (·.1)) := h.map _
  have hb : b.Functional := hkeys.nodup_iff.1 ha
  by_cases hfile : ∃ targets, (file, targets) ∈ a
  · obtain ⟨targets, htargets⟩ := hfile
    rw [ha.neighbours_eq htargets, hb.neighbours_eq (h.mem_iff.1 htargets)]
  · have hnone : ∀ c : Adjacency, (∀ targets, (file, targets) ∉ c) → c.neighbours file = [] := by
      intro c hc
      have : c.lookup file = none := List.lookup_eq_none_iff.2 fun e he => by
        rw [bne_iff_ne]
        rintro rfl
        exact hc e.2 he
      rw [neighbours, this]
      rfl
    push Not at hfile
    rw [hnone a hfile, hnone b fun targets hb => hfile targets (h.mem_iff.2 hb)]

/-- Importers are listed in the order of the entries. -/
theorem neighbours_turned_perm (h : a.Perm b) (file : String) :
    (a.turned.neighbours file).Perm (b.turned.neighbours file) := by
  rw [neighbours_turned, neighbours_turned]
  exact h.flatMap_right _

theorem size_perm (h : a.Perm b) : a.size = b.size := by
  have hlengths : (a.map (·.2.length)).Perm (b.map (·.2.length)) := h.map _
  rw [size, size]
  exact hlengths.foldr_eq 0

/-- The files with importers are the files that some entry lists. -/
theorem keys_turned_perm (h : a.Perm b) :
    (a.turned.map (·.1)).Perm (b.turned.map (·.1)) := by
  have hkey : ∀ (c : Adjacency) (file : String),
      file ∈ c.turned.map (·.1) ↔ c.turned.neighbours file ≠ [] := by
    intro c file
    constructor
    · intro hfile
      obtain ⟨⟨f, importers⟩, he, rfl⟩ := List.mem_map.1 hfile
      rw [(functional_turned c).neighbours_eq he]
      exact ne_nil_of_mem_turned c _ he
    · intro hne
      obtain ⟨importer, himporter⟩ := List.exists_mem_of_ne_nil _ hne
      obtain ⟨importers, he, -⟩ := Edge.exists_entry himporter
      exact List.mem_map.2 ⟨_, he, rfl⟩
  refine (List.perm_ext_iff_of_nodup (functional_turned a) (functional_turned b)).2 fun file => ?_
  rw [hkey, hkey, ne_eq, ne_eq, ← List.length_eq_zero_iff, ← List.length_eq_zero_iff,
    (neighbours_turned_perm h file).length_eq]

end CodeSurvey.Adjacency

namespace CodeSurvey.Graph

open Adjacency

variable {lookup : String → LanguageLookup} {read : String → FileText}
  {files others paths : List String}

/-! ### What is scanned -/

theorem importable_perm (h : files.Perm others) :
    (importable lookup files).Perm (importable lookup others) := h.filterMap _

/-- What a file imports depends on which files there are. -/
theorem scanFile_perm (h : files.Perm others) (path language : String) :
    scanFile read files path language = scanFile read others path language := by
  simp only [scanFile, targetsOf, Import.edges_perm h]

theorem scanned_perm (h : files.Perm others) :
    (scanned lookup read files).Perm (scanned lookup read others) := by
  have hscan : (fun e : String × String => scanFile read files e.1 e.2) =
      fun e => scanFile read others e.1 e.2 := funext fun e => scanFile_perm h e.1 e.2
  rw [scanned, scanned]
  show ((importable lookup files).map fun e => scanFile read files e.1 e.2).Perm
    ((importable lookup others).map fun e => scanFile read others e.1 e.2)
  rw [hscan]
  exact (importable_perm h).map _

theorem forwardOf_scanned_perm (h : files.Perm others) :
    (forwardOf (scanned lookup read files)).Perm (forwardOf (scanned lookup read others)) :=
  (scanned_perm h).filterMap _

/-- Languages are listed in an order of their own. -/
theorem sortedLanguages_perm {languages more : List String} (h : languages.Perm more) :
    sortedLanguages languages = sortedLanguages more := by
  have hnodup : ∀ l, (sortedLanguages l).Nodup := fun l => Distinct.nodup_eraseDups _
  refine List.Perm.eq_of_pairwise (fun a b _ _ hab hba => absurd hab (String.lt_asymm hba))
    (pairwise_sortedLanguages _) (pairwise_sortedLanguages _) ?_
  refine (List.perm_ext_iff_of_nodup (hnodup _) (hnodup _)).2 fun language => ?_
  rw [mem_sortedLanguages, mem_sortedLanguages, h.mem_iff]

theorem count_perm (h : files.Perm others) (test : String → Bool) :
    count files test = count others test := by
  rw [count, count, List.toFinset_eq_of_perm _ _ h]

/-! ### The graph -/

/-- How graphs of the same files agree. -/
structure SameImports (g h : DependencyGraph) : Prop where
  /-- Every entry of the one is an entry of the other, its files in the same order. -/
  entries : g.forward.Perm h.forward
  imports : ∀ file, g.forward.neighbours file = h.forward.neighbours file
  /-- The same files have importers. -/
  imported : (g.reverse.map (·.1)).Perm (h.reverse.map (·.1))
  importers : ∀ file, (g.reverse.neighbours file).Perm (h.reverse.neighbours file)
  stats : g.stats = h.stats

/-- Two orders of the same list have the same graph, up to the order of what is listed once for each
    file of the list. -/
theorem build_perm (lookup : String → LanguageLookup) (read : String → FileText)
    (h : paths.Perm others) (builtAt builtLater : String) :
    SameImports (build lookup read paths builtAt) (build lookup read others builtLater) := by
  have hfiles : paths.eraseDups.Perm others.eraseDups := by
    refine (List.perm_ext_iff_of_nodup (Distinct.nodup_eraseDups _)
      (Distinct.nodup_eraseDups _)).2 fun f => ?_
    rw [List.mem_eraseDups, List.mem_eraseDups, h.mem_iff]
  have hforward : (forwardOf (scanned lookup read paths.eraseDups)).Perm
      (forwardOf (scanned lookup read others.eraseDups)) := forwardOf_scanned_perm hfiles
  have himportable : (importable lookup paths.eraseDups).Perm
      (importable lookup others.eraseDups) := importable_perm hfiles
  rw [build_eq, build_eq]
  refine ⟨hforward, ?_, keys_turned_perm hforward, neighbours_turned_perm hforward, ?_⟩
  · -- imports
    exact (functional_forward_scanned (Distinct.nodup_eraseDups _)).neighbours_perm hforward
  · -- stats
    simp only [himportable.length_eq, size_perm hforward, sortedLanguages_perm (himportable.map _),
      count_perm h]

/-- Two files import a third one and each other; in the other order its importers change places and
    what they import does not. -/
theorem build_perm_reversed :
    let read : String → FileText := fun path =>
      .text (if path = "a.py" then "import c, b" else if path = "b.py" then "import a, c"
        else "").toList
    let paths := ["a.py", "b.py", "c.py"]
    let g := build (fun _ => .found "python") read paths ""
    let h := build (fun _ => .found "python") read paths.reverse ""
    paths.Perm paths.reverse ∧ SameImports g h ∧
      g.forward = [("a.py", ["c.py", "b.py"]), ("b.py", ["a.py", "c.py"])] ∧
      h.forward = [("b.py", ["a.py", "c.py"]), ("a.py", ["c.py", "b.py"])] ∧
      g.reverse.neighbours "c.py" = ["a.py", "b.py"] ∧
      h.reverse.neighbours "c.py" = ["b.py", "a.py"] := by
  intro read paths g h
  have hperm : paths.Perm paths.reverse := (List.reverse_perm _).symm
  exact ⟨hperm, build_perm _ read hperm _ _, by decide +kernel, by decide +kernel,
    by decide +kernel, by decide +kernel⟩

end CodeSurvey.Graph
