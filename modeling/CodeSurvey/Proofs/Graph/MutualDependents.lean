import CodeSurvey.Proofs.Graph.Build
import CodeSurvey.Proofs.Graph.Components
import CodeSurvey.Proofs.Graph.Impact

/-!
Cycles and dependents in the graph of a list of files. No distance is as great as the number of
files, so with a depth of that number a report on what depends on a file names everything that
imports lead from to the file. Main statement: two files stand in one cycle if and only if each is
named in the report on the other.
-/

namespace CodeSurvey.Graph

open Adjacency

variable {g : DependencyGraph} {file x y : String} {maxDepth : Int}
  {lookup : String → LanguageLookup} {read : String → FileText} {paths : List String}
  {builtAt : String}

/-- The files that a report names. -/
def ImpactReport.dependents (r : ImpactReport) : List String :=
  r.direct ++ r.transitive.map (·.1)

theorem mem_dependents : y ∈ (impact g file maxDepth).dependents ↔
    ∃ m, 1 ≤ m ∧ m ≤ max 1 maxDepth.toNat ∧ Distance g.reverse file y m := by
  rw [ImpactReport.dependents, List.mem_append, mem_direct_impact, List.mem_map]
  constructor
  · rintro (h | ⟨⟨z, m⟩, hz, rfl⟩)
    · exact ⟨1, mem_found.1 h⟩
    · exact ⟨m, mem_found.1 (mem_transitive_impact.1 hz).2⟩
  · rintro ⟨m, h⟩
    rcases Nat.eq_or_lt_of_le h.1 with rfl | h2
    · exact Or.inl (mem_found.2 h)
    · exact Or.inr ⟨(y, m), mem_transitive_impact.2 ⟨h2, mem_found.2 h⟩, rfl⟩

/-- If the depth allowed is at least the number of files, the report names whatever is reached. -/
theorem mem_dependents_iff_reaches {files : Finset String}
    (hedge : ∀ u w, g.reverse.Edge u w → u ∈ files ∧ w ∈ files)
    (hdepth : (files.card : Int) ≤ maxDepth) (hne : file ≠ y) :
    y ∈ (impact g file maxDepth).dependents ↔ g.reverse.Reaches file y := by
  rw [mem_dependents, reaches_iff_exists_distance]
  constructor
  · rintro ⟨m, _, _, hd⟩
    exact ⟨m, hd⟩
  · rintro ⟨m, hd⟩
    obtain ⟨w, hw⟩ := hd.1.reaches.exists_edge hne
    have hlt : m < files.card := hd.lt_card (hedge _ _ hw).1 fun u w he => (hedge u w he).2
    have hpos : m ≠ 0 := by
      rintro rfl
      exact hne (distance_zero_iff.1 hd).symm
    exact ⟨m, by omega, by omega, hd⟩

theorem edge_iff_reverse_build : (build lookup read paths builtAt).forward.Edge x y ↔
    (build lookup read paths builtAt).reverse.Edge y x := by
  rw [build_eq]
  exact (functional_forward_scanned (Distinct.nodup_eraseDups paths)).edge_iff_turned

theorem listed_of_edge_reverse_build (h : (build lookup read paths builtAt).reverse.Edge x y) :
    x ∈ paths ∧ y ∈ paths := by
  rw [build_eq] at h
  obtain ⟨importers, hentry, hy⟩ := h.exists_entry
  exact ⟨List.mem_eraseDups.1 (mem_of_mem_turned hentry),
    List.mem_eraseDups.1 ((reverse_sublist hentry).subset hy)⟩

/-- In the graph of a list of files, with a depth of at least their number, two files stand in one
    cycle if and only if the report on each names the other. -/
theorem share_cycle_iff_dependents (lookup : String → LanguageLookup) (read : String → FileText)
    (paths : List String) (builtAt : String) {x y : String} (hne : x ≠ y)
    (hdepth : (paths.eraseDups.length : Int) ≤ maxDepth) :
    let g := build lookup read paths builtAt
    (∃ c ∈ (findCycles g).cycles, x ∈ c ∧ y ∈ c) ↔
      y ∈ (impact g x maxDepth).dependents ∧ x ∈ (impact g y maxDepth).dependents := by
  intro g
  have hcard : (paths.eraseDups.toFinset.card : Int) ≤ maxDepth := by
    rwa [List.toFinset_card_of_nodup (Distinct.nodup_eraseDups paths)]
  have hedge : ∀ u w, g.reverse.Edge u w →
      u ∈ paths.eraseDups.toFinset ∧ w ∈ paths.eraseDups.toFinset := by
    intro u w h
    simpa only [List.mem_toFinset, List.mem_eraseDups] using listed_of_edge_reverse_build h
  have hmirror : ∀ u w, g.forward.Reaches u w ↔ g.reverse.Reaches w u :=
    fun u w => Reaches.iff_swap fun _ _ => edge_iff_reverse_build
  have hcomponents := components_cycles g
  rw [mem_dependents_iff_reaches hedge hcard hne, mem_dependents_iff_reaches hedge hcard hne.symm,
    ← hmirror, ← hmirror]
  constructor
  · rintro ⟨c, hc, hx, hy⟩
    exact ⟨hcomponents.reaches c hc y hy x hx, hcomponents.reaches c hc x hx y hy⟩
  · rintro ⟨hyx, hxy⟩
    exact hcomponents.whole x y hne ⟨hxy, hyx⟩

/-- Two files import each other, and a third one imports both. -/
theorem share_cycle_iff_dependents_pair :
    let read : String → FileText := fun path =>
      .text (if path = "a.py" then "import b" else if path = "b.py" then "import a"
        else "import a\nimport b").toList
    let paths := ["a.py", "b.py", "c.py"]
    let g := build (fun _ => .found "python") read paths ""
    "a.py" ≠ "b.py" ∧ (paths.eraseDups.length : Int) ≤ 3 ∧
      (findCycles g).cycles.map (·.length) = [2] ∧
      (∃ c ∈ (findCycles g).cycles, "a.py" ∈ c ∧ "b.py" ∈ c) ∧
      "b.py" ∈ (impact g "a.py" 3).dependents ∧ "a.py" ∈ (impact g "b.py" 3).dependents := by
  intro read paths g
  have hne : "a.py" ≠ "b.py" := by decide
  have hdepth : (paths.eraseDups.length : Int) ≤ 3 := by decide +kernel
  have hcycle : ∃ c ∈ (findCycles g).cycles, "a.py" ∈ c ∧ "b.py" ∈ c := by decide +kernel
  have hdependents := (share_cycle_iff_dependents (fun _ => .found "python") read paths "" hne
    hdepth).1 hcycle
  exact ⟨hne, hdepth, by decide +kernel, hcycle, hdependents⟩

end CodeSurvey.Graph
