import CodeSurvey.Proofs.Graph.Sweep
import Mathlib.Data.List.Perm.Basic

/-!
The report on what depends on a file. Main statement: it lists each file within the distance allowed
once, with its distance, and is marked as truncated if and only if some file depends on the given
one from farther away.
-/

namespace CodeSurvey.Graph

open Adjacency

variable {g : DependencyGraph} {reverse : Adjacency} {file y : String} {maxDepth : Int} {m : Nat}

/-! ### What the search finds -/

/-- The files that the search from a file notes, with their distances. -/
def found (reverse : Adjacency) (maxDepth : Int) (file : String) : List (String × Nat) :=
  withDistance 1 (Sweep.roundsFrom reverse maxDepth file)

theorem mem_found : (y, m) ∈ found reverse maxDepth file ↔
    1 ≤ m ∧ m ≤ max 1 maxDepth.toNat ∧ Distance reverse file y m := by
  have hseen : ∀ y, y ∈ [file] ↔ ∃ m ≤ 0, Distance reverse file y m := by
    intro y
    rw [List.mem_singleton, ← distance_zero_iff (a := reverse)]
    constructor
    · exact fun h => ⟨0, Nat.le_refl 0, h⟩
    · rintro ⟨m, hm, h⟩
      rwa [Nat.le_zero.1 hm] at h
  have hround : ∀ y, y ∈ [file] ↔ Distance reverse file y 0 := by
    intro y
    rw [List.mem_singleton, distance_zero_iff]
  refine (mem_withDistance_rounds hseen hround).trans ?_
  rw [Nat.zero_add]
  exact Iff.rfl

theorem nodup_found (reverse : Adjacency) (maxDepth : Int) (file : String) :
    ((found reverse maxDepth file).map (·.1)).Nodup := by
  rw [found, map_fst_withDistance]
  exact (nodup_rounds ..).1

theorem seen_start : (Sweep.start reverse maxDepth file).seen =
    file :: (found reverse maxDepth file).map (·.1) := by
  rw [Sweep.start_eq]
  exact Sweep.seen_noteAll _

theorem direct_start : (Sweep.start reverse maxDepth file).direct =
    ((found reverse maxDepth file).filter fun e => e.2 == 1).map (·.1) := by
  rw [Sweep.start_eq]
  exact Sweep.direct_noteAll _

theorem transitive_start : (Sweep.start reverse maxDepth file).transitive =
    (found reverse maxDepth file).filter fun e => !(e.2 == 1) := by
  rw [Sweep.start_eq]
  exact Sweep.transitive_noteAll _

theorem frontier_start : (Sweep.start reverse maxDepth file).frontier =
    ((found reverse maxDepth file).filter fun e => !decide ((e.2 : Int) < maxDepth)).map (·.1) := by
  rw [Sweep.start_eq]
  exact Sweep.frontier_noteAll _

theorem deepest_start : (Sweep.start reverse maxDepth file).deepest =
    ((found reverse maxDepth file).map (·.2)).foldl max 0 := by
  rw [Sweep.start_eq]
  exact Sweep.deepest_noteAll _

/-- The files met in the end are those within the greatest distance. -/
theorem mem_seen_start : y ∈ (Sweep.start reverse maxDepth file).seen ↔
    ∃ m ≤ max 1 maxDepth.toNat, Distance reverse file y m := by
  rw [seen_start, List.mem_cons, List.mem_map]
  constructor
  · rintro (rfl | ⟨⟨z, m⟩, hz, rfl⟩)
    · exact ⟨0, Nat.zero_le _, distance_zero_iff.2 rfl⟩
    · obtain ⟨_, hm, hd⟩ := mem_found.1 hz
      exact ⟨m, hm, hd⟩
  · rintro ⟨m, hm, hd⟩
    cases m with
    | zero => exact Or.inl (distance_zero_iff.1 hd)
    | succ m => exact Or.inr ⟨(y, m + 1), mem_found.2 ⟨Nat.succ_pos m, hm, hd⟩, rfl⟩

/-- The search stops at the files at the greatest distance. -/
theorem mem_frontier_start : y ∈ (Sweep.start reverse maxDepth file).frontier ↔
    Distance reverse file y (max 1 maxDepth.toNat) := by
  rw [frontier_start, List.mem_map]
  constructor
  · rintro ⟨⟨z, m⟩, hz, rfl⟩
    obtain ⟨hz, hm⟩ := List.mem_filter.1 hz
    obtain ⟨hpos, hle, hd⟩ := mem_found.1 hz
    have hlimit : ¬ (m : Int) < maxDepth := by simpa using hm
    rwa [show max 1 maxDepth.toNat = m by omega]
  · intro hd
    have hfound : (y, max 1 maxDepth.toNat) ∈ found reverse maxDepth file :=
      mem_found.2 ⟨Nat.le_max_left .., Nat.le_refl _, hd⟩
    have hlimit : ¬ ((max 1 maxDepth.toNat : Nat) : Int) < maxDepth := by omega
    exact ⟨_, List.mem_filter.2 ⟨hfound, by simpa using hlimit⟩, rfl⟩

theorem le_foldl_max {n k : Nat} {ns : List Nat} (h : n ≤ k ∨ n ∈ ns) : n ≤ ns.foldl max k := by
  induction ns generalizing k with
  | nil => exact h.resolve_right List.not_mem_nil
  | cons a more ih =>
    refine ih ?_
    rcases h with h | h
    · exact Or.inl (Nat.le_trans h (Nat.le_max_left ..))
    · rcases List.mem_cons.1 h with rfl | h
      · exact Or.inl (Nat.le_max_right ..)
      · exact Or.inr h

theorem foldl_max_mem (k : Nat) (ns : List Nat) : ns.foldl max k ∈ k :: ns := by
  induction ns generalizing k with
  | nil => exact List.mem_singleton.2 rfl
  | cons a more ih =>
    rcases List.mem_cons.1 (ih (max k a)) with h | h
    · rw [List.foldl_cons, h]
      rcases Nat.le_total k a with hle | hle
      · rw [Nat.max_eq_right hle]
        exact List.mem_cons_of_mem _ (List.mem_cons_self ..)
      · rw [Nat.max_eq_left hle]
        exact List.mem_cons_self ..
    · exact List.mem_cons_of_mem _ (List.mem_cons_of_mem _ h)

theorem le_deepest_start {e : String × Nat} (h : e ∈ found reverse maxDepth file) :
    e.2 ≤ (Sweep.start reverse maxDepth file).deepest := by
  rw [deepest_start]
  exact le_foldl_max (Or.inr (List.mem_map.2 ⟨e, h, rfl⟩))

/-- The greatest distance is that of some file, if any is found. -/
theorem deepest_start_reached (reverse : Adjacency) (file : String) (maxDepth : Int) :
    found reverse maxDepth file = [] ∧ (Sweep.start reverse maxDepth file).deepest = 0 ∨
      ∃ e ∈ found reverse maxDepth file, e.2 = (Sweep.start reverse maxDepth file).deepest := by
  have hmem := foldl_max_mem 0 ((found reverse maxDepth file).map (·.2))
  rw [← deepest_start] at hmem
  rcases List.mem_cons.1 hmem with hzero | hmem
  · refine Or.inl ⟨List.eq_nil_iff_forall_not_mem.2 ?_, hzero⟩
    rintro ⟨y, m⟩ hy
    have hle : m ≤ (Sweep.start reverse maxDepth file).deepest := le_deepest_start hy
    have hpos : 1 ≤ m := (mem_found.1 hy).1
    omega
  · exact Or.inr (List.mem_map.1 hmem)

/-! ### The report -/

/-- All files of a report, each with its distance. -/
def ImpactReport.reported (r : ImpactReport) : List (String × Nat) :=
  r.direct.map (·, 1) ++ r.transitive

theorem mem_direct_impact :
    y ∈ (impact g file maxDepth).direct ↔ (y, 1) ∈ found g.reverse maxDepth file := by
  show y ∈ (Sweep.start g.reverse maxDepth file).direct ↔ _
  rw [direct_start, List.mem_map]
  constructor
  · rintro ⟨⟨z, m⟩, hz, rfl⟩
    obtain ⟨hz, hm⟩ := List.mem_filter.1 hz
    rwa [show m = 1 from eq_of_beq hm] at hz
  · exact fun h => ⟨(y, 1), List.mem_filter.2 ⟨h, rfl⟩, rfl⟩

theorem mem_transitive_impact : (y, m) ∈ (impact g file maxDepth).transitive ↔
    2 ≤ m ∧ (y, m) ∈ found g.reverse maxDepth file := by
  show (y, m) ∈ (Sweep.start g.reverse maxDepth file).transitive.mergeSort _ ↔ _
  rw [List.mem_mergeSort, transitive_start, List.mem_filter]
  constructor
  · rintro ⟨h, hm⟩
    have hpos : 1 ≤ m := (mem_found.1 h).1
    have hne : m ≠ 1 := by simpa using hm
    exact ⟨by omega, h⟩
  · rintro ⟨hm, h⟩
    exact ⟨h, by simpa using Nat.ne_of_gt hm⟩

/-- The report lists what the search has found. -/
theorem reported_perm (g : DependencyGraph) (file : String) (maxDepth : Int) :
    (impact g file maxDepth).reported.Perm (found g.reverse maxDepth file) := by
  have hdirect : (impact g file maxDepth).direct.map (·, 1) =
      (found g.reverse maxDepth file).filter fun e => e.2 == 1 := by
    show (Sweep.start g.reverse maxDepth file).direct.map (·, 1) = _
    rw [direct_start, List.map_map]
    refine (List.map_congr_left fun e he => ?_).trans (List.map_id _)
    have hone : e.2 = 1 := eq_of_beq (List.mem_filter.1 he).2
    exact Prod.ext rfl hone.symm
  have htransitive : (impact g file maxDepth).transitive.Perm
      ((found g.reverse maxDepth file).filter fun e => !(e.2 == 1)) := by
    rw [← transitive_start]
    exact List.mergeSort_perm _ _
  rw [ImpactReport.reported, hdirect]
  exact (htransitive.append_left _).trans (List.filter_append_perm _ _)

/-- The report is marked as truncated if and only if some file is farther away. -/
theorem truncated_iff : (impact g file maxDepth).truncated = true ↔
    ∃ y m, max 1 maxDepth.toNat < m ∧ Distance g.reverse file y m := by
  have htruncated : (impact g file maxDepth).truncated = true ↔
      ∃ x, Distance g.reverse file x (max 1 maxDepth.toNat) ∧
        ∃ y, g.reverse.Edge x y ∧ ¬ ∃ m ≤ max 1 maxDepth.toNat, Distance g.reverse file y m := by
    have hfar : ∀ y, (!(Sweep.start g.reverse maxDepth file).seen.contains y) = true ↔
        ¬ ∃ m ≤ max 1 maxDepth.toNat, Distance g.reverse file y m := by
      intro y
      rw [← mem_seen_start, Bool.not_eq_true', ← Bool.not_eq_true, List.contains_iff_mem]
    show List.any _ _ = true ↔ _
    rw [List.any_eq_true]
    refine exists_congr fun x => and_congr mem_frontier_start ?_
    rw [List.any_eq_true]
    exact exists_congr fun y => and_congr Iff.rfl (hfar y)
  rw [htruncated]
  constructor
  · rintro ⟨x, hx, y, he, hfar⟩
    exact ⟨y, _, Nat.lt_succ_self _, distance_succ_iff.2 ⟨⟨x, hx, he⟩, hfar⟩⟩
  · rintro ⟨y, m, hm, hd⟩
    obtain ⟨z, hz⟩ := hd.exists_of_le (Nat.succ_le_of_lt hm)
    obtain ⟨⟨x, hx, he⟩, hfar⟩ := distance_succ_iff.1 hz
    exact ⟨x, hx, z, he, hfar⟩

/-- A report lists what depends on a file within the distance allowed, which is at least 1, and
    tells whether anything farther away does. -/
structure Measures (reverse : Adjacency) (file : String) (maxDepth : Int) (r : ImpactReport) :
    Prop where
  mem_direct : ∀ y, y ∈ r.direct ↔ y ≠ file ∧ Distance reverse file y 1
  mem_transitive : ∀ y m, (y, m) ∈ r.transitive ↔
    y ≠ file ∧ 2 ≤ m ∧ (m : Int) ≤ max 1 maxDepth ∧ Distance reverse file y m
  /-- No file is listed twice. -/
  nodup : (r.reported.map (·.1)).Nodup
  nearer_first : r.transitive.Pairwise fun d e => d.2 ≤ e.2
  fanIn : r.fanIn = r.reported.length
  le_deepest : ∀ e ∈ r.reported, e.2 ≤ r.deepest
  deepest_reached : r.reported = [] ∧ r.deepest = 0 ∨ ∃ e ∈ r.reported, e.2 = r.deepest
  truncated : r.truncated = true ↔
    ∃ (y : String) (m : Nat), max 1 maxDepth < (m : Int) ∧ Distance reverse file y m

/-- The report on a file measures what depends on it. -/
theorem impact_distances (g : DependencyGraph) (file : String) (maxDepth : Int) :
    Measures g.reverse file maxDepth (impact g file maxDepth) := by
  have hdepth : ((max 1 maxDepth.toNat : Nat) : Int) = max 1 maxDepth := by omega
  have hperm := reported_perm g file maxDepth
  refine ⟨fun y => ?_, fun y m => ?_, ?_, ?_, ?_, ?_, ?_, ?_⟩
  · -- mem_direct
    rw [mem_direct_impact, mem_found]
    constructor
    · rintro ⟨h, _, hd⟩
      exact ⟨hd.ne_of_pos h, hd⟩
    · rintro ⟨_, hd⟩
      exact ⟨Nat.le_refl 1, Nat.le_max_left .., hd⟩
  · -- mem_transitive
    rw [mem_transitive_impact, mem_found, ← hdepth, Int.ofNat_le]
    constructor
    · rintro ⟨h2, h1, hm, hd⟩
      exact ⟨hd.ne_of_pos h1, h2, hm, hd⟩
    · rintro ⟨_, h2, hm, hd⟩
      exact ⟨h2, Nat.le_of_succ_le h2, hm, hd⟩
  · -- nodup
    exact (hperm.map _).nodup_iff.2 (nodup_found ..)
  · -- nearer_first
    refine (List.pairwise_mergeSort ?_ ?_ _).imp of_decide_eq_true
    · intro a b c
      simp only [decide_eq_true_eq]
      omega
    · intro a b
      simp only [Bool.or_eq_true, decide_eq_true_eq]
      omega
  · -- fanIn
    rw [ImpactReport.reported, List.length_append, List.length_map]
    show _ = _ + (List.mergeSort _ _).length
    rw [List.length_mergeSort]
    rfl
  · -- le_deepest
    exact fun e he => le_deepest_start (hperm.subset he)
  · -- deepest_reached
    rcases deepest_start_reached g.reverse file maxDepth with ⟨hnone, hzero⟩ | ⟨e, he, heq⟩
    · exact Or.inl ⟨(hnone ▸ hperm).eq_nil, hzero⟩
    · exact Or.inr ⟨e, hperm.symm.subset he, heq⟩
  · -- truncated
    rw [truncated_iff]
    refine exists_congr fun y => exists_congr fun m => and_congr ?_ Iff.rfl
    rw [← hdepth, Int.ofNat_lt]

end CodeSurvey.Graph
