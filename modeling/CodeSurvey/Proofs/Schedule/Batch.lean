import CodeSurvey.Plan.Classification
import CodeSurvey.Proofs.Schedule.Waves
import CodeSurvey.Sorting
import Mathlib

/-!
The decision for a batch of classified plans. Main statement: it groups the names of the plans by
their waves, counts plans and waves, tells whether a task is a checkpoint, and takes the first mode
of a cascade whose condition the batch meets; another order of the batch changes nothing but the
order of the names in a wave.
-/

namespace CodeSurvey.Plan.Classification

/-- The number of the wave that counts: the first one for zero. -/
def countedWave (c : Classification) : Int := if c.wave = 0 then 1 else c.wave

/-- The type of some task begins as those of checkpoints do. -/
def HasCheckpoint (c : Classification) : Prop :=
  ∃ t ∈ c.tasks, "checkpoint:".toList <+: t.task.kind.toList

instance (c : Classification) : Decidable c.HasCheckpoint :=
  inferInstanceAs (Decidable (∃ t ∈ c.tasks, _))

theorem effective_outline (c : Classification) :
    c.outline.wave.effective = .number c.countedWave := by
  by_cases h : c.wave = 0 <;> simp [outline, Schedule.Wave.effective, countedWave, h]

theorem hasCheckpoints_outline (c : Classification) :
    c.outline.hasCheckpoints = true ↔ c.HasCheckpoint := by
  simp only [outline, Schedule.Outline.hasCheckpoints, List.any_eq_true, List.mem_map,
    isCheckpointKind, checkpointMark, List.isPrefixOf_iff_prefix, HasCheckpoint]
  constructor
  · rintro ⟨_, ⟨t, ht, rfl⟩, h⟩
    exact ⟨t, ht, h⟩
  · rintro ⟨t, ht, h⟩
    exact ⟨_, ⟨t, ht, rfl⟩, h⟩

end CodeSurvey.Plan.Classification

namespace CodeSurvey.Schedule

open Plan

variable {batch : List Classification} {plans plans' : List Outline}

/-! ### What a decision has to say -/

/-- The mode that a batch asks for. -/
def modeFor (batch : List Classification) : Mode :=
  if batch = [] then .single
  else if ∃ c ∈ batch, c.HasCheckpoint then .sequential
  else if batch.length = 1 ∧ ∀ c ∈ batch, c.tasks.length ≤ 2 then .single
  else if ¬ (batch.map (·.countedWave)).Nodup then .parallel
  else if 3 ≤ (batch.map (·.countedWave)).toFinset.card then .pipeline
  else .sequential

/-- A decision says of a batch what it should. -/
structure Decides (batch : List Classification) (d : Decision) : Prop where
  /-- The waves that occur stand in ascending order, each with the names of its plans in the order
      of the batch. -/
  waves : ∃ numbers : List Int, numbers.Pairwise (· < ·) ∧
    (∀ n, n ∈ numbers ↔ ∃ c ∈ batch, c.countedWave = n) ∧
    d.waves = numbers.map fun n =>
      (.number n, (batch.filter fun c => c.countedWave == n).map (·.plan))
  totalPlans : d.totalPlans = batch.length
  totalWaves : d.totalWaves = (batch.map (·.countedWave)).toFinset.card
  hasCheckpoints : d.hasCheckpoints = true ↔ ∃ c ∈ batch, c.HasCheckpoint
  mode : d.mode = modeFor batch

/-- Two decisions are the same up to the order of the names in a wave. -/
structure SameUpToOrder (d e : Decision) : Prop where
  mode : d.mode = e.mode
  reason : d.reason = e.reason
  totalPlans : d.totalPlans = e.totalPlans
  totalWaves : d.totalWaves = e.totalWaves
  hasCheckpoints : d.hasCheckpoints = e.hasCheckpoints
  waves : List.Forall₂ (fun v w => v.1 = w.1 ∧ v.2.Perm w.2) d.waves e.waves

/-! ### The waves -/

/-- The numbers of the waves of a batch, ascending. -/
def waveNumbers (batch : List Classification) : List Int :=
  (batch.map (·.countedWave)).eraseDups.mergeSort fun m n => m ≤ n

theorem mem_waveNumbers {n : Int} : n ∈ waveNumbers batch ↔ ∃ c ∈ batch, c.countedWave = n := by
  rw [waveNumbers, List.mem_mergeSort, List.mem_eraseDups, List.mem_map]

theorem nodup_waveNumbers (batch : List Classification) : (waveNumbers batch).Nodup :=
  (List.mergeSort_perm ..).nodup_iff.2 (Distinct.nodup_eraseDups _)

theorem pairwise_waveNumbers (batch : List Classification) :
    (waveNumbers batch).Pairwise (· ≤ ·) :=
  Sorting.pairwise_smallestFirst id _

theorem toFinset_waveNumbers (batch : List Classification) :
    (waveNumbers batch).toFinset = (batch.map (·.countedWave)).toFinset := by
  ext n
  rw [List.mem_toFinset, List.mem_toFinset, mem_waveNumbers, List.mem_map]

theorem ascendingWaves_outlines (batch : List Classification) :
    ascendingWaves (batch.map (·.outline)) = (waveNumbers batch).map Wave.number := by
  have hnumbers : ((waveNumbers batch).map Wave.number).Nodup :=
    (nodup_waveNumbers batch).map fun _ _ h => Wave.number.inj h
  refine List.Perm.eq_of_pairwise (fun _ _ _ _ => Wave.le_antisymm) (pairwise_ascendingWaves _)
    (List.pairwise_map.2 ((pairwise_waveNumbers batch).imp fun h => decide_eq_true h)) ?_
  refine (List.perm_ext_iff_of_nodup (nodup_ascendingWaves _) hnumbers).2 fun w => ?_
  simp only [mem_ascendingWaves, List.mem_map, mem_waveNumbers]
  constructor
  · rintro ⟨_, ⟨c, hc, rfl⟩, rfl⟩
    exact ⟨_, ⟨c, hc, rfl⟩, c.effective_outline.symm⟩
  · rintro ⟨_, ⟨c, hc, rfl⟩, rfl⟩
    exact ⟨_, ⟨c, hc, rfl⟩, c.effective_outline⟩

theorem namesIn_outlines (batch : List Classification) (n : Int) :
    namesIn (batch.map (·.outline)) (.number n) =
      (batch.filter fun c => c.countedWave == n).map (·.plan) := by
  have hsame : ∀ c ∈ batch, (c.outline.wave.effective == .number n) = (c.countedWave == n) := by
    intro c _
    rw [c.effective_outline, Bool.eq_iff_iff, beq_iff_eq, beq_iff_eq, Wave.number.injEq]
  rw [namesIn, List.filter_map, List.map_map]
  exact congrArg _ (List.filter_congr hsame)

theorem wavesOf_outlines (batch : List Classification) :
    wavesOf (batch.map (·.outline)) = (waveNumbers batch).map fun n =>
      (.number n, (batch.filter fun c => c.countedWave == n).map (·.plan)) := by
  rw [wavesOf_eq, ascendingWaves_outlines, List.map_map]
  refine List.map_congr_left fun n _ => ?_
  rw [Function.comp_apply, namesIn_outlines]

theorem length_wavesOf_outlines (batch : List Classification) :
    (wavesOf (batch.map (·.outline))).length = (batch.map (·.countedWave)).toFinset.card := by
  rw [wavesOf_outlines, List.length_map, ← toFinset_waveNumbers,
    List.toFinset_card_of_nodup (nodup_waveNumbers batch)]

/-- No wave has two plans if and only if the plans have different waves. -/
theorem find?_crowded_eq_none_iff (batch : List Classification) :
    (wavesOf (batch.map (·.outline))).find? (fun w => 1 < w.2.length) = none ↔
      (batch.map (·.countedWave)).Nodup := by
  have hlength : ∀ n, ((batch.filter fun c => c.countedWave == n).map (·.plan)).length =
      (batch.map (·.countedWave)).count n := by
    intro n
    rw [List.length_map, ← List.countP_eq_length_filter, List.count, List.countP_map]
    rfl
  rw [wavesOf_outlines, List.find?_eq_none, List.forall_mem_map, List.nodup_iff_count_le_one]
  simp only [decide_eq_true_eq, hlength, Nat.not_lt]
  constructor
  · intro h n
    by_cases hn : n ∈ batch.map (·.countedWave)
    · exact h n (mem_waveNumbers.2 (List.mem_map.1 hn))
    · rw [List.count_eq_zero_of_not_mem hn]
      exact Nat.zero_le 1
  · exact fun h n _ => h n

/-! ### The decision -/

/-- Numbered waves can be sorted, so a reason is found. -/
theorem decide_outlines (batch : List Classification) :
    decide (batch.map (·.outline)) =
      ⟨reasonFor (batch.map (·.outline)) (wavesOf (batch.map (·.outline))),
        wavesOf (batch.map (·.outline))⟩ := by
  have hsortable : sortable (wavesOf (batch.map (·.outline))) = true := by
    rw [sortable, wavesOf_outlines, Bool.or_eq_true, List.all_map, List.all_eq_true]
    exact Or.inl fun _ _ => rfl
  rw [decide, if_pos hsortable]

theorem any_hasCheckpoints_outlines (batch : List Classification) :
    (batch.map (·.outline)).any (·.hasCheckpoints) = true ↔ ∃ c ∈ batch, c.HasCheckpoint := by
  rw [List.any_map, List.any_eq_true]
  exact exists_congr fun c => and_congr_right fun _ => c.hasCheckpoints_outline

/-- The reason that several plans of one wave give, the first such wave counting. -/
def sharedWave? (waves : List (Wave × List String)) : Option Reason :=
  (waves.find? fun w => 1 < w.2.length).map fun w => .sameWave w.2.length w.1

/-- The cascade of reasons, in terms that the order of the plans does not enter. -/
theorem reasonFor_eq (plans : List Outline) (waves : List (Wave × List String)) :
    reasonFor plans waves =
      if plans = [] then .noPlans
      else if plans.any (·.hasCheckpoints) then .checkpoints
      else if plans.length = 1 ∧ ∀ p ∈ plans, p.kinds.length ≤ 2 then
        .fewTasks (plans.map (·.kinds.length)).sum
      else (sharedWave? waves).getD <|
        if 3 ≤ waves.length then .manyWaves waves.length
        else .oneByOne plans.length waves.length := by
  cases plans with
  | nil => rfl
  | cons first more =>
    have hfew : (more.isEmpty && Decidable.decide (first.kinds.length ≤ 2)) = true ↔
        (first :: more).length = 1 ∧ ∀ p ∈ first :: more, p.kinds.length ≤ 2 := by
      cases more <;> simp
    rw [reasonFor, if_neg (List.cons_ne_nil first more), sharedWave?]
    split
    · rfl
    · by_cases hsmall : (first :: more).length = 1 ∧ ∀ p ∈ first :: more, p.kinds.length ≤ 2
      · obtain rfl : more = [] := List.length_eq_zero_iff.1 (Nat.succ.inj hsmall.1)
        rw [if_pos (hfew.2 hsmall), if_pos hsmall]
        rfl
      · rw [if_neg (mt hfew.1 hsmall), if_neg hsmall]
        cases waves.find? fun w => 1 < w.2.length <;> rfl

theorem reasonFor_eq_checkpoints_iff (waves : List (Wave × List String)) :
    reasonFor plans waves = .checkpoints ↔ plans.any (·.hasCheckpoints) = true := by
  rw [reasonFor_eq]
  by_cases hnil : plans = []
  · simp [hnil]
  by_cases hcheck : plans.any (·.hasCheckpoints) = true
  · simp only [hnil, hcheck, if_true, if_false]
  · refine iff_of_false ?_ hcheck
    rw [if_neg hnil, if_neg hcheck]
    cases hfind : sharedWave? waves with
    | none =>
      rw [Option.getD_none]
      split_ifs <;> exact fun h => nomatch h
    | some r =>
      obtain ⟨w, _, rfl⟩ := Option.map_eq_some_iff.1 hfind
      rw [Option.getD_some]
      split_ifs <;> exact fun h => nomatch h

theorem mode_reasonFor (batch : List Classification) :
    (reasonFor (batch.map (·.outline)) (wavesOf (batch.map (·.outline)))).mode =
      modeFor batch := by
  have hnil : batch.map (·.outline) = [] ↔ batch = [] := List.map_eq_nil_iff
  have hsmall : ((batch.map (·.outline)).length = 1 ∧
      ∀ p ∈ batch.map (·.outline), p.kinds.length ≤ 2) ↔
        batch.length = 1 ∧ ∀ c ∈ batch, c.tasks.length ≤ 2 := by
    simp [Classification.outline]
  have hshared : sharedWave? (wavesOf (batch.map (·.outline))) = none ↔
      (batch.map (·.countedWave)).Nodup := by
    rw [sharedWave?, Option.map_eq_none_iff, find?_crowded_eq_none_iff]
  rw [reasonFor_eq, modeFor, length_wavesOf_outlines]
  simp only [hnil, any_hasCheckpoints_outlines, hsmall, apply_ite Reason.mode]
  cases hfind : sharedWave? (wavesOf (batch.map (·.outline))) with
  | none =>
    simp only [Option.getD_none, apply_ite Reason.mode, hshared.1 hfind, not_true_eq_false, if_false]
    rfl
  | some r =>
    have hcrowded : ¬ (batch.map (·.countedWave)).Nodup := by
      rw [← hshared, hfind]
      exact Option.some_ne_none r
    obtain ⟨w, _, rfl⟩ := Option.map_eq_some_iff.1 hfind
    simp [hcrowded, Reason.mode]

theorem decides_outlines (batch : List Classification) :
    Decides batch (decide (batch.map (·.outline))) := by
  have hnumbers : (waveNumbers batch).Pairwise (· < ·) :=
    ((pairwise_waveNumbers batch).and (nodup_waveNumbers batch)).imp fun h =>
      lt_of_le_of_ne h.1 h.2
  rw [decide_outlines]
  refine ⟨⟨waveNumbers batch, hnumbers, fun _ => mem_waveNumbers, wavesOf_outlines batch⟩, ?_,
    length_wavesOf_outlines batch, ?_, mode_reasonFor batch⟩
  · -- totalPlans
    rw [Decision.totalPlans, plans_wavesOf, List.length_map]
  · -- hasCheckpoints
    rw [Decision.hasCheckpoints, beq_iff_eq, reasonFor_eq_checkpoints_iff,
      any_hasCheckpoints_outlines]

/-! ### Another order of the batch -/

/-- The first wave with several plans is the same, with as many plans. -/
theorem sharedWave?_eq {waves waves' : List (Wave × List String)}
    (h : List.Forall₂ (fun v w => v.1 = w.1 ∧ v.2.Perm w.2) waves waves') :
    sharedWave? waves = sharedWave? waves' := by
  induction h with
  | nil => rfl
  | cons hvw _ ih =>
    rw [sharedWave?, sharedWave?, List.find?_cons, List.find?_cons, hvw.2.length_eq]
    split
    · rw [Option.map_some, Option.map_some, hvw.1, hvw.2.length_eq]
    · exact ih

/-- The reason is the same in another order. -/
theorem reasonFor_perm (h : plans.Perm plans') :
    reasonFor plans (wavesOf plans) = reasonFor plans' (wavesOf plans') := by
  have hnil : plans = [] ↔ plans' = [] := ⟨fun hp => (hp ▸ h).nil_eq.symm, fun hp => (hp ▸ h).eq_nil⟩
  rw [reasonFor_eq, reasonFor_eq, sharedWave?_eq (wavesOf_perm h), (wavesOf_perm h).length_eq,
    h.any_eq, h.length_eq, (h.map fun p : Outline => p.kinds.length).sum_nat]
  simp only [hnil, h.mem_iff]

/-- The decision for a batch says what it should, and in another order of the batch it is the same up
    to the order of the names in a wave. -/
theorem decide_batch (batch : List Classification) :
    Decides batch (decide (batch.map (·.outline))) ∧
      ∀ batch' : List Classification, batch'.Perm batch →
        SameUpToOrder (decide (batch'.map (·.outline))) (decide (batch.map (·.outline))) := by
  refine ⟨decides_outlines batch, fun batch' h => ?_⟩
  have houtlines : (batch'.map (·.outline)).Perm (batch.map (·.outline)) := h.map _
  have hreason := reasonFor_perm houtlines
  have hwaves := wavesOf_perm houtlines
  rw [decide_outlines, decide_outlines]
  refine ⟨?_, hreason, ?_, hwaves.length_eq, ?_, hwaves⟩
  · -- mode
    rw [Decision.mode, Decision.mode, hreason]
  · -- totalPlans
    rw [Decision.totalPlans, Decision.totalPlans, plans_wavesOf, plans_wavesOf,
      houtlines.length_eq]
  · -- hasCheckpoints
    rw [Decision.hasCheckpoints, Decision.hasCheckpoints, hreason]

/-- Three plans in two waves, of which one is written as zero. -/
def threePlans : List Classification :=
  [⟨"c", 2, false, []⟩, ⟨"b", 0, false, []⟩, ⟨"a", 1, false, []⟩]

theorem decide_batch_zero_wave :
    threePlans.reverse.Perm threePlans ∧
      Decides threePlans (decide (threePlans.map (·.outline))) ∧
      SameUpToOrder (decide (threePlans.reverse.map (·.outline)))
        (decide (threePlans.map (·.outline))) ∧
      (decide (threePlans.map (·.outline))).mode = .parallel ∧
      (decide (threePlans.map (·.outline))).waves =
        [(.number 1, ["b", "a"]), (.number 2, ["c"])] ∧
      (decide (threePlans.reverse.map (·.outline))).waves =
        [(.number 1, ["a", "b"]), (.number 2, ["c"])] := by
  have hperm : threePlans.reverse.Perm threePlans := List.reverse_perm _
  have hbatch := decide_batch threePlans
  exact ⟨hperm, hbatch.1, hbatch.2 threePlans.reverse hperm, by cbv, by cbv, by cbv⟩

end CodeSurvey.Schedule
