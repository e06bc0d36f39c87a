import CodeSurvey.Distinct
import CodeSurvey.Schedule.Mode
import Mathlib.Data.List.Forall2
import Mathlib.Data.List.Induction
import Mathlib.Data.List.Perm.Basic

/-!
The waves of a batch of plans. Main statements: each wave that occurs stands once, in ascending
order, with the names of its plans in the order of the batch; in another order of the batch there
are the same waves, with the same names up to order.
-/

namespace CodeSurvey.Schedule

/-! ### The order of waves -/

namespace Wave

theorem le_trans {u v w : Wave} (huv : u.le v = true) (hvw : v.le w = true) : u.le w = true := by
  cases u <;> cases v <;> cases w <;> simp_all only [Wave.le, decide_eq_true_eq, Bool.false_eq_true]
  · exact Int.le_trans huv hvw
  · exact String.le_trans huv hvw

theorem le_antisymm {v w : Wave} (hvw : v.le w = true) (hwv : w.le v = true) : v = w := by
  cases v <;> cases w <;> simp_all only [Wave.le, decide_eq_true_eq, Bool.false_eq_true]
  · rw [Int.le_antisymm hvw hwv]
  · rw [String.le_antisymm hvw hwv]

end Wave

/-! ### Grouping -/

/-- The names of the plans of a wave, in the order of the batch. -/
def namesIn (plans : List Outline) (wave : Wave) : List String :=
  (plans.filter fun p => p.wave.effective == wave).map (·.plan)

/-- The waves of a batch, in the order in which they are met. -/
def wavesMet (plans : List Outline) : List Wave := (plans.map (·.wave.effective)).eraseDups

/-- The waves of a batch, ascending. -/
def ascendingWaves (plans : List Outline) : List Wave := (wavesMet plans).mergeSort Wave.le

variable {plans plans' : List Outline} {wave : Wave}

theorem mem_wavesMet : wave ∈ wavesMet plans ↔ ∃ p ∈ plans, p.wave.effective = wave := by
  rw [wavesMet, List.mem_eraseDups, List.mem_map]

theorem nodup_wavesMet (plans : List Outline) : (wavesMet plans).Nodup :=
  Distinct.nodup_eraseDups _

theorem namesIn_eq_nil (h : wave ∉ wavesMet plans) : namesIn plans wave = [] := by
  rw [namesIn, List.map_eq_nil_iff, List.filter_eq_nil_iff]
  intro p hp he
  exact h (mem_wavesMet.2 ⟨p, hp, eq_of_beq he⟩)

theorem wavesMet_concat (plans : List Outline) (p : Outline) :
    wavesMet (plans ++ [p]) =
      if p.wave.effective ∈ wavesMet plans then wavesMet plans
      else wavesMet plans ++ [p.wave.effective] := by
  simp only [wavesMet, List.map_append, List.map_cons, List.map_nil, Distinct.eraseDups_concat,
    List.contains_iff_mem, List.mem_eraseDups]

theorem namesIn_concat (plans : List Outline) (p : Outline) (wave : Wave) :
    namesIn (plans ++ [p]) wave =
      namesIn plans wave ++ if p.wave.effective = wave then [p.plan] else [] := by
  rw [namesIn, List.filter_append, List.map_append, ← namesIn]
  by_cases h : p.wave.effective = wave <;> simp [h]

/-- A plan added to a table of waves stands behind the plans of its wave. -/
theorem addToWave_table {waves : List Wave} (hnodup : waves.Nodup) (names : Wave → List String)
    (hnew : wave ∉ waves → names wave = []) (plan : String) :
    addToWave wave plan (waves.map fun w => (w, names w)) =
      (if wave ∈ waves then waves else waves ++ [wave]).map
        fun w => (w, names w ++ if wave = w then [plan] else []) := by
  induction waves with
  | nil => simp [addToWave, hnew]
  | cons v more ih =>
    obtain ⟨hv, hmore⟩ := List.nodup_cons.1 hnodup
    rw [List.map_cons, addToWave]
    by_cases hvw : v = wave
    · subst hvw
      have hrest : ∀ w ∈ more, (w, names w) = (w, names w ++ if v = w then [plan] else []) := by
        intro w hw
        have hne : v ≠ w := fun h => hv (h ▸ hw)
        rw [if_neg hne, List.append_nil]
      rw [if_pos (beq_self_eq_true _), if_pos (List.mem_cons_self ..), List.map_cons,
        List.map_congr_left hrest, if_pos rfl]
    · have hwv : wave ≠ v := Ne.symm hvw
      have hmem : wave ∈ v :: more ↔ wave ∈ more := by simp [hwv]
      rw [if_neg (by simpa using hvw), ih hmore fun h => hnew fun hm => h (hmem.1 hm)]
      by_cases hw : wave ∈ more
      · rw [if_pos hw, if_pos (hmem.2 hw), List.map_cons, if_neg hwv, List.append_nil]
      · rw [if_neg hw, if_neg (mt hmem.1 hw), List.cons_append, List.map_cons, if_neg hwv,
          List.append_nil]

/-- Grouping the plans one after the other gives the table of the waves met. -/
theorem foldl_addToWave (plans : List Outline) :
    plans.foldl (fun waves p => addToWave p.wave.effective p.plan waves) [] =
      (wavesMet plans).map fun w => (w, namesIn plans w) := by
  induction plans using List.reverseRecOn with
  | nil => rfl
  | append_singleton plans p ih =>
    rw [List.foldl_append, ih, List.foldl_cons, List.foldl_nil,
      addToWave_table (nodup_wavesMet plans) _ namesIn_eq_nil, ← wavesMet_concat]
    simp only [namesIn_concat]

/-- The waves of a batch with the names of their plans. -/
theorem wavesOf_eq (plans : List Outline) :
    wavesOf plans = (ascendingWaves plans).map fun w => (w, namesIn plans w) := by
  rw [wavesOf, foldl_addToWave, ascendingWaves]
  exact (List.map_mergeSort (s := fun v w : Wave × List String => v.1.le w.1)
    fun _ _ _ _ => rfl).symm

theorem mem_ascendingWaves : wave ∈ ascendingWaves plans ↔
    ∃ p ∈ plans, p.wave.effective = wave := by
  rw [ascendingWaves, List.mem_mergeSort, mem_wavesMet]

theorem nodup_ascendingWaves (plans : List Outline) : (ascendingWaves plans).Nodup :=
  (List.mergeSort_perm ..).nodup_iff.2 (nodup_wavesMet plans)

theorem pairwise_ascendingWaves (plans : List Outline) :
    (ascendingWaves plans).Pairwise fun v w => v.le w = true :=
  List.pairwise_mergeSort (fun u v w => @Wave.le_trans u v w) Wave.le_total
    (wavesMet plans)

/-! ### Another order of the batch -/

theorem ascendingWaves_perm (h : plans.Perm plans') :
    ascendingWaves plans = ascendingWaves plans' := by
  refine List.Perm.eq_of_pairwise (fun _ _ _ _ => Wave.le_antisymm) (pairwise_ascendingWaves _)
    (pairwise_ascendingWaves _) ?_
  refine (List.perm_ext_iff_of_nodup (nodup_ascendingWaves _) (nodup_ascendingWaves _)).2
    fun w => ?_
  rw [mem_ascendingWaves, mem_ascendingWaves]
  exact exists_congr fun p => and_congr_left' h.mem_iff

theorem namesIn_perm (h : plans.Perm plans') (wave : Wave) :
    (namesIn plans wave).Perm (namesIn plans' wave) :=
  (h.filter _).map _

/-- In another order a batch has the same waves, with the same names up to order. -/
theorem wavesOf_perm (h : plans.Perm plans') :
    List.Forall₂ (fun v w => v.1 = w.1 ∧ v.2.Perm w.2) (wavesOf plans) (wavesOf plans') := by
  rw [wavesOf_eq, wavesOf_eq, ascendingWaves_perm h, List.forall₂_map_left_iff,
    List.forall₂_map_right_iff, List.forall₂_same]
  exact fun w _ => ⟨rfl, namesIn_perm h w⟩

end CodeSurvey.Schedule
