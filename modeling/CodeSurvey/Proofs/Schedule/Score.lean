import CodeSurvey.Proofs.Graph.Importers
import CodeSurvey.Schedule.Draft
import Mathlib.Tactic.IntervalCases

/-!
What a score is for. Main statement: a score is one point more than its factors are worth, but at
most 5, and it has the word and the model of that number; a task gets no lower score if more files
are added to it, or if the keys of the graph get more importers.
-/

namespace CodeSurvey.Schedule

/-- The points that a factor is worth. -/
def Factor.points : Factor → Nat
  | manyFiles _ | manyImporters _ => 2
  | severalFiles _ | severalImporters _ | tests | checkpoint _ | longAction | unreadable => 1

/-- The points that a number of things is worth. -/
def Thresholds.points (limits : Thresholds) (n : Nat) : Nat :=
  if limits.many ≤ n then 2 else if limits.several ≤ n then 1 else 0

theorem Thresholds.monotone_points (limits : Thresholds) : Monotone limits.points := by
  intro m n hmn
  have hlimits := limits.several_le_many
  unfold Thresholds.points
  split_ifs <;> omega

namespace Tally

variable {t : Tally} {factor : Factor} {points : Nat}

/-! ### Points and factors side by side -/

/-- The points are the one that every task has and those of the factors. -/
def Accounted (t : Tally) : Prop := t.points = 1 + (t.factors.map Factor.points).sum

theorem accounted_start : start.Accounted := rfl

theorem Accounted.add (h : t.Accounted) (hfactor : factor.points = points) :
    (t.add points factor).Accounted := by
  have hpoints : t.points = 1 + (t.factors.map Factor.points).sum := h
  show t.points + points = 1 + ((t.factors ++ [factor]).map Factor.points).sum
  rw [List.map_append, List.sum_append, List.map_singleton, List.sum_singleton, hpoints, hfactor,
    Nat.add_assoc]

theorem Accounted.addCount (h : t.Accounted) (limits : Thresholds) {high moderate : Nat → Factor}
    {n : Nat} (hhigh : (high n).points = 2) (hmoderate : (moderate n).points = 1) :
    (t.addCount limits high moderate n).Accounted := by
  unfold Tally.addCount
  split
  · exact h.add hhigh
  · split
    · exact h.add hmoderate
    · exact h

theorem Accounted.addIf (h : t.Accounted) (present : Bool) (hfactor : factor.points = 1) :
    (t.addIf present factor).Accounted := by
  cases present with
  | false => exact h
  | true => exact h.add hfactor

theorem accounted_ofTask (files : Nat) (importers : Option Nat) (hasTests : Bool) (kind : String)
    (actionLength : Nat) :
    (ofTask files importers hasTests kind actionLength).Accounted := by
  have hfiles : (start.addCount fileThresholds .manyFiles .severalFiles files).Accounted :=
    accounted_start.addCount _ rfl rfl
  unfold ofTask
  refine Accounted.addIf (Accounted.addIf (Accounted.addIf ?_ _ rfl) _ rfl) _ rfl
  cases importers with
  | none => exact hfiles
  | some n => exact hfiles.addCount _ rfl rfl

/-! ### Points alone -/

theorem points_addCount (t : Tally) (limits : Thresholds) (high moderate : Nat → Factor)
    (n : Nat) : (t.addCount limits high moderate n).points = t.points + limits.points n := by
  unfold Tally.addCount Thresholds.points
  split
  · rfl
  · split <;> rfl

theorem points_addIf (t : Tally) (present : Bool) (factor : Factor) :
    (t.addIf present factor).points = t.points + present.toNat := by
  cases present <;> rfl

/-- Importers that are not known count like none. -/
theorem points_ofTask (files : Nat) (importers : Option Nat) (hasTests : Bool) (kind : String)
    (actionLength : Nat) :
    (ofTask files importers hasTests kind actionLength).points =
      1 + fileThresholds.points files + importerThresholds.points (importers.getD 0) +
        hasTests.toNat + (humanCheckpoints.contains kind).toNat +
        (Decidable.decide (actionLimit < actionLength)).toNat := by
  simp only [ofTask, points_addIf]
  cases importers with
  | none => rw [points_addCount]; rfl
  | some n => rw [points_addCount, points_addCount]; rfl

theorem points_ofTask_mono {files others : Nat} {importers importers' : Option Nat}
    (hfiles : files ≤ others) (himporters : importers.getD 0 ≤ importers'.getD 0)
    (hasTests : Bool) (kind : String) (actionLength : Nat) :
    (ofTask files importers hasTests kind actionLength).points ≤
      (ofTask others importers' hasTests kind actionLength).points := by
  have hfile := fileThresholds.monotone_points hfiles
  have himporter := importerThresholds.monotone_points himporters
  rw [points_ofTask, points_ofTask]
  omega

end Tally

namespace Score

theorem ofTally_value_mono {t u : Tally} (h : t.points ≤ u.points) :
    (ofTally t).value ≤ (ofTally u).value := by
  show max 1 (min 5 t.points) ≤ max 1 (min 5 u.points)
  omega

theorem value_ofTally {t : Tally} (h : t.Accounted) :
    (ofTally t).value = min 5 (1 + ((ofTally t).factors.map Factor.points).sum) := by
  have hpoints : t.points = 1 + (t.factors.map Factor.points).sum := h
  show max 1 (min 5 t.points) = min 5 (1 + (t.factors.map Factor.points).sum)
  omega

/-- The words for the scores. -/
def labels : List (Nat × String) :=
  [(1, "trivial"), (2, "simple"), (3, "moderate"), (4, "complex"), (5, "very_complex")]

/-- The models that the scores ask for. -/
def models : List (Nat × String) :=
  [(1, "sonnet"), (2, "sonnet"), (3, "sonnet"), (4, "opus"), (5, "opus")]

/-- Every score has a word and a model. -/
theorem lookup_value (s : Score) :
    labels.lookup s.value = some s.label ∧ models.lookup s.value = some s.model := by
  have hlow := s.one_le_value
  have hhigh := s.value_le
  unfold label model
  generalize s.value = value at hlow hhigh ⊢
  interval_cases value <;> exact ⟨rfl, rfl⟩

end Score

/-! ### Scores of tasks -/

/-- The importers of each file that a graph knows of; without a graph there are none. -/
def importersIn (graph : Option DependencyGraph) : Adjacency := graph.elim [] (·.reverse)

theorem importers_getD (graph : Option DependencyGraph) (files : List String) :
    (graph.map fun g => Graph.countImporters g files).getD 0 =
      (files.map (Graph.importersLike (importersIn graph))).sum := by
  cases graph with
  | none => exact (List.sum_eq_zero (by simp [importersIn, Graph.importersLike])).symm
  | some g => exact Graph.countImporters_eq g files

/-- A task as a request. -/
def TaskDraft.ofTask (t : Plan.Task) : TaskDraft :=
  { kind := .text t.kind, files := .list (t.files.map .text), action := .text t.action,
    verify := .text t.verify }

theorem textField?_text (s : String) : textField? (.text s) = some s.toList := by
  by_cases h : s = ""
  · subst h
    rfl
  · have hmissing : (Data.text s).isMissing = false := beq_false_of_ne h
    rw [textField?, hmissing]
    rfl

theorem fileField?_list (items : List Data) : fileField? (.list items) = some items := by
  cases items <;> rfl

theorem mapM_textOf? (files : List String) : (files.map Data.text).mapM textOf? = some files := by
  induction files with
  | nil => rfl
  | cons file more ih =>
    rw [List.map_cons, List.mapM_cons, ih]
    rfl

/-- The request of a task can be read, and it gets the score of the task. -/
theorem score_ofTask (t : Plan.Task) (graph : Option DependencyGraph) :
    (TaskDraft.ofTask t).score graph = score t graph := by
  have htally : (TaskDraft.ofTask t).tally? graph =
      some (.ofTask t.files.length (graph.map fun g => Graph.countImporters g t.files)
        (mentionsTests t.action.toList || mentionsTests t.verify.toList) t.kind
        t.action.length) := by
    -- what is verified is looked at in one of the two cases only
    cases htests : mentionsTests t.action.toList <;> cases graph <;>
      simp only [TaskDraft.tally?, TaskDraft.ofTask, fileField?_list, mapM_textOf?, textField?_text,
        Option.bind_eq_bind, Option.bind_some, List.length_map, htests] <;>
      rfl
  rw [TaskDraft.score, htally]
  rfl

/-- A score, also one that is requested, is accounted for by its factors and has the word and the
    model of its number; it does not fall if a task gets further files, or if the keys of the graph
    get further importers. -/
theorem score_accounted_and_monotone :
    (∀ t graph,
      (TaskDraft.ofTask t).score graph = score t graph ∧
      (score t graph).value = min 5 (1 + ((score t graph).factors.map Factor.points).sum) ∧
      Score.labels.lookup (score t graph).value = some (score t graph).label ∧
      Score.models.lookup (score t graph).value = some (score t graph).model) ∧
    ∀ (t : Plan.Task) files graph graph', files.Sublist t.files →
      (importersIn graph).Functional → (importersIn graph).GrowsTo (importersIn graph') →
        (score { t with files } graph).value ≤ (score t graph').value := by
  constructor
  · intro t graph
    exact ⟨score_ofTask t graph, Score.value_ofTally (Tally.accounted_ofTask ..),
      (score t graph).lookup_value⟩
  · intro t files graph graph' hfiles hfunctional hgrows
    refine Score.ofTally_value_mono (Tally.points_ofTask_mono hfiles.length_le ?_ _ _ _)
    rw [importers_getD, importers_getD]
    exact Graph.sum_importersLike_mono hfunctional hgrows hfiles

/-- A task that gets two files more, and a graph in which one of its files gets more importers. -/
theorem score_monotone_checkpoint :
    let t : Plan.Task :=
      { name := "Move", kind := "checkpoint:decision",
        files := ["./lib/a.js", "b.js", "lib/a.js", "c.js"], action := "npm test" }
    let graph : DependencyGraph := { reverse := [("lib/a.js", ["x.js", "y.js"])] }
    let graph' : DependencyGraph :=
      { reverse := [("z.js", []), ("lib/a.js", ["u.js", "v.js", "w.js"])] }
    ["./lib/a.js", "c.js"].Sublist t.files ∧ (importersIn (some graph)).Functional ∧
      (importersIn (some graph)).GrowsTo (importersIn (some graph')) ∧
      (score { t with files := ["./lib/a.js", "c.js"] } (some graph)).value ≤
        (score t (some graph')).value := by
  intro t graph graph'
  have hfiles : ["./lib/a.js", "c.js"].Sublist t.files := by decide
  have hfunctional : (importersIn (some graph)).Functional := by
    show (["lib/a.js"] : List String).Nodup
    decide
  have hgrows : (importersIn (some graph)).GrowsTo (importersIn (some graph')) := by
    intro entry hentry
    rw [List.mem_singleton.1 hentry]
    exact ⟨["u.js", "v.js", "w.js"], by decide, by decide⟩
  exact ⟨hfiles, hfunctional, hgrows,
    score_accounted_and_monotone.2 t _ (some graph) (some graph') hfiles hfunctional hgrows⟩

end CodeSurvey.Schedule
