import CodeSurvey.Json.Basic
import CodeSurvey.Plan.Document

/-!
How a batch of plans is carried out. The plans are grouped by their waves, which follow one another.
Checkpoints force one plan after the other; else several plans of one wave can go side by side, and
three waves or more make a pipeline.
-/

namespace CodeSurvey.Schedule

/-- The wave of a plan: a number, or what was written instead of one. -/
inductive Wave where
  | number (n : Int)
  | label (s : String)
  deriving DecidableEq, Repr

namespace Wave

/-- The wave that counts: the first one for zero and for nothing. -/
def effective : Wave → Wave
  | number n => number (if n == 0 then 1 else n)
  | label s => if s == "" then number 1 else label s

theorem effective_effective (w : Wave) : w.effective.effective = w.effective := by
  cases w with
  | number n => by_cases h : n = 0 <;> simp [effective, h]
  | label s => by_cases h : s = "" <;> simp [effective, h]

/-- Waves in ascending order, numbers before labels. -/
def le : Wave → Wave → Bool
  | number m, number n => m ≤ n
  | label s, label t => s ≤ t
  | number _, label _ => true
  | label _, number _ => false

theorem le_total (v w : Wave) : v.le w || w.le v := by
  cases v <;> cases w <;> simp [Wave.le, Int.le_total, String.le_total]

/-- The wave is a number. -/
def isNumber : Wave → Bool
  | number _ => true
  | label _ => false

/-- The text of a wave. -/
def text : Wave → String
  | number n => toString n
  | label s => s

end Wave

/-- What counts of a plan: its name, its wave and the types of its tasks. -/
structure Outline where
  plan : String
  wave : Wave := .number 1
  kinds : List String := []
  deriving DecidableEq, Repr

/-- A task of the plan is a checkpoint. -/
def Outline.hasCheckpoints (o : Outline) : Bool := o.kinds.any Plan.isCheckpointKind

/-- How plans are carried out. -/
inductive Mode where
  | single
  | sequential
  | parallel
  | pipeline
  deriving DecidableEq, Repr

/-- The word for a mode. -/
def Mode.word : Mode → String
  | single => "single"
  | sequential => "sequential"
  | parallel => "parallel"
  | pipeline => "pipeline"

/-- Why a mode was chosen. -/
inductive Reason where
  | noPlans
  | checkpoints
  | fewTasks (count : Nat)
  | sameWave (count : Nat) (wave : Wave)
  | manyWaves (count : Nat)
  | oneByOne (plans waves : Nat)
  /-- The plans cannot be read or their waves not be sorted. -/
  | unreadable
  deriving DecidableEq, Repr

namespace Reason

/-- The mode that a reason asks for. -/
def mode : Reason → Mode
  | noPlans | fewTasks _ => .single
  | sameWave .. => .parallel
  | manyWaves _ => .pipeline
  | checkpoints | oneByOne .. | unreadable => .sequential

/-- A number of things. -/
def counted (n : Nat) (thing : String) : String := s!"{n} {thing}" ++ if n == 1 then "" else "s"

/-- The words for a reason. -/
def message : Reason → String
  | noPlans => "no plans to execute"
  | checkpoints => "plan has checkpoint tasks requiring human interaction"
  | fewTasks n => "1 plan with " ++ counted n "task"
  | sameWave n wave => s!"{n} independent plans in wave {wave.text}"
  | manyWaves n => s!"{n} waves requiring sequential execution"
  | oneByOne plans waves => s!"{plans} plans across " ++ counted waves "wave"
  | unreadable => "mode selection error - defaulting to sequential"

end Reason

/-- The number of plans in waves. -/
def planCount (waves : List (Wave × List String)) : Nat :=
  (waves.map (·.2.length)).foldr (· + ·) 0

/-- A decision: the reason for the mode, and the plans of each wave, the waves ascending. -/
structure Decision where
  reason : Reason
  waves : List (Wave × List String) := []
  deriving DecidableEq, Repr

namespace Decision

/-- The mode. -/
def mode (d : Decision) : Mode := d.reason.mode

/-- The number of plans. -/
def totalPlans (d : Decision) : Nat := planCount d.waves

/-- The number of waves. -/
def totalWaves (d : Decision) : Nat := d.waves.length

/-- Some task of the batch is a checkpoint. -/
def hasCheckpoints (d : Decision) : Bool := d.reason == .checkpoints

/-- The record of a decision. -/
def toJson (d : Decision) : Json :=
  .object [("mode", .string d.mode.word), ("reason", .string d.reason.message),
    ("waves", .object (d.waves.map fun w => (w.1.text, .strings w.2))),
    ("total_plans", .nat d.totalPlans), ("total_waves", .nat d.totalWaves),
    ("has_checkpoints", .bool d.hasCheckpoints)]

end Decision

/-- Adds a plan to its wave, or a new wave behind all others. -/
def addToWave (wave : Wave) (plan : String) : List (Wave × List String) → List (Wave × List String)
  | [] => [(wave, [plan])]
  | w :: more =>
    if w.1 == wave then (w.1, w.2 ++ [plan]) :: more else w :: addToWave wave plan more

theorem plans_addToWave (wave : Wave) (plan : String) (waves : List (Wave × List String)) :
    planCount (addToWave wave plan waves) = planCount waves + 1 := by
  fun_induction addToWave wave plan waves <;> simp_all [planCount] <;> omega

theorem nodup_addToWave (wave : Wave) (plan : String) {waves : List (Wave × List String)}
    (h : (waves.map (·.1)).Nodup) : ((addToWave wave plan waves).map (·.1)).Nodup := by
  fun_induction addToWave wave plan waves with
  | case1 => simp
  | case2 w more hw => simpa using h
  | case3 w more hw ih =>
    have hmem : ∀ v, v ∈ (addToWave wave plan more).map (·.1) →
        v = wave ∨ v ∈ more.map (·.1) := by
      clear ih h
      fun_induction addToWave wave plan more <;> grind
    simp only [List.map_cons, List.nodup_cons] at h ⊢
    refine ⟨fun hm => ?_, ih h.2⟩
    rcases hmem _ hm with rfl | hm
    · simp at hw
    · exact h.1 hm

/-- The plans of each wave in their order, the waves ascending. -/
def wavesOf (plans : List Outline) : List (Wave × List String) :=
  (plans.foldl (fun waves p => addToWave p.wave.effective p.plan waves) []).mergeSort
    fun v w => v.1.le w.1

/-- Grouping plans by wave loses none and invents none. -/
theorem plans_wavesOf (plans : List Outline) :
    planCount (wavesOf plans) = plans.length := by
  have h : ∀ waves, planCount (plans.foldl (fun waves p => addToWave p.wave.effective p.plan waves)
      waves) = planCount waves + plans.length := by
    induction plans with
    | nil => simp
    | cons p more ih => intro waves; rw [List.foldl_cons, ih, plans_addToWave]; simp; omega
  have hsort : planCount (wavesOf plans) = planCount (plans.foldl
      (fun waves p => addToWave p.wave.effective p.plan waves) []) :=
    ((List.mergeSort_perm _ _).map _).sum_nat
  rw [hsort, h]
  exact Nat.zero_add _

/-- The waves can be sorted: they are all numbers or all labels. -/
def sortable (waves : List (Wave × List String)) : Bool :=
  waves.all (·.1.isNumber) || waves.all (!·.1.isNumber)

/-- Why a batch of plans with these waves is carried out as it is. -/
def reasonFor (plans : List Outline) (waves : List (Wave × List String)) : Reason :=
  match plans with
  | [] => .noPlans
  | first :: more =>
    if plans.any (·.hasCheckpoints) then .checkpoints
    else if more.isEmpty && first.kinds.length ≤ 2 then .fewTasks first.kinds.length
    else match waves.find? fun w => 1 < w.2.length with
      | some w => .sameWave w.2.length w.1
      | none =>
        if 3 ≤ waves.length then .manyWaves waves.length else .oneByOne plans.length waves.length

/-- The decision for a batch of plans. -/
def decide (plans : List Outline) : Decision :=
  let waves := wavesOf plans
  if sortable waves then ⟨reasonFor plans waves, waves⟩ else ⟨.unreadable, []⟩

end CodeSurvey.Schedule
