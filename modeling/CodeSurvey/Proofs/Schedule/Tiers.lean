import CodeSurvey.Plan.Classification
import CodeSurvey.Proofs.Graph.Impact
import CodeSurvey.Schedule.Draft

/-!
The tiers of models on the way from the scores of tasks to a destination. Main statement: the model
of a plan is the one of its complexity, and a task inherits the top tier exactly if its score or the
profile in use asks for the top tier; else it gets the middle tier, so a profile lowers nothing.
-/

namespace CodeSurvey.Schedule

/-! ### The model of a plan -/

theorem modelOf_of_le {n : Nat} (h : n ≤ 5) :
    modelOf n = if 4 ≤ n then "opus" else "sonnet" := by
  have hscore : ((n : Int) == 4 || (n : Int) == 5) = true ↔ 4 ≤ n := by
    simp only [Bool.or_eq_true, beq_iff_eq]
    omega
  exact ite_cond_congr (propext hscore)

/-- Of the models of two scores the one of the higher tier is that of the higher score. -/
theorem higher_modelOf {m n : Nat} (hm : m ≤ 5) (hn : n ≤ 5) :
    (if tier (modelOf m) < tier (modelOf n) then modelOf n else modelOf m) =
      modelOf (max m n : Nat) := by
  have hmax : 4 ≤ max m n ↔ 4 ≤ m ∨ 4 ≤ n := by omega
  rw [modelOf_of_le hm, modelOf_of_le hn, modelOf_of_le (Nat.max_le.2 ⟨hm, hn⟩)]
  by_cases hm4 : 4 ≤ m <;> by_cases hn4 : 4 ≤ n <;> simp [hmax, hm4, hn4, tier]

/-- The highest tier among the models of scores is that of the highest score. -/
theorem foldl_higher_modelOf {scores : List Nat} {start : Nat} (hscores : ∀ n ∈ scores, n ≤ 5)
    (hstart : start ≤ 5) :
    (scores.map fun n => modelOf (n : Nat)).foldl
        (fun best m => if tier best < tier m then m else best) (modelOf start) =
      modelOf (scores.foldl max start : Nat) := by
  induction scores generalizing start with
  | nil => rfl
  | cons n scores ih =>
    obtain ⟨hn, hscores⟩ := List.forall_mem_cons.1 hscores
    rw [List.map_cons, List.foldl_cons, List.foldl_cons, higher_modelOf hstart hn]
    exact ih hscores (Nat.max_le.2 ⟨hstart, hn⟩)

end CodeSurvey.Schedule

namespace CodeSurvey.Plan.Classification

variable (c : Classification)

theorem complexity_bounds : 1 ≤ c.complexity ∧ c.complexity ≤ 5 := by
  rcases List.mem_cons.1 (Graph.foldl_max_mem 1 (c.tasks.map (·.score.value))) with hone | hmem
  · rw [complexity, hone]
    decide
  · obtain ⟨t, -, ht⟩ := List.mem_map.1 hmem
    rw [complexity, ← ht]
    exact ⟨t.score.one_le_value, t.score.value_le⟩

/-- A plan asks for the model of its complexity. -/
theorem model_eq : c.model = Schedule.modelOf c.complexity := by
  have hscores : ∀ n ∈ c.tasks.map (·.score.value), n ≤ 5 := by
    rw [List.forall_mem_map]
    exact fun t _ => t.score.value_le
  have hmodel := Schedule.foldl_higher_modelOf hscores (show 1 ≤ 5 by decide)
  rw [List.map_map] at hmodel
  exact hmodel

end CodeSurvey.Plan.Classification

namespace CodeSurvey.Schedule

variable {agent : String} {profile : Option String} {profiles : Profiles}

/-! ### What a profile asks for -/

/-- The profile asks for the top tier for an agent. Without a name there is no profile. -/
def Profiles.AsksForTop (profiles : Profiles) (agent : String) (profile : Option String) : Prop :=
  ∃ name ∈ profile, name ≠ "" ∧ ∃ models, profiles.lookup agent = some models ∧
    (models.lookup name = some "opus" ∨ models.lookup name = some "inherit")

/-- The name of a profile as a value. -/
def profileData (profile : Option String) : Data := profile.elim .null .text

theorem get?_map_text {α : Type} (entries : List (String × α)) (f : α → Data) (name : String) :
    Data.get? (entries.map fun e => (.text e.1, f e.2)) name = (entries.lookup name).map f := by
  induction entries with
  | nil => rfl
  | cons e more ih =>
    rw [List.map_cons, List.lookup_cons]
    by_cases h : name = e.1
    · rw [h, Data.get?_cons_self, beq_self_eq_true]
      rfl
    · rw [Data.get?_cons_of_ne (by simpa using Ne.symm h), ih, beq_false_of_ne h]

theorem isMissing_text (s : String) : (Data.text s).isMissing = (s == "") := rfl

/-- The models of an agent as the entries of a value. -/
def modelsData (models : List (String × String)) : List (Data × Data) :=
  models.map fun e => (.text e.1, .text e.2)

/-- An agent without models and one that is not listed are the same. -/
theorem entries_modelsData (models : List (String × String)) :
    (if (Data.map (modelsData models)).isMissing then some [] else some (modelsData models)) =
      some (modelsData models) := by
  cases models <;> rfl

/-- The model that a table of texts has under the name of a profile. -/
theorem profileModel?_of_table {agents : List (Data × Data)} {models : List (String × String)}
    {name : String} (hname : name ≠ "")
    (htable : Data.get? agents agent = some (.map (modelsData models)) ∨
      Data.get? agents agent = none ∧ models = []) :
    profileModel? (.map agents) (.text name) agent =
      some (((models.lookup name).filter (· != "")).map fun model => (name, model)) := by
  have hprofile : (Data.text name).isMissing = false := by simpa [isMissing_text] using hname
  have hmodel : Data.get? (modelsData models) name = (models.lookup name).map .text :=
    get?_map_text models .text name
  rcases htable with htable | ⟨htable, rfl⟩
  · simp only [profileModel?, htable, hprofile, Option.getD_some, entries_modelsData, hmodel]
    cases models.lookup name with
    | none => rfl
    | some model => by_cases hempty : model = "" <;> simp [hempty, isMissing_text, Option.filter]
  · simp only [profileModel?, htable, hprofile]
    rfl

/-- A table of texts gives the model that a profile names. -/
theorem profileModel?_toData (profiles : Profiles) (profile : Option String) (agent : String) :
    profileModel? profiles.toData (profileData profile) agent =
      some (profile.bind fun name =>
        (profiles.model? agent name).map fun model => (name, model)) := by
  cases profile with
  | none => rfl
  | some name =>
    by_cases hname : name = ""
    · subst hname
      rfl
    have hagent := get?_map_text profiles (fun models => .map (modelsData models)) agent
    have hnamed : (name == "") = false := beq_false_of_ne hname
    rw [Option.bind_some, Profiles.model?, hnamed]
    cases hmodels : profiles.lookup agent with
    | none =>
      rw [hmodels] at hagent
      exact profileModel?_of_table hname (.inr ⟨hagent, rfl⟩)
    | some models =>
      rw [hmodels] at hagent
      exact profileModel?_of_table hname (.inl hagent)

/-- With a table of texts a requested destination is the one that the table gives. -/
theorem routeDraft_toData (score : Int) (label : String) (profile : Option String)
    (profiles : Profiles) (agent : String) :
    routeDraft (some (score, label)) (profileData profile) profiles.toData agent =
      route score label profile profiles agent := by
  simp only [routeDraft, profileModel?_toData, route]

/-! ### The model of a destination -/

/-- The model that a score asks for; a score of zero counts as 3. -/
def baseModel (score : Int) : String := modelOf (if score == 0 then 3 else score)

theorem baseModel_cases (score : Int) : baseModel score = "opus" ∨ baseModel score = "sonnet" := by
  rw [baseModel, modelOf]
  generalize (if score == 0 then 3 else score) = n
  by_cases hn : (n == 4 || n == 5) = true
  · exact .inl (if_pos hn)
  · exact .inr (if_neg hn)

theorem tier_cases (model : String) :
    (model = "opus" ∨ model = "inherit") ∧ tier model = 2 ∨ model = "sonnet" ∧ tier model = 1 ∨
      tier model = 0 := by
  by_cases hopus : model = "opus"
  · exact .inl ⟨.inl hopus, hopus ▸ rfl⟩
  by_cases hinherit : model = "inherit"
  · exact .inl ⟨.inr hinherit, hinherit ▸ rfl⟩
  by_cases hsonnet : model = "sonnet"
  · exact .inr (.inl ⟨hsonnet, hsonnet ▸ rfl⟩)
  · exact .inr (.inr (by simp [tier, hopus, hinherit, hsonnet]))

theorem tier_eq_two_iff {model : String} : tier model = 2 ↔ model = "opus" ∨ model = "inherit" := by
  rcases tier_cases model with ⟨htop, htier⟩ | ⟨rfl, -⟩ | htier
  · exact iff_of_true htier htop
  · decide
  · refine iff_of_false (by omega) ?_
    rintro (rfl | rfl) <;> exact absurd htier (by decide)

theorem asksForTop_iff : profiles.AsksForTop agent profile ↔
    ∃ name ∈ profile, ∃ model ∈ profiles.model? agent name, tier model = 2 := by
  refine exists_congr fun name => and_congr_right fun _ => ?_
  by_cases hname : name = ""
  · simp [hname, Profiles.model?]
  have hnamed : (name == "") = false := beq_false_of_ne hname
  simp only [Profiles.model?, hnamed, ne_eq, hname, not_false_eq_true, true_and, tier_eq_two_iff]
  cases profiles.lookup agent with
  | none => simp
  | some models =>
    cases hmodel : models.lookup name with
    | none => simp [hmodel]
    | some model =>
      have hmodelNamed : model = "opus" ∨ model = "inherit" → model ≠ "" := by
        rintro (rfl | rfl) <;> decide
      simpa [hmodel, Option.filter_eq_some_iff] using hmodelNamed

/-- The destination has the top tier if the score or the profile asks for it, else the middle
    one. -/
theorem model_destination (score : Int) (label agent : String)
    (choice : Option (String × String)) :
    (baseModel score = "opus" ∨ (∃ c ∈ choice, tier c.2 = 2) →
      (destination score label agent choice).model = "inherit") ∧
    (¬ (baseModel score = "opus" ∨ ∃ c ∈ choice, tier c.2 = 2) →
      (destination score label agent choice).model = "sonnet") := by
  rcases choice with _ | ⟨name, model⟩
  · have hmodel : (destination score label agent none).model =
        if baseModel score == "opus" then "inherit" else baseModel score := rfl
    rw [hmodel]
    rcases baseModel_cases score with hbase | hbase <;> simp [hbase]
  · have hmodel : (destination score label agent (some (name, model))).model =
        let chosen := if tier (baseModel score) ≤ tier model then model else baseModel score
        if chosen == "opus" then "inherit" else chosen := rfl
    rw [hmodel]
    -- against the top tier every model loses or ties, against the middle one the top tier wins
    rcases baseModel_cases score with hbase | hbase <;>
      rcases tier_cases model with ⟨rfl | rfl, htier⟩ | ⟨rfl, htier⟩ | htier <;>
        simp [hbase, htier, show tier "opus" = 2 from rfl, show tier "sonnet" = 1 from rfl]

theorem tier_baseModel_le (score : Int) (label agent : String)
    (choice : Option (String × String)) :
    tier (baseModel score) ≤ tier (destination score label agent choice).model := by
  obtain ⟨htop, hmiddle⟩ := model_destination score label agent choice
  by_cases h : baseModel score = "opus" ∨ ∃ c ∈ choice, tier c.2 = 2
  · rw [htop h]
    rcases baseModel_cases score with hbase | hbase <;> rw [hbase] <;> decide
  · have hbase := (baseModel_cases score).resolve_left fun hopus => h (.inl hopus)
    rw [hmiddle h, hbase]

theorem choice_iff : (∃ c ∈ profile.bind fun name =>
    (profiles.model? agent name).map fun model => (name, model), tier c.2 = 2) ↔
      profiles.AsksForTop agent profile := by
  rw [asksForTop_iff]
  cases profile <;> simp

/-- From the tasks to the destination the tiers agree: a plan that can be read asks for the model of
    its complexity, and a task goes to the top tier, which is inherited, if its score or the profile
    asks for it, and else to the middle tier. -/
theorem tiers_agree :
    (∀ name content graph c, Plan.Classification.ofPlan? name content graph = some c →
      1 ≤ c.complexity ∧ c.complexity ≤ 5 ∧ c.model = modelOf c.complexity) ∧
    ∀ score label profile profiles agent,
      let model := (routeDraft (some (score, label)) (profileData profile)
        (Profiles.toData profiles) agent).model
      (baseModel score = "opus" ∨ profiles.AsksForTop agent profile → model = "inherit") ∧
      (¬ (baseModel score = "opus" ∨ profiles.AsksForTop agent profile) → model = "sonnet") ∧
      tier (baseModel score) ≤ tier model := by
  refine ⟨fun _ _ _ c _ => ⟨c.complexity_bounds.1, c.complexity_bounds.2, c.model_eq⟩, ?_⟩
  intro score label profile profiles agent
  obtain ⟨htop, hmiddle⟩ := model_destination score label agent
    (profile.bind fun name => (profiles.model? agent name).map fun model => (name, model))
  rw [choice_iff] at htop hmiddle
  rw [routeDraft_toData]
  exact ⟨htop, hmiddle, tier_baseModel_le score label agent _⟩

/-- A plan of two tasks; at the first one a person looks on. -/
def checkedPlan : List Char :=
  ("---\nwave: 2\n---\n<task type=\"checkpoint:decision\"><name>Choose</name>" ++
    "<files>a.js, b.js, c.js</files><verify>npm test</verify></task>\n" ++
    "<task type=\"\"><name>Build</name></task>\n").toList

theorem tiers_agree_checked_plan :
    (∃ c, Plan.Classification.ofPlan? "checked" checkedPlan none = some c ∧
      c.complexity = 4 ∧ c.model = modelOf 4) ∧
    (routeDraft (some (2, "simple")) (profileData (some "deep"))
      (Profiles.toData [("reviewer", [("fast", "haiku"), ("deep", "opus")])]) "reviewer").model =
        "inherit" := by
  have hsome : (Plan.Classification.ofPlan? "checked" checkedPlan none).map (·.complexity) =
      some 4 := by
    decide +kernel
  obtain ⟨c, hc, hcomplexity⟩ := Option.map_eq_some_iff.1 hsome
  obtain ⟨-, -, hmodel⟩ := tiers_agree.1 _ _ _ c hc
  rw [hcomplexity] at hmodel
  have hdeep : Profiles.AsksForTop [("reviewer", [("fast", "haiku"), ("deep", "opus")])] "reviewer"
      (some "deep") := ⟨"deep", rfl, by decide, _, rfl, .inl rfl⟩
  exact ⟨⟨c, hc, hcomplexity, hmodel⟩, (tiers_agree.2 2 "simple" (some "deep") _ _).1 (.inr hdeep)⟩

/-- A profile without a name is none, even if the table has a model under the empty name. -/
theorem nameless_profile_ignored :
    let profiles : Profiles := [(defaultAgent, [("", "opus")])]
    (profiles.lookup defaultAgent).bind (·.lookup "") = some "opus" ∧
      (routeDraft (some (1, "trivial")) (profileData (some "")) profiles.toData
        defaultAgent).model = "sonnet" := by
  decide +kernel

end CodeSurvey.Schedule
