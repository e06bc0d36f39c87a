import CodeSurvey.Command.Run
import CodeSurvey.Proofs.Config.Settings
import CodeSurvey.Text.Utf8

/-!
Changes of the configuration file one after another, from no file on. What is written is assumed to
be read back as the same table. Main statement: whatever names and values are given, after the
accepted changes the bounds of the graph and of the overview can be had; how models are chosen can
be had if and only if the last text that was put in the place of the profiles, if any, is empty.
-/

namespace CodeSurvey.Config

variable {c : Config}

/-! ### The file -/

/-- The table is read back from the text that it is written as. -/
def ReadsBack (c : Config) : Prop :=
  ∀ text, Toml.text c = .ok text →
    ∃ table, Toml.load (Text.unifyLineEnds text) = .ok table ∧ SameTable table c

/-- It can be decided what holds of the table that is read back from what is written. -/
def decidableBack (c : Config) (P : List (Data × Data) → Prop) [DecidablePred P] :
    Decidable (∀ text, Toml.text c = .ok text →
      ∃ table, Toml.load (Text.unifyLineEnds text) = .ok table ∧ P table) :=
  match htext : Toml.text c with
  | .error _ => isTrue fun text h => by simp at h
  | .ok written =>
    match hload : Toml.load (Text.unifyLineEnds written) with
    | .error _ => isFalse fun h => by
      obtain ⟨table, htable, -⟩ := h written rfl
      rw [hload] at htable
      simp at htable
    | .ok table => decidable_of_iff (P table)
      ⟨fun h other hother => by
        obtain rfl := Except.ok.inj hother
        exact ⟨table, hload, h⟩,
      fun h => by
        obtain ⟨other, hother, hP⟩ := h written rfl
        obtain rfl := Except.ok.inj (hload.symm.trans hother)
        exact hP⟩

instance (c : Config) : Decidable (ReadsBack c) := decidableBack c (SameTable · c)

theorem load_of_missing {here : Folder} (h : here.read? filePath = none) :
    load here filePath = .ok defaults := by
  rw [load, h]
  rfl

/-- The way to the configuration file. -/
def fileSteps : List String := ["cbi-home", "config.toml"]

/-- What stands in a folder after the configuration was written. -/
theorem exists_text_of_save {here folder : Folder} (h : save c here filePath = (folder, .ok true)) :
    ∃ text, Toml.text c = .ok text ∧ folder = here.write (Text.Utf8.encode text) fileSteps := by
  have hsteps : Folder.steps (String.ofList (Path.normalise filePath.toList)) = fileSteps := by
    decide +kernel
  rw [save, hsteps] at h
  split at h
  · simp at h
  · split at h
    · rename_i text htext
      exact ⟨text, htext, (congrArg Prod.fst h).symm⟩
    · simp at h

/-- What is loaded from a file that was written is what can be read of its text. -/
theorem load_write_table (here : Folder) {text : List Char} {table : List (Data × Data)}
    (htable : Toml.load (Text.unifyLineEnds text) = .ok table) :
    load (here.write (Text.Utf8.encode text) fileSteps) filePath = .ok (ofFile (some table)) := by
  have hread : (here.write (Text.Utf8.encode text) fileSteps).read? filePath =
      some (Text.Utf8.encode text) := by
    have hfollow :=
      Folder.follow?_write (Text.Utf8.encode text) fileSteps (by decide) (by decide) [] here
    have hsteps : Folder.steps filePath = fileSteps := by decide +kernel
    rw [Folder.read?, Folder.at?, hsteps, hfollow]
    rfl
  have hfile : Config.read (Text.Utf8.encode text) = .ok (some table) := by
    simp only [Config.read, Text.Utf8.decode_encode, Except.mapError, bind, Except.bind, htable]
    rfl
  rw [load, hread]
  show (do return ofFile (← Config.read (Text.Utf8.encode text))) = _
  rw [hfile]
  rfl

/-- What is read back from a file that was written. -/
theorem load_write (here : Folder) {text : List Char} (htext : Toml.text c = .ok text)
    (hback : ReadsBack c) :
    ∃ table, SameTable table c ∧ load (here.write (Text.Utf8.encode text) fileSteps) filePath =
      .ok (ofFile (some table)) := by
  obtain ⟨table, htable, hsame⟩ := hback text htext
  exact ⟨table, hsame, load_write_table here htable⟩

end CodeSurvey.Config

namespace CodeSurvey.Command

open Config

variable {base key value : String} {here start : Folder} {settings : List (String × String)}

/-- The command has done its work. -/
def Succeeds (outcome : Outcome) : Prop := outcome.ending.code = 0

instance (outcome : Outcome) : Decidable (Succeeds outcome) :=
  inferInstanceAs (Decidable (outcome.ending.code = 0))

/-- The table that a change of a value writes. -/
def written? (here : Folder) (key value : String) : Option Config :=
  match Change.ofKey key value, load here filePath with
  | .ok h, .ok c => (h.apply c).toOption
  | _, _ => none

theorem not_succeeds_refusal (r : Refusal) : (refusal r).code ≠ 0 := by
  cases r <;> exact Nat.succ_ne_zero _

/-- An accepted change reads the configuration, changes one value and writes it. -/
theorem exists_of_succeeds (h : Succeeds (run base here (.setConfig key value))) :
    ∃ (step : Change) (c : Config) (v : Data) (text : List Char),
      Change.ofKey key value = .ok step ∧ load here filePath = .ok c ∧ step.value c = .ok v ∧
      Toml.text (step.put v c) = .ok text ∧ written? here key value = some (step.put v c) ∧
      (run base here (.setConfig key value)).folder =
        here.write (Text.Utf8.encode text) fileSteps := by
  have hrun : run base here (.setConfig key value) = change here key value := rfl
  rw [hrun] at h ⊢
  unfold change at h ⊢
  cases hkey : Change.ofKey key value with
  | error r =>
    rw [hkey] at h
    exact absurd h (not_succeeds_refusal r)
  | ok change =>
    cases hload : load here filePath with
    | error e =>
      rw [hkey, hload] at h
      exact absurd h (Nat.succ_ne_zero 0)
    | ok c =>
      cases hvalue : change.value c with
      | error r =>
        simp only [hkey, hload, hvalue] at h
        exact absurd h (not_succeeds_refusal r)
      | ok v =>
        simp only [hkey, hload, hvalue] at h ⊢
        rcases hsave : save (change.put v c) here filePath with ⟨folder, _ | written⟩
        · rw [hsave] at h
          exact absurd h (Nat.succ_ne_zero 0)
        · cases written with
          | false =>
            rw [hsave] at h
            exact absurd h (Nat.succ_ne_zero 0)
          | true =>
            obtain ⟨text, htext, rfl⟩ := exists_text_of_save hsave
            refine ⟨change, c, v, text, rfl, rfl, hvalue, htext, ?_, rfl⟩
            rw [written?, hkey, hload]
            show (change.apply c).toOption = _
            rw [Change.apply, hvalue]
            rfl

/-- What is left in a folder by accepted changes of the configuration, each of which is read back
    as it was written. -/
inductive AfterChanges (base : String) (start : Folder) : List (String × String) → Folder → Prop
  | unchanged : AfterChanges base start [] start
  | changed {settings : List (String × String)} {here : Folder} {key value : String}
      (before : AfterChanges base start settings here)
      (accepted : Succeeds (run base here (.setConfig key value)))
      (back : ∀ c ∈ written? here key value, ReadsBack c) :
      AfterChanges base start (settings ++ [(key, value)])
        (run base here (.setConfig key value)).folder

/-- The key of the profiles. -/
def profilesKey : String := "routing.profiles"

/-- The last value that changes put under the key of the profiles. -/
def lastProfiles (settings : List (String × String)) : Option String :=
  settings.reverse.lookup profilesKey

theorem lastProfiles_append {h : Change} (hkey : Change.ofKey key value = .ok h)
    (settings : List (String × String)) : lastProfiles (settings ++ [(key, value)]) =
      if h.sectionName = "routing" ∧ h.name = "profiles" then some value
      else lastProfiles settings := by
  have hiff : profilesKey = key ↔ h.sectionName = "routing" ∧ h.name = "profiles" := by
    constructor
    · rintro rfl
      have hprofiles : Change.ofKey profilesKey value = .ok ⟨"routing", "profiles", value⟩ := rfl
      obtain rfl := Except.ok.inj (hprofiles.symm.trans hkey)
      exact ⟨rfl, rfl⟩
    · rintro ⟨hsection, hname⟩
      rw [(ofKey_eq_ok hkey).1, hsection, hname]
      rfl
  rw [lastProfiles, List.reverse_append, List.reverse_singleton, List.singleton_append,
    List.lookup_cons]
  by_cases heq : profilesKey = key
  · rw [if_pos (hiff.1 heq), beq_iff_eq.2 heq]
  · rw [if_neg (mt hiff.2 heq), beq_false_of_ne heq]
    rfl

/-- What is loaded after accepted changes. -/
theorem AfterChanges.exists_load (h : AfterChanges base start settings here)
    (fresh : start.read? filePath = none) :
    ∃ c, load here filePath = .ok c ∧ Changed (lastProfiles settings) c := by
  induction h with
  | unchanged => exact ⟨_, load_of_missing fresh, changed_defaults⟩
  | @changed settings here key value before accepted back ih =>
    obtain ⟨c, hload, hc⟩ := ih
    obtain ⟨step, c', v, text, hkey, hload', hvalue, htext, hwritten, hfolder⟩ :=
      exists_of_succeeds accepted
    obtain rfl := Except.ok.inj (hload.symm.trans hload')
    obtain ⟨-, hs, hraw⟩ := ofKey_eq_ok hkey
    obtain ⟨table, hsame, htable⟩ := load_write here htext (back _ hwritten)
    refine ⟨_, hfolder ▸ htable, ?_⟩
    rw [lastProfiles_append hkey, ← hraw]
    exact (hc.put hs hvalue).ofFile hsame

/-- After accepted changes everything can be had of the configuration if and only if the last text
    in the place of the profiles, if any, is empty; all but how models are chosen always can. -/
theorem loads_after_changes_iff (fresh : start.read? filePath = none)
    (h : AfterChanges base start settings here) :
    ∃ c, load here filePath = .ok c ∧ (∃ limits, graphLimits c = .ok limits) ∧
      (∃ tokens, tokenBudget c = .ok tokens) ∧
      ((∃ r, routing c = .ok r) ↔ ∀ value, lastProfiles settings = some value → value = "") := by
  obtain ⟨c, hload, hc⟩ := h.exists_load fresh
  exact ⟨c, hload, hc.exists_graphLimits, hc.exists_tokenBudget, hc.exists_routing_iff⟩

/-- A text is accepted in the place of the profiles. -/
theorem afterChanges_text :
    AfterChanges "" [] [("routing.profiles", "x")]
      (run "" [] (.setConfig "routing.profiles" "x")).folder :=
  .changed .unchanged (by decide +kernel) (by decide +kernel)

/-- An empty text in the place of another one makes up for it. -/
theorem loads_after_emptied_profiles :
    let here := (run "" [] (.setConfig "routing.profiles" "x")).folder
    let settings := [("routing.profiles", "x"), ("routing.profiles", "")]
    let last := (run "" here (.setConfig "routing.profiles" "")).folder
    Folder.read? [] filePath = none ∧ AfterChanges "" [] settings last ∧
      ∃ c, load last filePath = .ok c ∧ (∃ limits, graphLimits c = .ok limits) ∧
        (∃ tokens, tokenBudget c = .ok tokens) ∧ ∃ r, routing c = .ok r := by
  intro here settings last
  have hfresh : Folder.read? [] filePath = none := by decide +kernel
  have hchanges : AfterChanges "" [] settings last :=
    afterChanges_text.changed (by decide +kernel) (by decide +kernel)
  obtain ⟨c, hload, hlimits, htokens, hrouting⟩ := loads_after_changes_iff hfresh hchanges
  exact ⟨hfresh, hchanges, c, hload, hlimits, htokens, hrouting.2 (by decide +kernel)⟩

/-- With a text in the place of the profiles it cannot be had how models are chosen. -/
theorem routing_fails_after_change :
    let here := (run "" [] (.setConfig "routing.profiles" "x")).folder
    Folder.read? [] filePath = none ∧ AfterChanges "" [] [("routing.profiles", "x")] here ∧
      ∃ c, load here filePath = .ok c ∧ routing c = .error (.notProfiles "str") := by
  intro here
  have hfresh : Folder.read? [] filePath = none := by decide +kernel
  obtain ⟨c, hload, hc⟩ := afterChanges_text.exists_load hfresh
  exact ⟨hfresh, afterChanges_text, c, hload, hc.routing_eq_error (by decide)⟩

end CodeSurvey.Command
