import CodeSurvey.Config.Change
import CodeSurvey.Proofs.Config.Layers

/-!
A configuration under changes of single values. Main statements: a change keeps the type of the
whole numbers and turns the profiles, which are a table, into a text; so the bounds of the graph and
of the overview can be had of a changed configuration, and how models are chosen can be had if and
only if the profiles are still a table or the text in their place is empty.
-/

namespace CodeSurvey.Config

open Data

variable {c : Config} {h : Change} {value : Data} {key raw : String} {last : Option String}

/-! ### One change -/

/-- The key of a change: its section and its name with a point between. -/
theorem ofKey_eq_ok (hkey : Change.ofKey key raw = .ok h) :
    key = h.sectionName ++ "." ++ h.name ∧ h.sectionName ∈ sections ∧ h.raw = raw := by
  unfold Change.ofKey at hkey
  simp only at hkey
  split at hkey
  · simp at hkey
  rename_i hgood
  obtain rfl := Except.ok.inj hkey
  simp only [Bool.or_eq_true, beq_iff_eq, Bool.not_eq_true', not_or, Bool.not_eq_false] at hgood
  obtain ⟨hname, hsection⟩ := hgood
  refine ⟨String.toList_inj.1 ?_, List.contains_iff_mem.1 hsection, rfl⟩
  have hcut := List.takeWhile_append_dropWhile (p := (· != '.')) (l := key.toList)
  generalize key.toList.takeWhile (· != '.') = front at hcut hname hsection ⊢
  cases hrest : key.toList.dropWhile (· != '.') with
  | nil =>
    rw [hrest, List.append_nil] at hcut
    exact absurd (by rw [hcut, List.drop_eq_nil_of_le (Nat.le_succ _)]) hname
  | cons point name =>
    have hpoint := List.head?_dropWhile_not (· != '.') key.toList
    rw [hrest] at hpoint hcut
    obtain rfl : point = '.' := by simpa using hpoint
    have hdrop : key.toList.drop (front.length + 1) = name := by
      rw [← hcut]
      simp [List.drop_append]
    rw [hdrop, ← hcut]
    simp

/-- A change is a change of one value. -/
theorem Complete.put_change (hc : Complete c) (hs : h.sectionName ∈ sections) (value : Data) :
    Complete (h.put value c) ∧ ∀ s n, valueAt? (h.put value c) s n =
      if h.sectionName = s ∧ h.name = n then some value else valueAt? c s n := by
  obtain ⟨entries, hentries, hnamed⟩ := hc.exists_section _ hs
  have hput : h.put value c =
      Data.put c (.text h.sectionName) (.map (Data.put entries (.text h.name) value)) := by
    rw [Change.put, hentries]
  have hsame : get? (h.put value c) h.sectionName =
      some (.map (Data.put entries (.text h.name) value)) := by
    rw [hput, get?_put_self]
  have hother : ∀ s, s ≠ h.sectionName → get? (h.put value c) s = get? c s := fun s hne => by
    rw [hput, get?_put, if_neg hne]
  have hvalues : ∀ s n, valueAt? (h.put value c) s n =
      if h.sectionName = s ∧ h.name = n then some value else valueAt? c s n := by
    intro s n
    by_cases heq : s = h.sectionName
    · rw [heq, valueAt?_of_section hsame, valueAt?_of_section hentries, get?_put]
      simp [eq_comm]
    · rw [valueAt?, hother s heq, if_neg fun h => heq h.1.symm, valueAt?]
  refine ⟨⟨hput ▸ hc.named.put _ _, fun s hs => ?_, fun s hs n hn => ?_⟩, hvalues⟩
  · by_cases heq : s = h.sectionName
    · exact ⟨_, heq ▸ hsame, hnamed.put _ _⟩
    · rw [hother s heq]
      exact hc.exists_section s hs
  · rw [hvalues]
    split
    · rfl
    · exact hc.present s hs n hn

theorem Complete.exists_values {sectionName : String} (hc : Complete c)
    (hs : sectionName ∈ sections) : ∃ entries, values c sectionName = .ok entries ∧
      ∀ name, get? entries name = valueAt? c sectionName name := by
  obtain ⟨entries, hentries, -⟩ := hc.exists_section _ hs
  exact ⟨entries, by rw [values, hentries], fun name => (valueAt?_of_section hentries name).symm⟩

/-- The new value is read like the one that it replaces, and like a text where there is none. -/
theorem Complete.value_eq (hc : Complete c) (hs : h.sectionName ∈ sections) :
    h.value c = coerce h.raw ((valueAt? c h.sectionName h.name).getD (.text "")) := by
  obtain ⟨entries, hentries, hget⟩ := hc.exists_values hs
  rw [← hget, Change.value, hentries]
  rfl

/-- A text in the place of a whole number is read as one. -/
theorem exists_int_of_coerce {n : Int} (h : coerce raw (.int n) = .ok value) :
    ∃ m, value = .int m := by
  rw [coerce] at h
  split at h
  · exact ⟨_, (Except.ok.inj h).symm⟩
  · simp at h

/-! ### What every change keeps -/

/-- The values that are whole numbers. -/
def wholeKeys : List (String × String) :=
  [("graph", "max_workers"), ("graph", "max_depth"), ("repo_map", "token_budget")]

/-- The profiles after the last text, if any, that was put in their place. -/
def profilesAfter (last : Option String) : Data := last.elim (.map []) .text

/-- What holds of a configuration that was changed value by value. -/
structure Changed (last : Option String) (c : Config) : Prop where
  complete : Complete c
  whole : ∀ key ∈ wholeKeys, ∃ n, valueAt? c key.1 key.2 = some (.int n)
  profiles : valueAt? c "routing" "profiles" = some (profilesAfter last)

theorem changed_defaults : Changed none defaults where
  complete := complete_defaults
  whole := by
    intro key hkey
    simp only [wholeKeys, List.mem_cons, List.not_mem_nil, or_false] at hkey
    rcases hkey with rfl | rfl | rfl
    · exact ⟨_, rfl⟩
    · exact ⟨_, rfl⟩
    · exact ⟨_, rfl⟩
  profiles := rfl

theorem Changed.put (hc : Changed last c) (hs : h.sectionName ∈ sections)
    (hvalue : h.value c = .ok value) :
    Changed (if h.sectionName = "routing" ∧ h.name = "profiles" then some h.raw else last)
      (h.put value c) := by
  obtain ⟨hcomplete, hvalues⟩ := hc.complete.put_change hs value
  rw [hc.complete.value_eq hs] at hvalue
  refine ⟨hcomplete, fun key hkey => ?_, ?_⟩
  · obtain ⟨n, hn⟩ := hc.whole key hkey
    rw [hvalues]
    split
    · rename_i heq
      rw [heq.1, heq.2, hn] at hvalue
      obtain ⟨m, rfl⟩ := exists_int_of_coerce hvalue
      exact ⟨m, rfl⟩
    · exact ⟨n, hn⟩
  · rw [hvalues]
    split
    · rename_i heq
      rw [heq.1, heq.2, hc.profiles] at hvalue
      cases last <;> exact congrArg some (Except.ok.inj hvalue).symm
    · exact hc.profiles

theorem Changed.ofFile {table : List (Data × Data)} (hc : Changed last c)
    (same : SameTable table c) : Changed last (ofFile (some table)) := by
  obtain ⟨hcomplete, hvalues⟩ := hc.complete.ofFile_same same
  refine ⟨hcomplete, fun key hkey => ?_, ?_⟩
  · have hsection : ∀ key ∈ wholeKeys, key.1 ∈ sections := by decide
    rw [hvalues _ (hsection key hkey)]
    exact hc.whole key hkey
  · rw [hvalues "routing" (by decide), hc.profiles]

/-! ### What can be had of a changed configuration -/

theorem Changed.exists_number (hc : Changed last c) (key : String × String)
    (hkey : key ∈ wholeKeys) (hs : key.1 ∈ sections) (default : Int) :
    ∃ entries n, values c key.1 = .ok entries ∧ number entries key.2 default = .ok n := by
  obtain ⟨entries, hentries, hget⟩ := hc.complete.exists_values hs
  obtain ⟨n, hn⟩ := hc.whole key hkey
  refine ⟨entries, n, hentries, ?_⟩
  rw [number, hget, hn]
  rfl

theorem Changed.exists_graphLimits (hc : Changed last c) :
    ∃ limits, graphLimits c = .ok limits := by
  obtain ⟨entries, workers, hvalues, hworkers⟩ :=
    hc.exists_number ("graph", "max_workers") (by decide) (by decide) defaultMaxWorkers
  obtain ⟨_, depth, hvalues', hdepth⟩ :=
    hc.exists_number ("graph", "max_depth") (by decide) (by decide) defaultMaxDepth
  obtain rfl := Except.ok.inj (hvalues.symm.trans hvalues')
  refine ⟨⟨workers, depth⟩, ?_⟩
  simp only at hvalues hworkers hdepth
  rw [graphLimits, hvalues]
  simp only [bind, Except.bind, hworkers, hdepth]
  rfl

theorem Changed.exists_tokenBudget (hc : Changed last c) :
    ∃ tokens, tokenBudget c = .ok tokens := by
  obtain ⟨entries, tokens, hvalues, htokens⟩ :=
    hc.exists_number ("repo_map", "token_budget") (by decide) (by decide)
      RepoMap.defaultBudget
  refine ⟨tokens, ?_⟩
  simp only at hvalues htokens
  rw [tokenBudget, hvalues]
  exact htokens

/-- A text in the place of the profiles is no table, and only an empty one counts as none. -/
theorem Changed.routing_eq_error {text : String} (hc : Changed (some text) c) (h : text ≠ "") :
    routing c = .error (.notProfiles "str") := by
  obtain ⟨entries, hentries, hget⟩ :=
    hc.complete.exists_values (show "routing" ∈ sections by decide)
  have hfilled : (profilesAfter (some text)).isMissing = false := by
    simpa [profilesAfter, isMissing] using h
  rw [routing, hentries]
  simp only [bind, Except.bind, hget, hc.profiles, Option.getD_some, hfilled]
  rfl

/-- How models are chosen can be had unless a text with something in it replaces the profiles. -/
theorem Changed.exists_routing_iff (hc : Changed last c) :
    (∃ r, routing c = .ok r) ↔ ∀ text, last = some text → text = "" := by
  constructor
  · rintro ⟨r, hr⟩ text rfl
    by_contra hne
    rw [hc.routing_eq_error hne] at hr
    simp at hr
  · intro hempty
    obtain ⟨entries, hentries, hget⟩ :=
      hc.complete.exists_values (show "routing" ∈ sections by decide)
    have hmissing : (profilesAfter last).isMissing = true := by
      cases last with
      | none => rfl
      | some text => simp [profilesAfter, isMissing, hempty text rfl]
    rw [routing, hentries]
    simp only [bind, Except.bind, hget, hc.profiles, Option.getD_some, hmissing]
    exact ⟨_, rfl⟩

end CodeSurvey.Config
