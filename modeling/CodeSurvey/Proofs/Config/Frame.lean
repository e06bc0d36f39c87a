import CodeSurvey.Proofs.Config.Commands
import CodeSurvey.Proofs.Toml.Tidy

/-!
What changes of single values leave as it was, whatever the configuration file was before. What is
written is assumed to be read back as the same table, but for the order of entries. Main statement:
after accepted changes the configuration in effect is the one before with the changes made to it one
after another, so each changed value is the last one that it was given, read like the one before all
changes, and everything else is as it was.
-/

namespace CodeSurvey.Config

open Data

variable {c e before table : Config} {h : Change} {value : Data} {name s : String}
variable {settings : List (String × String)}

/-! ### The same configurations -/

/-- The table is read back from the text that it is written as, in some order. -/
def GivesBack (c : Config) : Prop :=
  ∀ text, Toml.text c = .ok text →
    ∃ table, Toml.load (Text.unifyLineEnds text) = .ok table ∧ same (.map table) (.map c) = true

instance (c : Config) : Decidable (GivesBack c) :=
  decidableBack c fun table => same (.map table) (.map c) = true

theorem sameAt_valueAt? (hc : Complete c) (he : Complete e) (hsame : same (.map c) (.map e) = true)
    (hs : s ∈ sections) (n : String) : SameAt (valueAt? c s n) (valueAt? e s n) := by
  obtain ⟨as, has, hasNamed⟩ := hc.exists_section s hs
  obtain ⟨bs, hbs, hbsNamed⟩ := he.exists_section s hs
  have hsection := (same_map_iff hc.named he.named).1 hsame s
  rw [has, hbs] at hsection
  rw [valueAt?_of_section has, valueAt?_of_section hbs]
  cases hsection with
  | some hmaps => exact (same_map_iff hasNamed hbsNamed).1 hmaps n

/-- A table that is the same as a complete configuration is complete. -/
theorem Complete.of_same (hc : Complete c) (htidy : Tidy (.map table))
    (hsame : same (.map table) (.map c) = true) : Complete table := by
  have hnames := (same_map_iff htidy.named hc.named).1 hsame
  have hsection : ∀ s ∈ sections, ∃ as bs, get? table s = some (.map as) ∧
      get? c s = some (.map bs) ∧ Named as ∧ Named bs ∧ same (.map as) (.map bs) = true := by
    intro s hs
    obtain ⟨bs, hbs, hbsNamed⟩ := hc.exists_section s hs
    have hat := hnames s
    rw [hbs] at hat
    generalize hfound : get? table s = found at hat
    cases hat with
    | some hmaps =>
      obtain ⟨as, rfl⟩ := exists_map_of_same hmaps
      exact ⟨as, bs, rfl, hbs, (htidy.of_get? hfound).named, hbsNamed, hmaps⟩
  refine ⟨htidy.named, fun s hs => ?_, fun s hs n hn => ?_⟩
  · obtain ⟨as, _, has, _, hnamed, _⟩ := hsection s hs
    exact ⟨as, has, hnamed⟩
  · obtain ⟨as, bs, has, hbs, hasNamed, hbsNamed, hmaps⟩ := hsection s hs
    have hpresent := hc.present s hs n hn
    rw [valueAt?_of_section hbs] at hpresent
    rw [valueAt?_of_section has, isSome_of_sameAt ((same_map_iff hasNamed hbsNamed).1 hmaps n)]
    exact hpresent

/-- The new value depends on nothing but the sort of the old one. -/
theorem coerce_same {raw : String} {a b : Data} (hsame : same a b = true) :
    coerce raw a = coerce raw b := by
  cases a <;> cases b <;> simp_all [same, coerce]

theorem value_of_same (hc : Complete c) (he : Complete e) (hsame : same (.map c) (.map e) = true)
    (hs : h.sectionName ∈ sections) : h.value c = h.value e := by
  rw [hc.value_eq hs, he.value_eq hs]
  have hat := sameAt_valueAt? hc he hsame hs h.name
  generalize valueAt? c h.sectionName h.name = x at hat
  generalize valueAt? e h.sectionName h.name = y at hat
  cases hat with
  | none => rfl
  | some hvalue => exact coerce_same hvalue

theorem isKey_of_coerce {raw : String} {a : Data} (hvalue : coerce raw a = .ok value) :
    value.isKey = true := by
  unfold coerce at hvalue
  split at hvalue
  · exact Except.ok.inj hvalue ▸ rfl
  · split at hvalue
    · exact Except.ok.inj hvalue ▸ rfl
    · cases hvalue
  · exact Except.ok.inj hvalue ▸ rfl

theorem same_put_change (hc : Complete c) (he : Complete e)
    (hsame : same (.map c) (.map e) = true) (hs : h.sectionName ∈ sections)
    (hvalue : value.isKey = true) : same (.map (h.put value c)) (.map (h.put value e)) = true := by
  obtain ⟨as, has, hasNamed⟩ := hc.exists_section _ hs
  obtain ⟨bs, hbs, hbsNamed⟩ := he.exists_section _ hs
  have hsection := (same_map_iff hc.named he.named).1 hsame h.sectionName
  rw [has, hbs] at hsection
  rw [Change.put, Change.put, has, hbs]
  cases hsection with
  | some hmaps =>
    exact same_put hc.named he.named hsame _
      (same_put hasNamed hbsNamed hmaps _ ((same_iff_eq hvalue).2 rfl))

theorem get?_defaults (hname : name ∉ sections) : get? defaults name = none := by
  rw [← Option.not_isSome_iff_eq_none, get?_isSome_iff]
  intro hmem
  refine hname ?_
  simpa [defaults, entry, sections] using hmem

/-- Laying a complete table over the defaults leaves it the same. -/
theorem same_ofFile (htidy : Tidy (.map table)) (ht : Complete table) :
    same (.map (ofFile (some table))) (.map table) = true := by
  have hnamed := laysBy_merge.named_foldl complete_defaults.named htidy.named
  refine (same_map_iff hnamed htidy.named).2 fun name => ?_
  show SameAt (get? (table.foldl merge defaults) name) _
  rw [laysBy_merge.get?_foldl htidy.named]
  by_cases hname : name ∈ sections
  · obtain ⟨as, has, hasNamed⟩ := ht.exists_section name hname
    obtain ⟨ds, hds, hdsNamed⟩ := complete_defaults.exists_section name hname
    rw [has, hds]
    refine .some ((same_map_iff (laysBy_put.named_foldl hdsNamed hasNamed) hasNamed).2 fun n => ?_)
    have hlayer : get? (layer ds as) n = (get? as n).or (get? ds n) := get?_layer hasNamed n
    rw [layer] at hlayer
    rw [hlayer]
    have hpresent := ht.present name hname n
    rw [valueAt?_of_section hds, valueAt?_of_section has] at hpresent
    cases hn : get? as n with
    | some v => exact .some ((htidy.of_get? has).of_get? hn).same_refl
    | none =>
      have hnone : get? ds n = none := by
        rw [← Option.not_isSome_iff_eq_none]
        exact fun hsome => absurd (hpresent hsome) (by simp [hn])
      rw [hnone]
      exact .none
  · rw [get?_defaults hname]
    cases hv : get? table name with
    | none => exact .none
    | some v =>
      have hlaid : laid none v = v := by cases v <;> rfl
      rw [Option.map_some, hlaid]
      exact .some (htidy.of_get? hv).same_refl

/-! ### Files -/

/-- The value is a table. -/
def isTable : Data → Bool
  | .map _ => true
  | _ => false

theorem exists_of_isTable (htable : isTable value = true) : ∃ entries, value = .map entries := by
  cases value with
  | map entries => exact ⟨entries, rfl⟩
  | _ => cases htable

/-- Each of the sections that the configuration file has, if it can be read, is a table. -/
def HasTables (here : Folder) : Prop :=
  ∀ content ∈ here.read? filePath, ∀ file ∈ (Config.read content).toOption, ∀ table ∈ file,
    ∀ s ∈ sections, ∀ value ∈ get? table s, isTable value = true

instance (here : Folder) : Decidable (HasTables here) := by
  unfold HasTables
  infer_instance

/-- Laying tidy entries over tidy ones gives tidy ones if each step makes a tidy value. -/
theorem LaysBy.tidy_foldl {combine : Option Data → Data → Data}
    {step : Config → Data × Data → Config} {known upper : List (Data × Data)}
    (lays : LaysBy combine step)
    (hcombine : ∀ below value, (∀ b ∈ below, Tidy b) → Tidy value → Tidy (combine below value))
    (hknown : Tidy (.map known)) (hupper : Tidy (.map upper)) :
    Tidy (.map (upper.foldl step known)) := by
  have hnamed := lays.named_foldl hknown.named hupper.named
  refine .map hnamed fun e he => ?_
  obtain ⟨name, hname⟩ := hnamed.texts e.1 (List.mem_map_of_mem he)
  have hfound : get? (upper.foldl step known) name = some e.2 := hnamed.get?_iff.2 (hname ▸ he)
  rw [lays.get?_foldl hupper.named] at hfound
  cases hvalue : get? upper name with
  | none =>
    rw [hvalue] at hfound
    exact hknown.of_get? hfound
  | some value =>
    rw [hvalue] at hfound
    exact Option.some.inj hfound ▸
      hcombine _ _ (fun b hb => hknown.of_get? hb) (hupper.of_get? hvalue)

theorem tidy_laid (below : Option Data) (value : Data) (hbelow : ∀ b ∈ below, Tidy b)
    (hvalue : Tidy value) : Tidy (laid below value) := by
  unfold laid
  split
  · split
    · exact laysBy_put.tidy_foldl (fun _ _ _ h => h) (hbelow _ rfl) hvalue
    · exact hvalue
  · exact hvalue

theorem tidy_defaults : Tidy (.map defaults) := by
  have hnone : ∀ e ∈ ([] : List (Data × Data)), Tidy e.2 := by simp
  have hplain : ∀ {name : String} {v : Data}, v.isKey = true → Tidy (entry name v).2 := .plain
  refine .map complete_defaults.named ?_
  simp only [defaults, List.forall_mem_cons]
  refine ⟨?_, ?_, ?_, hnone⟩
  · refine .map (by constructor <;> simp [entry]) ?_
    exact List.forall_mem_cons.2 ⟨hplain rfl, List.forall_mem_cons.2 ⟨tidy_empty, hnone⟩⟩
  · refine .map (by constructor <;> simp [entry]) ?_
    exact List.forall_mem_cons.2 ⟨hplain rfl, List.forall_mem_cons.2 ⟨hplain rfl, hnone⟩⟩
  · refine .map (by constructor <;> simp [entry]) ?_
    exact List.forall_mem_cons.2 ⟨hplain rfl, hnone⟩

theorem tidy_ofFile (htidy : Tidy (.map table)) : Tidy (.map (ofFile (some table))) :=
  laysBy_merge.tidy_foldl tidy_laid tidy_defaults htidy

theorem complete_ofFile (htidy : Tidy (.map table))
    (htables : ∀ s ∈ sections, ∀ value ∈ get? table s, isTable value = true) :
    Complete (ofFile (some table)) := by
  have hsection : ∀ s ∈ sections, ∃ entries, get? (ofFile (some table)) s = some (.map entries) ∧
      ∀ n, (valueAt? defaults s n).isSome → (get? entries n).isSome := by
    intro s hs
    obtain ⟨ds, hds, hdsNamed⟩ := complete_defaults.exists_section s hs
    have hget : get? (ofFile (some table)) s = _ := laysBy_merge.get?_foldl htidy.named s
    rw [hget, hds]
    cases hvalue : get? table s with
    | none => exact ⟨ds, rfl, fun n hn => by rwa [valueAt?_of_section hds] at hn⟩
    | some value =>
      obtain ⟨as, rfl⟩ := exists_of_isTable (htables s hs value hvalue)
      refine ⟨layer ds as, rfl, fun n hn => ?_⟩
      rw [valueAt?_of_section hds] at hn
      rw [get?_layer (htidy.of_get? hvalue).named]
      cases get? as n with
      | none => exact hn
      | some v => rfl
  have hall := tidy_ofFile htidy
  refine ⟨hall.named, fun s hs => ?_, fun s hs n hn => ?_⟩
  · obtain ⟨entries, hentries, -⟩ := hsection s hs
    exact ⟨entries, hentries, (hall.of_get? hentries).named⟩
  · obtain ⟨entries, hentries, hpresent⟩ := hsection s hs
    rw [valueAt?_of_section hentries]
    exact hpresent n hn

theorem tidy_read {content : List UInt8} (hread : Config.read content = .ok (some table)) :
    Tidy (.map table) := by
  unfold Config.read at hread
  cases htext : (Text.Utf8.decode content).mapError Error.undecodable with
  | error e =>
    rw [htext] at hread
    cases hread
  | ok text =>
    simp only [htext, bind, Except.bind] at hread
    split at hread
    · rename_i hentries
      obtain rfl := Option.some.inj (Except.ok.inj hread)
      exact Toml.tidy_load hentries
    · cases hread
    · cases hread

/-- What is loaded of a folder whose sections are tables. -/
theorem complete_of_load {here : Folder} (hload : load here filePath = .ok c)
    (htables : HasTables here) : Complete c ∧ Tidy (.map c) := by
  unfold load at hload
  split at hload
  · obtain rfl := Except.ok.inj hload
    exact ⟨complete_defaults, tidy_defaults⟩
  · rename_i content hcontent
    cases hread : Config.read content with
    | error e =>
      rw [hread] at hload
      cases hload
    | ok file =>
      rw [hread] at hload
      obtain rfl := Except.ok.inj hload
      cases file with
      | none => exact ⟨complete_defaults, tidy_defaults⟩
      | some table =>
        have htidy := tidy_read hread
        have hfile : some table ∈ (Config.read content).toOption := by
          rw [hread]
          rfl
        exact ⟨complete_ofFile htidy (htables content hcontent _ hfile table rfl),
          tidy_ofFile htidy⟩

/-! ### Changes one after another -/

/-- The configuration after changes one after another, each read like the value that it replaces. -/
def applyAll (c : Config) (settings : List (String × String)) : Except Refusal Config :=
  settings.foldlM (fun c e => do (← Change.ofKey e.1 e.2).apply c) c

/-- The last text, if any, that changes give for a value. -/
def lastRaw? (settings : List (String × String)) (s n : String) : Option String :=
  settings.reverse.lookup (s ++ "." ++ n)

/-- The configuration has everything of the one before, but for the values that were changed. Each
    of them is the last text that was given for it, read like the value there before. -/
structure Differs (before : Config) (settings : List (String × String)) (c : Config) : Prop where
  complete : Complete c
  others : ∀ name, name ∉ sections → get? c name = get? before name
  values : ∀ s ∈ sections, ∀ n, match lastRaw? settings s n with
    | none => valueAt? c s n = valueAt? before s n
    | some raw => ∃ value, coerce raw ((valueAt? before s n).getD (.text "")) = .ok value ∧
        valueAt? c s n = some value

/-- A section and a name make a key that no other ones make. -/
theorem key_inj {s' n n' : String} (hs : s ∈ sections) (hs' : s' ∈ sections) :
    s ++ "." ++ n = s' ++ "." ++ n' ↔ s = s' ∧ n = n' := by
  simp only [sections, List.mem_cons, List.not_mem_nil, or_false] at hs hs'
  have hname : n = n' ↔ n.toList = n'.toList := String.toList_inj.symm
  rw [← String.toList_inj, hname]
  rcases hs with rfl | rfl | rfl <;> rcases hs' with rfl | rfl | rfl <;> simp

theorem lastRaw?_append {key raw n : String} (hkey : Change.ofKey key raw = .ok h)
    (hs : s ∈ sections) : lastRaw? (settings ++ [(key, raw)]) s n =
      if h.sectionName = s ∧ h.name = n then some h.raw else lastRaw? settings s n := by
  obtain ⟨rfl, hsection, hraw⟩ := ofKey_eq_ok hkey
  rw [lastRaw?, List.reverse_append, List.reverse_singleton, List.singleton_append,
    List.lookup_cons]
  by_cases heq : h.sectionName = s ∧ h.name = n
  · rw [if_pos heq, beq_iff_eq.2 ((key_inj hsection hs).2 heq).symm, hraw]
  · rw [if_neg heq, beq_false_of_ne fun hsame => heq ((key_inj hsection hs).1 hsame.symm)]
    rfl

/-- A value that was read like another one is of its sort, as far as reading goes. -/
theorem coerce_of_coerce {raw raw' : String} {a : Data} (hvalue : coerce raw a = .ok value) :
    coerce raw' value = coerce raw' a := by
  cases a with
  | bool b => exact Except.ok.inj hvalue ▸ rfl
  | int n =>
    obtain ⟨m, rfl⟩ := exists_int_of_coerce hvalue
    rfl
  | _ => exact Except.ok.inj hvalue ▸ rfl

theorem differs_self (hc : Complete before) : Differs before [] before where
  complete := hc
  others _ _ := rfl
  values _ _ _ := rfl

/-- One more change makes its difference. -/
theorem Differs.put {key raw : String} (hc : Differs before settings c)
    (hkey : Change.ofKey key raw = .ok h) (hvalue : h.value c = .ok value) :
    Differs before (settings ++ [(key, raw)]) (h.put value c) := by
  obtain ⟨-, hs, -⟩ := ofKey_eq_ok hkey
  obtain ⟨hcomplete, hvalues⟩ := hc.complete.put_change hs value
  rw [hc.complete.value_eq hs] at hvalue
  refine ⟨hcomplete, fun name hname => ?_, fun s hsection n => ?_⟩
  · rw [← hc.others name hname, Change.put, get?_put, if_neg]
    rintro rfl
    exact hname hs
  · have hbefore := hc.values s hsection n
    rw [lastRaw?_append hkey hsection, hvalues]
    by_cases heq : h.sectionName = s ∧ h.name = n
    · obtain ⟨rfl, rfl⟩ := heq
      rw [if_pos ⟨rfl, rfl⟩, if_pos ⟨rfl, rfl⟩]
      refine ⟨value, ?_, rfl⟩
      cases hlast : lastRaw? settings h.sectionName h.name with
      | none =>
        rw [hlast] at hbefore
        exact hbefore ▸ hvalue
      | some earlier =>
        rw [hlast] at hbefore
        obtain ⟨old, hold, hat⟩ := hbefore
        rw [hat] at hvalue
        rw [← coerce_of_coerce hold]
        exact hvalue
    · rw [if_neg heq, if_neg heq]
      exact hbefore

theorem applyAll_append {key raw : String} (hc : applyAll before settings = .ok c)
    (hkey : Change.ofKey key raw = .ok h) (hvalue : h.value c = .ok value) :
    applyAll before (settings ++ [(key, raw)]) = .ok (h.put value c) := by
  rw [applyAll] at hc
  rw [applyAll, List.foldlM_append, hc]
  show (do let h ← Change.ofKey key raw; h.apply c) >>= pure = _
  rw [hkey]
  show (do return h.put (← h.value c) c) >>= pure = _
  rw [hvalue]
  rfl

end CodeSurvey.Config

namespace CodeSurvey.Command

open Data Config

variable {base : String} {start here : Folder} {before : Config}
variable {settings : List (String × String)}

/-- What is left in a folder by accepted changes of the configuration, each of which is given back
    as it was written, in some order. -/
inductive AfterAccepted (base : String) (start : Folder) : List (String × String) → Folder → Prop
  | unchanged : AfterAccepted base start [] start
  | changed {settings : List (String × String)} {here : Folder} {key value : String}
      (before : AfterAccepted base start settings here)
      (accepted : Succeeds (run base here (.setConfig key value)))
      (back : ∀ c ∈ written? here key value, GivesBack c) :
      AfterAccepted base start (settings ++ [(key, value)])
        (run base here (.setConfig key value)).folder

/-- What is loaded after accepted changes. -/
theorem AfterAccepted.exists_load (h : AfterAccepted base start settings here)
    (hload : load start filePath = .ok before) (htables : HasTables start) :
    ∃ after expected, load here filePath = .ok after ∧ Complete after ∧
      applyAll before settings = .ok expected ∧ Differs before settings expected ∧
      same (.map after) (.map expected) = true := by
  obtain ⟨hbefore, htidy⟩ := complete_of_load hload htables
  induction h with
  | unchanged => exact ⟨before, before, hload, hbefore, rfl, differs_self hbefore, htidy.same_refl⟩
  | @changed settings here key raw _ accepted back ih =>
    obtain ⟨c, e, hload', hc, he, hdiffers, hsame⟩ := ih
    obtain ⟨step, c', v, text, hkey, hload'', hvalue, htext, hwritten, hfolder⟩ :=
      exists_of_succeeds accepted
    obtain rfl := Except.ok.inj (hload'.symm.trans hload'')
    obtain ⟨-, hs, -⟩ := ofKey_eq_ok hkey
    obtain ⟨table, htable, hback⟩ := back _ hwritten text htext
    have hput := (hc.put_change hs v).1
    have htidyTable := Toml.tidy_load htable
    have hcomplete := hput.of_same htidyTable hback
    have hkeyValue : v.isKey = true := isKey_of_coerce (hc.value_eq hs ▸ hvalue)
    have hexpected : step.value e = .ok v :=
      (value_of_same hc hdiffers.complete hsame hs).symm.trans hvalue
    refine ⟨ofFile (some table), step.put v e, ?_, ?_, applyAll_append he hkey hexpected,
      hdiffers.put hkey hexpected, ?_⟩
    · rw [hfolder]
      exact load_write_table here htable
    · refine complete_ofFile htidyTable fun s hs value hvalue => ?_
      obtain ⟨entries, hentries, -⟩ := hcomplete.exists_section s hs
      rw [Option.some.inj (hvalue.symm.trans hentries)]
      rfl
    · exact same_trans (same_ofFile htidyTable hcomplete)
        (same_trans hback (same_put_change hc hdiffers.complete hsame hs hkeyValue))

/-- After accepted changes the configuration in effect is the one before with the changes made to
    it, which makes a difference for the changed values alone. -/
theorem load_after_accepted (hload : load start filePath = .ok before) (htables : HasTables start)
    (h : AfterAccepted base start settings here) :
    ∃ after expected, load here filePath = .ok after ∧ applyAll before settings = .ok expected ∧
      same (.map after) (.map expected) = true ∧ Differs before settings expected := by
  obtain ⟨after, expected, hafter, -, hexpected, hdiffers, hsame⟩ := h.exists_load hload htables
  exact ⟨after, expected, hafter, hexpected, hsame, hdiffers⟩

/-- A file with a section of its own; the depth of the graph is changed twice. -/
theorem load_after_accepted_twice :
    let text := "[graph]\nmax_depth=4\n[x]\ny=1".toList
    let start := Folder.write [] (Text.Utf8.encode text) fileSteps
    let settings := [("graph.max_depth", "7"), ("graph.max_depth", "9")]
    let once := (run "" start (.setConfig "graph.max_depth" "7")).folder
    let here := (run "" once (.setConfig "graph.max_depth" "9")).folder
    HasTables start ∧ AfterAccepted "" start settings here ∧
      ∃ before after expected, load start filePath = .ok before ∧ load here filePath = .ok after ∧
        same (.map after) (.map expected) = true ∧
        valueAt? expected "graph" "max_depth" = some (.int 9) ∧
        get? expected "x" = get? before "x" := by
  intro text start settings once here
  have htables : HasTables start := by decide +kernel
  have honce : AfterAccepted "" start [("graph.max_depth", "7")] once :=
    .changed .unchanged (by decide +kernel) (by decide +kernel)
  have hall : AfterAccepted "" start settings here :=
    honce.changed (by decide +kernel) (by decide +kernel)
  have hdepth : (load start filePath).toOption.bind (valueAt? · "graph" "max_depth") =
      some (.int 4) := by decide +kernel
  obtain ⟨before, hloaded, hvalue⟩ := Option.bind_eq_some_iff.1 hdepth
  have hload : load start filePath = .ok before := by
    cases h : load start filePath with
    | error e => rw [h] at hloaded; cases hloaded
    | ok c => rw [h] at hloaded; cases hloaded; rfl
  obtain ⟨after, expected, hafter, -, hsame, hdiffers⟩ := load_after_accepted hload htables hall
  refine ⟨htables, hall, before, after, expected, hload, hafter, hsame, ?_,
    hdiffers.others "x" (by decide)⟩
  have hlast : lastRaw? settings "graph" "max_depth" = some "9" := by decide +kernel
  have hchanged := hdiffers.values "graph" (by decide) "max_depth"
  rw [hlast, hvalue] at hchanged
  obtain ⟨value, hcoerce, hat⟩ := hchanged
  have hnine : coerce "9" (.int 4) = .ok (.int 9) := rfl
  rw [hat, ← Except.ok.inj (hnine.symm.trans hcoerce)]

end CodeSurvey.Command
