import CodeSurvey.Config.File
import CodeSurvey.Data
import Mathlib.Data.List.Nodup

/-!
What is found under a name of a configuration. Main statements: of two layers the upper one counts
where it has the name; the order of the entries of a file counts for nothing.
-/

namespace CodeSurvey.Data

variable {entries others : List (Data × Data)} {name other : String} {value : Data}

/-- Every entry has a name of its own. -/
structure Named (entries : List (Data × Data)) : Prop where
  texts : ∀ key ∈ entries.map (·.1), ∃ name, key = .text name
  nodup : (entries.map (·.1)).Nodup

theorem get?_eq_some (h : get? entries name = some value) : (.text name, value) ∈ entries := by
  obtain ⟨⟨key, _⟩, hfind, rfl⟩ := Option.map_eq_some_iff.1 h
  have hkey := List.find?_some hfind
  cases key with
  | text s =>
    obtain rfl : s = name := eq_of_beq hkey
    exact List.mem_of_find?_eq_some hfind
  | _ => exact absurd hkey Bool.false_ne_true

theorem get?_isSome_iff : (get? entries name).isSome ↔ .text name ∈ entries.map (·.1) := by
  induction entries with
  | nil => simp [get?]
  | cons e more ih =>
    obtain ⟨key, value⟩ := e
    by_cases hkey : key = .text name
    · rw [hkey, get?_cons_self]
      simp
    · rw [get?_cons_of_ne hkey, ih, List.map_cons, List.mem_cons]
      exact ⟨.inr, fun h => h.resolve_left fun heq => hkey heq.symm⟩

/-- Putting a value under a new name adds the name behind all others. -/
theorem keys_put (entries : List (Data × Data)) (name : String) (value : Data) :
    (put entries (.text name) value).map (·.1) =
      if .text name ∈ entries.map (·.1) then entries.map (·.1)
      else entries.map (·.1) ++ [.text name] := by
  induction entries with
  | nil => rfl
  | cons e more ih =>
    rw [put]
    by_cases hkey : e.1 = .text name
    · rw [if_pos (sameKey_text.2 hkey), if_pos (by simp [hkey])]
      rfl
    · rw [if_neg (mt sameKey_text.1 hkey), List.map_cons, ih]
      have hne : Data.text name ≠ e.1 := fun heq => hkey heq.symm
      split <;> simp_all

namespace Named

theorem get?_iff (h : Named entries) : get? entries name = some value ↔
    (.text name, value) ∈ entries := by
  refine ⟨get?_eq_some, fun hmem => ?_⟩
  obtain ⟨found, hfound⟩ :=
    Option.isSome_iff_exists.1 (get?_isSome_iff.2 (List.mem_map_of_mem (f := (·.1)) hmem))
  have heq := List.inj_on_of_nodup_map h.nodup (get?_eq_some hfound) hmem rfl
  rw [hfound, (Prod.mk.inj heq).2]

/-- With the same names in another order the entries are named too. -/
theorem of_perm (h : Named entries) (hperm : (others.map (·.1)).Perm (entries.map (·.1))) :
    Named others where
  texts key hkey := h.texts key (hperm.subset hkey)
  nodup := hperm.nodup_iff.2 h.nodup

theorem get?_perm (h : Named entries) (hperm : others.Perm entries) (name : String) :
    get? others name = get? entries name := by
  have hothers := h.of_perm (hperm.map (·.1))
  refine Option.ext fun value => ?_
  rw [hothers.get?_iff, h.get?_iff, hperm.mem_iff]

/-- The entries in front of a named entry have other names. -/
theorem cons_inv {key : Data} (h : Named ((key, value) :: entries)) :
    ∃ name, key = .text name ∧ get? entries name = none ∧ Named entries := by
  obtain ⟨htexts, hmore⟩ := List.forall_mem_cons.1 h.texts
  obtain ⟨name, rfl⟩ := htexts
  obtain ⟨hnotMem, hnodup⟩ := List.nodup_cons.1 h.nodup
  refine ⟨name, rfl, ?_, hmore, hnodup⟩
  exact Option.not_isSome_iff_eq_none.1 fun hsome => hnotMem (get?_isSome_iff.1 hsome)

theorem put (h : Named entries) (name : String) (value : Data) :
    Named (Data.put entries (.text name) value) := by
  have hkeys := keys_put entries name value
  split at hkeys
  · exact h.of_perm (.of_eq hkeys)
  · rename_i hnew
    refine ⟨fun key hkey => ?_, ?_⟩
    · rw [hkeys] at hkey
      rcases List.mem_append.1 hkey with hkey | hkey
      · exact h.texts key hkey
      · exact ⟨name, List.mem_singleton.1 hkey⟩
    · rw [hkeys]
      exact List.concat_eq_append ▸ h.nodup.concat hnew

end Named

/-- What is found after a value was put under a name. -/
theorem get?_put (entries : List (Data × Data)) (name other : String) (value : Data) :
    get? (put entries (.text name) value) other =
      if other = name then some value else get? entries other := by
  split
  · rename_i heq
    rw [heq, get?_put_self]
  · rename_i hne
    exact get?_put_of_ne entries (fun heq => hne (Data.text.inj heq).symm) value

end CodeSurvey.Data

namespace CodeSurvey.Config

open Data

variable {known upper table : List (Data × Data)} {c : Config} {name : String}

/-- Each step puts one entry over the value of its name; `combine` makes the new value of the one
    below, if any, and the one of the entry. -/
def LaysBy (combine : Option Data → Data → Data) (step : Config → Data × Data → Config) : Prop :=
  ∀ c name value, step c (.text name, value) = put c (.text name) (combine (get? c name) value)

section

variable {combine : Option Data → Data → Data} {step : Config → Data × Data → Config}

/-- An entry is laid over the one of its name, wherever among the upper ones it stands. -/
theorem LaysBy.get?_foldl (lays : LaysBy combine step) (h : Named upper) (name : String) :
    get? (upper.foldl step known) name =
      ((get? upper name).map (combine (get? known name))).or (get? known name) := by
  induction upper generalizing known with
  | nil => rfl
  | cons e more ih =>
    obtain ⟨key, value⟩ := e
    obtain ⟨own, rfl, hnone, hmore⟩ := h.cons_inv
    rw [List.foldl_cons, ih hmore, lays, get?_put]
    by_cases heq : name = own
    · -- the names differ, so no later entry goes over this one
      rw [heq, hnone, get?_cons_self, if_pos rfl]
      rfl
    · rw [get?_cons_of_ne fun h => heq (Data.text.inj h).symm, if_neg heq]

theorem LaysBy.named_foldl (lays : LaysBy combine step) (hknown : Named known) (h : Named upper) :
    Named (upper.foldl step known) := by
  induction upper generalizing known with
  | nil => exact hknown
  | cons e more ih =>
    obtain ⟨key, value⟩ := e
    obtain ⟨own, rfl, -, hmore⟩ := h.cons_inv
    rw [List.foldl_cons, lays]
    exact ih (hknown.put own _) hmore

end

theorem laysBy_put : LaysBy (fun _ value => value) fun entries e => put entries e.1 e.2 :=
  fun _ _ _ => rfl

/-- Of two layers the upper one counts where it has the name. -/
theorem get?_layer (h : Named upper) (name : String) :
    get? (layer known upper) name = (get? upper name).or (get? known name) := by
  rw [layer, laysBy_put.get?_foldl h, Option.map_id']

/-- What becomes of the entry of a file over the one of its name. -/
def laid (below : Option Data) : Data → Data
  | .map values =>
    match below with
    | some (.map known) => .map (layer known values)
    | _ => .map values
  | value => value

theorem laysBy_merge : LaysBy laid merge := by
  intro c name value
  cases value with
  | map values =>
    simp only [merge]
    generalize get? c name = below
    rcases below with _ | found
    · rfl
    · cases found <;> rfl
  | _ => rfl

/-! ### Tables up to the order of their entries -/

/-- The same value; in a section the order of the entries does not count. -/
def SameValue : Data → Data → Prop
  | .map as, .map bs => as.Perm bs
  | a, b => a = b

instance (a b : Data) : Decidable (SameValue a b) := by
  unfold SameValue
  split <;> infer_instance

theorem SameValue.exists_perm {a : Data} {bs : List (Data × Data)} (h : SameValue a (.map bs)) :
    ∃ as, a = .map as ∧ as.Perm bs := by
  cases a with
  | map as => exact ⟨as, rfl, h⟩
  | _ => exact ⟨bs, h, .refl bs⟩

/-- The same table; neither in it nor in its sections the order of the entries counts. -/
structure SameTable (as bs : List (Data × Data)) : Prop where
  keys : (as.map (·.1)).Perm (bs.map (·.1))
  values : ∀ e ∈ as, ∃ f ∈ bs, e.1 = f.1 ∧ SameValue e.2 f.2

instance (as bs : List (Data × Data)) : Decidable (SameTable as bs) :=
  decidable_of_iff ((as.map (·.1)).Perm (bs.map (·.1)) ∧
    ∀ e ∈ as, ∃ f ∈ bs, e.1 = f.1 ∧ SameValue e.2 f.2)
    ⟨fun ⟨hkeys, hvalues⟩ => ⟨hkeys, hvalues⟩, fun h => ⟨h.keys, h.values⟩⟩

/-- Of a section the same table has the same entries in some order. -/
theorem SameTable.exists_section {entries : List (Data × Data)} (h : SameTable table c)
    (hc : Named c) (hsection : get? c name = some (.map entries)) :
    ∃ as, get? table name = some (.map as) ∧ as.Perm entries := by
  have hkey : .text name ∈ c.map (·.1) := get?_isSome_iff.1 (by rw [hsection]; rfl)
  obtain ⟨value, hvalue⟩ :=
    Option.isSome_iff_exists.1 (get?_isSome_iff.2 (h.keys.mem_iff.2 hkey))
  obtain ⟨⟨key, other⟩, hmem, hsame, hother⟩ := h.values _ (get?_eq_some hvalue)
  obtain rfl : Data.text name = key := hsame
  obtain rfl : Data.map entries = other :=
    Option.some.inj (hsection.symm.trans (hc.get?_iff.2 hmem))
  obtain ⟨as, rfl, hperm⟩ := hother.exists_perm
  exact ⟨as, hvalue, hperm⟩

/-! ### Complete configurations -/

/-- The value under a name of a section. -/
def valueAt? (c : Config) (sectionName name : String) : Option Data :=
  match get? c sectionName with
  | some (.map entries) => get? entries name
  | _ => none

theorem valueAt?_of_section {sectionName : String} {entries : List (Data × Data)}
    (h : get? c sectionName = some (.map entries)) (name : String) :
    valueAt? c sectionName name = get? entries name := by rw [valueAt?, h]

/-- Every section is there, with all the values that have a default. -/
structure Complete (c : Config) : Prop where
  named : Named c
  exists_section : ∀ s ∈ sections, ∃ entries, get? c s = some (.map entries) ∧ Named entries
  present : ∀ s ∈ sections, ∀ n, (valueAt? defaults s n).isSome → (valueAt? c s n).isSome

theorem complete_defaults : Complete defaults where
  named := ⟨by simp [defaults, entry], by simp [defaults, entry]⟩
  exists_section := by
    intro s hs
    simp only [sections, List.mem_cons, List.not_mem_nil, or_false] at hs
    rcases hs with rfl | rfl | rfl
    · exact ⟨_, rfl, by simp [entry], by simp [entry]⟩
    · exact ⟨_, rfl, by simp [entry], by simp [entry]⟩
    · exact ⟨_, rfl, by simp [entry], by simp [entry]⟩
  present _ _ _ h := h

/-- What was written is in effect again when the same table is read back. -/
theorem Complete.ofFile_same (hc : Complete c) (h : SameTable table c) :
    Complete (ofFile (some table)) ∧
      ∀ s ∈ sections, ∀ n, valueAt? (ofFile (some table)) s n = valueAt? c s n := by
  have htable : Named table := hc.named.of_perm h.keys
  have hsection : ∀ s ∈ sections, ∃ entries, get? (ofFile (some table)) s = some (.map entries) ∧
      Named entries ∧ ∀ n, get? entries n = valueAt? c s n := by
    intro s hs
    obtain ⟨bs, hbs, hnamed⟩ := hc.exists_section s hs
    obtain ⟨as, has, hperm⟩ := h.exists_section hc.named hbs
    obtain ⟨ds, hds, hdefaults⟩ := complete_defaults.exists_section s hs
    have hupper := hnamed.of_perm (hperm.map (·.1))
    refine ⟨layer ds as, ?_, laysBy_put.named_foldl hdefaults hupper, fun n => ?_⟩
    · show get? (table.foldl merge defaults) s = _
      rw [laysBy_merge.get?_foldl htable, has, hds]
      rfl
    · rw [get?_layer hupper, hnamed.get?_perm hperm, valueAt?_of_section hbs]
      have hpresent := hc.present s hs n
      rw [valueAt?_of_section hds, valueAt?_of_section hbs] at hpresent
      cases hvalue : get? bs n with
      | some value => rfl
      | none =>
        rw [hvalue] at hpresent
        exact Option.not_isSome_iff_eq_none.1 fun hsome => absurd (hpresent hsome) (by simp)
  have hvalues : ∀ s ∈ sections, ∀ n, valueAt? (ofFile (some table)) s n = valueAt? c s n := by
    intro s hs n
    obtain ⟨entries, hentries, -, heq⟩ := hsection s hs
    rw [valueAt?_of_section hentries, heq]
  have hnamed := laysBy_merge.named_foldl complete_defaults.named htable
  refine ⟨⟨hnamed, fun s hs => ?_, fun s hs n => ?_⟩, hvalues⟩
  · obtain ⟨entries, hentries, hnamed, -⟩ := hsection s hs
    exact ⟨entries, hentries, hnamed⟩
  · rw [hvalues s hs]
    exact hc.present s hs n

end CodeSurvey.Config
