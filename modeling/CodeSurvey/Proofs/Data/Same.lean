import CodeSurvey.Proofs.Config.Layers
import Mathlib.Data.List.Perm.Subperm

/-!
Values up to the order of the entries of maps. Two maps with names of their own are the same if and
only if they have the same value, or none, under every name.
-/

namespace CodeSurvey.Data

mutual

/-- The values are the same but for the order of the entries of maps. -/
def same : Data → Data → Bool
  | .list as, .list bs => sameItems as bs
  | .map as, .map bs => as.length == bs.length && sameEntries as bs
  | a, b => a == b

/-- The values are the same one by one. -/
def sameItems : List Data → List Data → Bool
  | [], [] => true
  | a :: as, b :: bs => same a b && sameItems as bs
  | _, _ => false

/-- Under the key of each entry the others have the same value. -/
def sameEntries : List (Data × Data) → List (Data × Data) → Bool
  | [], _ => true
  | (key, a) :: as, bs => (bs.find? (·.1 == key)).any (fun f => same a f.2) && sameEntries as bs

end

/-- The value is a list or a map of lists and maps, and so on, in which every map has each name
    once. -/
inductive Tidy : Data → Prop where
  | map {entries : List (Data × Data)} (named : Named entries) (values : ∀ e ∈ entries, Tidy e.2) :
      Tidy (.map entries)
  | list {items : List Data} (values : ∀ a ∈ items, Tidy a) : Tidy (.list items)
  | plain {a : Data} (h : a.isKey = true) : Tidy a

/-- The same value, or none, in both places. -/
abbrev SameAt : Option Data → Option Data → Prop := Option.Rel fun a b => same a b = true

variable {a b c : Data} {as bs cs entries others : List (Data × Data)} {name : String}

/-! ### An equivalence -/

theorem same_list_iff {items : List Data} :
    same (.list items) b = true ↔ ∃ others, b = .list others ∧ sameItems items others = true := by
  cases b <;> simp [same]

theorem same_map_iff_entries : same (.map as) b = true ↔
    ∃ bs, b = .map bs ∧ as.length = bs.length ∧ sameEntries as bs = true := by
  cases b <;> simp [same]

theorem exists_map_of_same (h : same a (.map bs) = true) : ∃ as, a = .map as := by
  cases a <;> simp_all [same]

/-- A value that can be a key is the same as no other one. -/
theorem same_iff_eq (ha : a.isKey = true) : same a b = true ↔ a = b := by
  cases a <;> first | exact absurd ha Bool.false_ne_true | simp [same]

theorem mem_of_find?_key {key : Data} {f : Data × Data}
    (h : entries.find? (·.1 == key) = some f) : f ∈ entries ∧ f.1 = key :=
  ⟨List.mem_of_find?_eq_some h, by simpa using List.find?_some h⟩

theorem sameEntries_iff : sameEntries as bs = true ↔
    ∀ e ∈ as, ∃ f, bs.find? (·.1 == e.1) = some f ∧ same e.2 f.2 = true := by
  induction as with
  | nil => simp [sameEntries]
  | cons e more ih =>
    rw [sameEntries, Bool.and_eq_true, ih, List.forall_mem_cons, Option.any_eq_true]

mutual

theorem same_trans : ∀ {a b c : Data}, same a b = true → same b c = true → same a c = true
  | .list items, b, c, hab, hbc => by
    obtain ⟨others, rfl, hab⟩ := same_list_iff.1 hab
    obtain ⟨more, rfl, hbc⟩ := same_list_iff.1 hbc
    exact same_list_iff.2 ⟨more, rfl, sameItems_trans hab hbc⟩
  | .map as, b, c, hab, hbc => by
    obtain ⟨bs, rfl, hlength, hab⟩ := same_map_iff_entries.1 hab
    obtain ⟨cs, rfl, hlength', hbc⟩ := same_map_iff_entries.1 hbc
    exact same_map_iff_entries.2 ⟨cs, rfl, hlength.trans hlength', sameEntries_trans hab hbc⟩
  | .null, b, c, hab, hbc | .bool _, b, c, hab, hbc | .int _, b, c, hab, hbc
  | .float _, b, c, hab, hbc | .text _, b, c, hab, hbc | .date _, b, c, hab, hbc
  | .time _, b, c, hab, hbc | .moment _, b, c, hab, hbc | .bytes _, b, c, hab, hbc => by
    rw [(same_iff_eq rfl).1 hab]
    exact hbc
  | .set items, b, c, hab, hbc => by
    obtain rfl : Data.set items = b := by cases b <;> simp_all [same]
    exact hbc

theorem sameItems_trans : ∀ {items others more : List Data}, sameItems items others = true →
    sameItems others more = true → sameItems items more = true
  | [], [], [], _, _ => rfl
  | a :: items, b :: others, c :: more, hab, hbc => by
    rw [sameItems, Bool.and_eq_true] at hab hbc ⊢
    exact ⟨same_trans hab.1 hbc.1, sameItems_trans hab.2 hbc.2⟩
  | [], [], _ :: _, _, hbc => by cases hbc
  | [], _ :: _, _, hab, _ => by cases hab
  | _ :: _, [], _, hab, _ => by cases hab
  | _ :: _, _ :: _, [], _, hbc => by cases hbc

theorem sameEntries_trans : ∀ {as bs cs : List (Data × Data)}, sameEntries as bs = true →
    sameEntries bs cs = true → sameEntries as cs = true
  | [], _, _, _, _ => rfl
  | (key, a) :: as, bs, cs, hab, hbc => by
    rw [sameEntries, Bool.and_eq_true, Option.any_eq_true] at hab ⊢
    obtain ⟨⟨f, hf, hsame⟩, hmore⟩ := hab
    obtain ⟨hmem, rfl⟩ := mem_of_find?_key hf
    obtain ⟨g, hg, hsame'⟩ := sameEntries_iff.1 hbc f hmem
    exact ⟨⟨g, hg, same_trans hsame hsame'⟩, sameEntries_trans hmore hbc⟩

end

theorem Named.find?_eq (h : Named entries) {e : Data × Data} (he : e ∈ entries) :
    entries.find? (·.1 == e.1) = some e := by
  have hsome : (entries.find? (·.1 == e.1)).isSome :=
    List.find?_isSome.2 ⟨e, he, by exact beq_self_eq_true e.1⟩
  obtain ⟨f, hf⟩ := Option.isSome_iff_exists.1 hsome
  obtain ⟨hmem, hkey⟩ := mem_of_find?_key hf
  rw [hf, List.inj_on_of_nodup_map h.nodup hmem he hkey]

theorem Tidy.same_refl (h : Tidy a) : same a a = true := by
  induction h with
  | map named _ ih =>
    exact same_map_iff_entries.2 ⟨_, rfl, rfl,
      sameEntries_iff.2 fun e he => ⟨e, named.find?_eq he, ih e he⟩⟩
  | @list items _ ih =>
    refine same_list_iff.2 ⟨items, rfl, ?_⟩
    clear *- ih
    induction items with
    | nil => rfl
    | cons a more ihmore =>
      rw [sameItems, Bool.and_eq_true]
      exact ⟨ih a List.mem_cons_self, ihmore fun b hb => ih b (List.mem_cons_of_mem _ hb)⟩
  | plain h => exact (same_iff_eq h).2 rfl

/-! ### Name by name -/

theorem get?_eq_find? (entries : List (Data × Data)) (name : String) :
    get? entries name = (entries.find? (·.1 == .text name)).map (·.2) := by
  rw [get?]
  congr 2
  funext e
  cases e.1 <;> simp

/-- All names of a list are names of one that is no longer, so they have the same names. -/
theorem keys_perm (has : Named as) (hsub : as.map (·.1) ⊆ bs.map (·.1))
    (hlength : bs.length ≤ as.length) : (as.map (·.1)).Perm (bs.map (·.1)) :=
  (List.subperm_of_subset has.nodup hsub).perm_of_length_le (by simpa using hlength)

theorem isSome_of_sameAt {x y : Option Data} (h : SameAt x y) : x.isSome = y.isSome := by
  cases h <;> rfl

/-- Maps are the same if they hold the same under every name. -/
theorem same_map_iff (has : Named as) (hbs : Named bs) :
    same (.map as) (.map bs) = true ↔ ∀ name, SameAt (get? as name) (get? bs name) := by
  constructor
  · intro h name
    obtain ⟨_, hmap, hlength, hentries⟩ := same_map_iff_entries.1 h
    obtain rfl := Data.map.inj hmap
    rw [sameEntries_iff] at hentries
    cases ha : get? as name with
    | some a =>
      obtain ⟨f, hf, hsame⟩ := hentries _ (get?_eq_some ha)
      rw [get?_eq_find? bs, hf]
      exact .some hsame
    | none =>
      have hperm := keys_perm has (fun key hkey => ?_) (Nat.le_of_eq hlength.symm)
      · have hnone : get? bs name = none := by
          rw [← Option.not_isSome_iff_eq_none, get?_isSome_iff, ← hperm.mem_iff, ← get?_isSome_iff,
            ha]
          exact Bool.false_ne_true
        rw [hnone]
        exact .none
      · obtain ⟨e, he, rfl⟩ := List.mem_map.1 hkey
        obtain ⟨f, hf, -⟩ := hentries e he
        obtain ⟨hmem, hkey⟩ := mem_of_find?_key hf
        exact hkey ▸ List.mem_map_of_mem hmem
  · intro h
    have hkeys : (as.map (·.1)).Perm (bs.map (·.1)) := by
      refine (List.perm_ext_iff_of_nodup has.nodup hbs.nodup).2 fun key => ?_
      have hiff : ∀ name, .text name ∈ as.map (·.1) ↔ .text name ∈ bs.map (·.1) := fun name => by
        rw [← get?_isSome_iff, ← get?_isSome_iff, isSome_of_sameAt (h name)]
      constructor
      · intro hkey
        obtain ⟨name, rfl⟩ := has.texts key hkey
        exact (hiff name).1 hkey
      · intro hkey
        obtain ⟨name, rfl⟩ := hbs.texts key hkey
        exact (hiff name).2 hkey
    refine same_map_iff_entries.2 ⟨bs, rfl, by simpa using hkeys.length_eq, ?_⟩
    rw [sameEntries_iff]
    intro e he
    obtain ⟨name, hname⟩ := has.texts e.1 (List.mem_map_of_mem he)
    have hfound : get? as name = some e.2 := has.get?_iff.2 (hname ▸ he)
    have hat := h name
    rw [hfound, get?_eq_find?, ← hname] at hat
    cases hf : bs.find? (·.1 == e.1) with
    | none => rw [hf] at hat; cases hat
    | some f =>
      rw [hf] at hat
      cases hat with
      | some hsame => exact ⟨f, rfl, hsame⟩

theorem same_put {v w : Data} (has : Named as) (hbs : Named bs)
    (h : same (.map as) (.map bs) = true) (name : String) (hvalue : same v w = true) :
    same (.map (put as (.text name) v)) (.map (put bs (.text name) w)) = true := by
  refine (same_map_iff (has.put name v) (hbs.put name w)).2 fun other => ?_
  rw [get?_put, get?_put]
  split
  · exact .some hvalue
  · exact (same_map_iff has hbs).1 h other

/-! ### Tidy values -/

theorem Tidy.named (h : Tidy (.map entries)) : Named entries := by
  cases h with
  | map named _ => exact named
  | plain h => cases h

theorem Tidy.value (h : Tidy (.map entries)) {e : Data × Data} (he : e ∈ entries) : Tidy e.2 := by
  cases h with
  | map _ values => exact values e he
  | plain h => cases h

theorem Tidy.item {items : List Data} (h : Tidy (.list items)) (ha : a ∈ items) : Tidy a := by
  cases h with
  | list values => exact values a ha
  | plain h => cases h

theorem Tidy.of_get? (h : Tidy (.map entries)) (ha : get? entries name = some a) : Tidy a :=
  h.value (get?_eq_some ha)

theorem tidy_empty : Tidy (.map []) :=
  .map ⟨by simp, List.nodup_nil⟩ (by simp)

theorem mem_put {key value : Data} {e : Data × Data} (h : e ∈ put entries key value) :
    e ∈ entries ∨ e.2 = value := by
  induction entries with
  | nil => exact .inr (by rw [List.mem_singleton.1 h])
  | cons f more ih =>
    rw [put] at h
    split at h
    · rcases List.mem_cons.1 h with rfl | hmore
      · exact .inr rfl
      · exact .inl (List.mem_cons_of_mem _ hmore)
    · rcases List.mem_cons.1 h with rfl | hmore
      · exact .inl List.mem_cons_self
      · exact (ih hmore).imp_left (List.mem_cons_of_mem _)

theorem Tidy.put (h : Tidy (.map entries)) (name : String) (ha : Tidy a) :
    Tidy (.map (Data.put entries (.text name) a)) :=
  .map (h.named.put name a) fun _ he => (mem_put he).elim h.value fun heq => heq ▸ ha

end CodeSurvey.Data
