import CodeSurvey.Cache.History
import CodeSurvey.Distinct
import Mathlib.Data.Finset.Card
import Mathlib.Data.List.Nodup
import Mathlib.Data.List.TakeWhile

/-!
Which keys a cache holds after a history of operations. The keys touched since everything was
forgotten, each at its last touch, form the recency list; the entries of the cache are the front of
that list, as far as the capacity allows. Every operation keeps this. Main statement: a key is held
if and only if it was put and fewer other keys than the capacity were touched after it.
-/

namespace CodeSurvey.Distinct

variable {α : Type} [DecidableEq α]

theorem eraseDups_filter (keep : α → Bool) :
    ∀ items : List α, (items.filter keep).eraseDups = items.eraseDups.filter keep
  | [] => by simp
  | a :: more => by
    have hmore := eraseDups_filter keep (more.filter fun b => !b == a)
    rw [List.eraseDups_cons, List.filter_cons, List.filter_cons, ← hmore]
    split
    · rw [List.eraseDups_cons, List.filter_filter, List.filter_filter]
      simp only [Bool.and_comm]
    · rename_i ha
      congr 1
      rw [List.filter_filter]
      refine List.filter_congr fun b _ => ?_
      by_cases hb : b = a
      · subst hb; simpa using ha
      · simp [hb]
termination_by items => items.length
decreasing_by exact Nat.lt_succ_of_le (List.length_filter_le ..)

/-- The place of an item among the first places is the number of items that come before it. -/
theorem idxOf_eraseDups {item : α} : ∀ {items : List α}, item ∈ items →
    items.eraseDups.idxOf item = (items.takeWhile (· ≠ item)).toFinset.card
  | a :: more, h => by
    by_cases ha : a = item
    · subst ha; simp [List.eraseDups_cons]
    · have hmore : item ∈ more.filter fun b => !b == a := by
        have : item ∈ more := (List.mem_cons.1 h).resolve_left (Ne.symm ha)
        simpa [this] using Ne.symm ha
      have hbefore : (more.filter fun b => !b == a).takeWhile (· ≠ item) =
          (more.takeWhile (· ≠ item)).filter fun b => !b == a := by
        rw [List.takeWhile_filter]
        congr 2
        funext b
        by_cases hb : b = a <;> simp [hb, ha]
      have hset : ((more.takeWhile (· ≠ item)).filter fun b => !b == a).toFinset =
          (insert a (more.takeWhile (· ≠ item)).toFinset).erase a := by
        ext b
        simp [and_comm]
      rw [List.eraseDups_cons, List.idxOf_cons_ne _ ha, idxOf_eraseDups hmore, hbefore, hset,
        List.takeWhile_cons_of_pos (by simpa using ha), List.toFinset_cons]
      exact Finset.card_erase_add_one (Finset.mem_insert_self ..)
termination_by items => items.length
decreasing_by exact Nat.lt_succ_of_le (List.length_filter_le ..)

/-- Moving an item to the front and cutting off the end gives the same whether the end was cut off
    before or not. -/
theorem take_cons_filter_take {items : List α} (h : items.Nodup) (item : α) {n : Nat}
    (hn : 0 < n) :
    (item :: (items.take n).filter (!· == item)).take n =
      (item :: items.filter (!· == item)).take n := by
  obtain ⟨n, rfl⟩ := Nat.exists_eq_succ_of_ne_zero (Nat.ne_of_gt hn)
  have hsplit : items.filter (!· == item) =
      (items.take (n + 1)).filter (!· == item) ++ (items.drop (n + 1)).filter (!· == item) := by
    rw [← List.filter_append, List.take_append_drop]
  have hshort : (items.take (n + 1)).length ≤
      ((items.take (n + 1)).filter (!· == item)).length + 1 := by
    have herase := (h.sublist (List.take_sublist (n + 1) items)).erase_eq_filter item
    have hlength : ((items.take (n + 1)).erase item).length + 1 ≥ (items.take (n + 1)).length := by
      rw [List.length_erase]; split <;> omega
    rwa [herase] at hlength
  rw [List.take_succ_cons, List.take_succ_cons, hsplit, List.take_append]
  -- a short front was not cut off, so nothing is left behind it
  have hnone : ((items.drop (n + 1)).filter (!· == item)).take
      (n - ((items.take (n + 1)).filter (!· == item)).length) = [] := by
    by_cases hfull : n ≤ ((items.take (n + 1)).filter (!· == item)).length
    · rw [Nat.sub_eq_zero_of_le hfull, List.take_zero]
    · have hlength : (items.take (n + 1)).length = min (n + 1) items.length := List.length_take
      rw [List.drop_eq_nil_of_le (by omega)]
      simp
  rw [hnone, List.append_nil]

end CodeSurvey.Distinct

namespace CodeSurvey.Cache

open History

variable {κ ν : Type} {c : Cache κ ν} {h : History κ ν} {e : Event κ ν} {key : κ} {value : ν}

/-! ### What one event adds to a history -/

namespace History

theorem sinceClear_cons (hclear : e.isClear = false) (h : History κ ν) :
    sinceClear (e :: h) = e :: sinceClear h := by
  simp [sinceClear, hclear]

theorem gets_cons (hclear : e.isClear = false) (h : History κ ν) :
    gets (e :: h) = gets h + if e.isGet then 1 else 0 := by
  rw [gets, gets, sinceClear_cons hclear, List.countP_cons]

theorem WasPut.cons (hclear : e.isClear = false) (hput : WasPut key h) : WasPut key (e :: h) := by
  obtain ⟨value, hvalue⟩ := hput
  exact ⟨value, by rw [sinceClear_cons hclear]; exact List.mem_cons_of_mem _ hvalue⟩

/-- A key that was put was touched. -/
theorem WasPut.mem_touched (hput : WasPut key h) : key ∈ touched (sinceClear h) := by
  obtain ⟨value, hvalue⟩ := hput
  exact List.mem_filterMap.2 ⟨_, hvalue, rfl⟩

theorem isClear_of_touched (he : e.touched? = some key) : e.isClear = false := by
  cases e <;> simp_all [Event.touched?, Event.isClear]

variable [DecidableEq κ]

/-- The keys touched since everything was forgotten, each at its last touch, the latest first. -/
def recent (h : History κ ν) : List κ := (touched (sinceClear h)).eraseDups

/-- The other keys touched after the last touch of a key. -/
def othersSince (key : κ) (h : History κ ν) : Finset κ :=
  ((touched h).takeWhile (· ≠ key)).toFinset

theorem mem_recent : key ∈ recent h ↔ key ∈ touched (sinceClear h) := List.mem_eraseDups

/-- A touch moves its key to the front. -/
theorem recent_touch (he : e.touched? = some key) (h : History κ ν) :
    recent (e :: h) = key :: (recent h).filter (!· == key) := by
  rw [recent, recent, sinceClear_cons (isClear_of_touched he), touched,
    List.filterMap_cons_some he, List.eraseDups_cons, Distinct.eraseDups_filter, touched]

theorem recent_other (he : e.touched? = none) (hclear : e.isClear = false) (h : History κ ν) :
    recent (e :: h) = recent h := by
  rw [recent, recent, sinceClear_cons hclear, touched, List.filterMap_cons_none he, touched]

/-- After the last touch of a key touched since the last clear there is no clear. -/
theorem othersSince_eq (hkey : key ∈ touched (sinceClear h)) :
    othersSince key h = ((touched (sinceClear h)).takeWhile (· ≠ key)).toFinset := by
  have hsplit : touched h = touched (sinceClear h) ++ touched (h.dropWhile (!·.isClear)) := by
    rw [touched, touched, touched, sinceClear, ← List.filterMap_append,
      List.takeWhile_append_dropWhile]
  rw [othersSince, hsplit, List.takeWhile_append, if_neg]
  intro hall
  have heq := (List.takeWhile_sublist (· ≠ key)).eq_of_length hall
  rw [← heq] at hkey
  simpa using List.mem_takeWhile_imp hkey

/-- The place of a key in the recency list is the number of other keys touched after it. -/
theorem idxOf_recent (hkey : key ∈ recent h) :
    (recent h).idxOf key = (othersSince key h).card := by
  rw [mem_recent] at hkey
  rw [othersSince_eq hkey, recent, Distinct.idxOf_eraseDups hkey]

end History

variable [DecidableEq κ]

/-! ### What the operations keep -/

theorem keys_without (key : κ) (entries : List (κ × ν)) :
    (without key entries).map (·.1) = (entries.map (·.1)).filter (!· == key) := by
  rw [without, List.filter_map]
  rfl

theorem contains_iff_mem : c.contains key = true ↔ key ∈ c.entries.map (·.1) := by
  simp [contains, peek?, List.lookup_isSome_iff]

/-- A cache is what its history made of it. -/
structure Follows (c : Cache κ ν) (h : History κ ν) : Prop where
  /-- The entries are the front of the recency list. -/
  keys : c.entries.map (·.1) = (recent h).take c.capacity
  /-- Each holds what was put last. -/
  values : ∀ e ∈ c.entries, lastPut? e.1 h = some e.2
  /-- Only keys that were put can be touched. -/
  put : ∀ key ∈ recent h, WasPut key h
  counts : c.hits + c.misses = gets h

theorem follows_empty (capacity : Nat) (hpos : 0 < capacity) :
    Follows (empty capacity hpos : Cache κ ν) [] where
  keys := by simp [empty, recent, touched, sinceClear]
  values := by simp [empty]
  put := by simp [recent, touched, sinceClear]
  counts := by simp [empty, gets, sinceClear]

theorem Follows.nodup_keys (hf : Follows c h) : (c.entries.map (·.1)).Nodup := by
  rw [hf.keys]
  exact (Distinct.nodup_eraseDups _).sublist (List.take_sublist ..)

theorem Follows.size_le (hf : Follows c h) : c.size ≤ c.capacity := by
  rw [size, ← List.length_map (·.1), hf.keys, List.length_take]
  exact Nat.min_le_left ..

theorem Follows.peek?_eq (hf : Follows c h) (hkey : c.peek? key = some value) :
    lastPut? key h = some value :=
  hf.values _ (mem_of_peek? hkey)

/-- After a touch of a key its entry stands in front, and the last entry goes if there are too
    many. -/
theorem Follows.touch (hf : Follows c h) (he : e.touched? = some key)
    (hput : WasPut key (e :: h)) (hvalue : lastPut? key (e :: h) = some value)
    (hother : ∀ other, other ≠ key → lastPut? other (e :: h) = lastPut? other h)
    {hits misses : Nat} (hcounts : hits + misses = gets (e :: h)) :
    Follows ⟨c.capacity, c.capacity_pos, ((key, value) :: without key c.entries).take c.capacity,
      hits, misses⟩ (e :: h) where
  keys := by
    rw [List.map_take, List.map_cons, keys_without, hf.keys, recent_touch he]
    exact Distinct.take_cons_filter_take (Distinct.nodup_eraseDups _) key c.capacity_pos
  values := by
    intro entry hentry
    rcases List.mem_cons.1 (List.mem_of_mem_take hentry) with rfl | hentry
    · exact hvalue
    · obtain ⟨hmem, hne⟩ := List.mem_filter.1 hentry
      rw [hother _ (by simpa using hne)]
      exact hf.values entry hmem
  put := by
    intro k hk
    rw [recent_touch he] at hk
    rcases List.mem_cons.1 hk with rfl | hk
    · exact hput
    · exact (hf.put k (List.mem_filter.1 hk).1).cons (isClear_of_touched he)
  counts := hcounts

/-- An event that touches nothing leaves the entries alone. -/
theorem Follows.pass (hf : Follows c h) (he : e.touched? = none)
    (hclear : e.isClear = false) {misses : Nat}
    (hcounts : c.hits + misses = gets (e :: h)) :
    Follows { c with misses } (e :: h) where
  keys := by rw [recent_other he hclear]; exact hf.keys
  values := by
    intro entry hentry
    have hnone : e.putUnder? entry.1 = none := by
      cases e <;> simp_all [Event.touched?, Event.putUnder?]
    rw [lastPut?, List.findSome?_cons, hnone]
    exact hf.values entry hentry
  put := by
    intro k hk
    rw [recent_other he hclear] at hk
    exact (hf.put k hk).cons hclear
  counts := hcounts

theorem Follows.put_step (hf : Follows c h) (key : κ) (value : ν) :
    Follows (c.put key value) (.put key value :: h) := by
  refine hf.touch rfl ⟨value, ?_⟩ ?_ ?_ ?_
  · rw [sinceClear_cons rfl]; exact List.mem_cons_self ..
  · simp [lastPut?, Event.putUnder?]
  · intro other hne
    simp [lastPut?, Event.putUnder?, Ne.symm hne]
  · rw [hf.counts, gets_cons rfl]; rfl

/-- Looking up a key that is held puts its entry in front, which makes the entries no more. -/
theorem Follows.get_step (hf : Follows c h) (key : κ) :
    Follows (c.get key).2 (.got key (c.get key).1 :: h) := by
  unfold get
  split
  · rename_i value hvalue
    have hkey : key ∈ c.entries.map (·.1) := contains_iff_mem.1 (by rw [contains, hvalue]; rfl)
    have hlength : ((key, value) :: without key c.entries).length ≤ c.capacity := by
      obtain ⟨entry, hentry, rfl⟩ := List.mem_map.1 hkey
      have : (without entry.1 c.entries).length < c.entries.length :=
        List.length_filter_lt_length_iff_exists.2 ⟨entry, hentry, by simp⟩
      exact Nat.le_trans this hf.size_le
    rw [← List.take_of_length_le hlength]
    refine hf.touch rfl ?_ ?_ ?_ ?_
    · rw [hf.keys] at hkey
      exact (hf.put key (List.mem_of_mem_take hkey)).cons rfl
    · simpa [lastPut?, Event.putUnder?] using hf.peek?_eq hvalue
    · intro other _
      simp [lastPut?, Event.putUnder?]
    · rw [gets_cons rfl, ← hf.counts]; simp [Event.isGet]; omega
  · refine hf.pass rfl rfl ?_
    rw [gets_cons rfl, ← hf.counts]; simp [Event.isGet]; omega

theorem follows_clear (c : Cache κ ν) (h : History κ ν) : Follows c.clear (.cleared :: h) where
  keys := by simp [clear, recent, touched, sinceClear, Event.isClear]
  values := by simp [clear]
  put := by simp [recent, touched, sinceClear, Event.isClear]
  counts := by simp [clear, gets, sinceClear, Event.isClear]

/-- Every operation makes of the cache what it makes of the history. -/
theorem Follows.step (hf : Follows c h) (operation : Operation κ ν) :
    Follows (c.step operation).2 ((c.step operation).1 :: h) := by
  cases operation with
  | put key value => exact hf.put_step key value
  | get key => exact hf.get_step key
  | contains key => exact hf.pass rfl rfl (by rw [gets_cons rfl]; exact hf.counts)
  | size => exact hf.pass rfl rfl (by rw [gets_cons rfl]; exact hf.counts)
  | clear => exact follows_clear c h

theorem Follows.run (hf : Follows c h) (operations : List (Operation κ ν)) :
    Follows (c.run h operations).1 (c.run h operations).2 := by
  induction operations generalizing c h with
  | nil => exact hf
  | cons operation more ih => exact ih (hf.step operation)

theorem capacity_step (c : Cache κ ν) (operation : Operation κ ν) :
    (c.step operation).2.capacity = c.capacity := by
  cases operation with
  | get key => simp only [step, get]; split <;> rfl
  | _ => rfl

theorem capacity_run (c : Cache κ ν) (h : History κ ν) (operations : List (Operation κ ν)) :
    (c.run h operations).1.capacity = c.capacity := by
  induction operations generalizing c h with
  | nil => rfl
  | cons operation more ih => rw [run, ih, capacity_step]

/-! ### What is held -/

theorem Follows.contains_iff (hf : Follows c h) (key : κ) :
    c.contains key = true ↔ WasPut key h ∧ (othersSince key h).card < c.capacity := by
  have hfront : key ∈ recent h →
      (key ∈ (recent h).take c.capacity ↔ (othersSince key h).card < c.capacity) := by
    intro hkey
    rw [List.mem_take_iff_idxOf_lt hkey, idxOf_recent hkey]
  rw [contains_iff_mem, hf.keys]
  constructor
  · intro hkey
    have hrecent := List.mem_of_mem_take hkey
    exact ⟨hf.put key hrecent, (hfront hrecent).1 hkey⟩
  · rintro ⟨hput, hcard⟩
    exact (hfront (mem_recent.2 hput.mem_touched)).2 hcard

/-- What a cache of a capacity has to do with its history. -/
structure Remembers (capacity : Nat) (c : Cache κ ν) (h : History κ ν) : Prop where
  size_le : c.size ≤ capacity
  /-- Every entry has a key of its own. -/
  nodup_keys : (c.entries.map (·.1)).Nodup
  /-- A key is held if it was put and fewer other keys than the capacity were touched later. -/
  held_iff : ∀ key, c.contains key = true ↔
    WasPut key h ∧ (othersSince key h).card < capacity
  /-- What is found under a key that is held is what was put there last. -/
  get_held : ∀ key, c.contains key = true →
    ∃ value, (c.get key).1 = some value ∧ lastPut? key h = some value
  get_missing : ∀ key, c.contains key = false → (c.get key).1 = none
  counts : c.hits + c.misses = gets h
  contains_quiet : ∀ key, c.step (.contains key) = (.looked key (c.contains key), c)
  size_quiet : c.step .size = (.measured c.size, c)

/-- Whatever is done with an empty cache, it goes on to remember the keys touched last, as many as
    its capacity, with what was put there last. -/
theorem remembers_run {capacity : Nat} (hpos : 0 < capacity)
    (operations : List (Operation κ ν)) :
    Remembers capacity (run (empty capacity hpos) [] operations).1
      (run (empty capacity hpos) [] operations).2 := by
  have hf := (follows_empty (κ := κ) (ν := ν) capacity hpos).run operations
  have hcapacity := capacity_run (empty (κ := κ) (ν := ν) capacity hpos) [] operations
  generalize run (empty capacity hpos) [] operations = r at hf hcapacity
  obtain ⟨c, h⟩ := r
  obtain rfl : c.capacity = capacity := hcapacity
  refine ⟨hf.size_le, hf.nodup_keys, hf.contains_iff, ?_, ?_, hf.counts, fun _ => rfl, rfl⟩
  · -- get_held
    intro key hkey
    obtain ⟨value, hvalue⟩ := Option.isSome_iff_exists.1 hkey
    exact ⟨value, by rw [get_fst, hvalue], hf.peek?_eq hvalue⟩
  · -- get_missing
    intro key hkey
    rw [get_fst]
    exact Option.isNone_iff_eq_none.1 (Option.isSome_eq_false_iff.1 hkey)

/-- A key that was looked up outlives one that was put later; two keys fit. -/
theorem remembers_run_third_key :
    let operations : List (Operation String Nat) :=
      [.put "a" 1, .put "b" 2, .get "a", .put "c" 3]
    0 < 2 ∧ Remembers 2 (run (empty 2 (by decide)) [] operations).1
        (run (empty 2 (by decide)) [] operations).2 ∧
      (run (empty 2 (by decide)) [] operations).1.contains "a" = true ∧
      (run (empty 2 (by decide)) [] operations).1.contains "b" = false :=
  ⟨by decide, remembers_run (by decide) _, by decide, by decide⟩

end CodeSurvey.Cache
