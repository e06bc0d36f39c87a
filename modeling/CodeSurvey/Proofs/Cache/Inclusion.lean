import CodeSurvey.Proofs.Cache.Recency
import Mathlib.Data.List.Forall2

/-!
Two caches of different capacities under the same operations. Their orders drift apart, since a
look-up can touch a key in the larger cache that the smaller one has lost, but the entries of the
smaller one stay among those of the larger one, in the same order: while nothing had to go from the
smaller cache both hold the same, and once it is full it loses an entry whenever the larger one
does. Main statement: whatever is done, the larger cache holds what the smaller one holds and
answers every look-up that the smaller one answers.
-/

namespace CodeSurvey.Cache

variable {κ ν : Type}

/-- A list within another one stays within it if at least as many items are cut off its end. -/
theorem take_sublist_take {α : Type} {short long : List α} (h : short.Sublist long) {n m : Nat}
    (hcut : long.length - m ≤ short.length - n) : (short.take n).Sublist (long.take m) := by
  have hreverse : ∀ (items : List α) (k : Nat),
      (items.take k).reverse = items.reverse.drop (items.length - k) := by
    intro items k
    rw [List.drop_reverse]
    congr 1
    rcases Nat.le_total k items.length with hk | hk
    · rw [Nat.sub_sub_self hk]
    · rw [Nat.sub_eq_zero_of_le hk, Nat.sub_zero, List.take_length, List.take_of_length_le hk]
  rw [← List.reverse_sublist, hreverse, hreverse]
  exact (List.drop_sublist_drop_left _ hcut).trans (h.reverse.drop _)

/-- What the first event found, the second one found too. -/
def Event.Kept (small large : Event κ ν) : Prop :=
  ∀ key value, small = .got key (some value) → large = .got key (some value)

variable [DecidableEq κ] {small large : Cache κ ν} {p q : History κ ν} {key : κ} {value : ν}

/-! ### Entries with keys of their own -/

/-- Every entry is found. -/
theorem Follows.peek?_of_mem (hf : Follows large q) (hmem : (key, value) ∈ large.entries) :
    large.peek? key = some value := by
  have hnodup := hf.nodup_keys
  obtain ⟨front, behind, hentries⟩ := List.append_of_mem hmem
  rw [hentries, List.map_append, List.map_cons] at hnodup
  refine List.lookup_eq_some_iff.2 ⟨front, behind, hentries, fun e he => ?_⟩
  have hne : e.1 ≠ key :=
    (List.nodup_append.1 hnodup).2.2 e.1 (List.mem_map.2 ⟨e, he, rfl⟩) key (List.mem_cons_self ..)
  exact bne_iff_ne.2 (Ne.symm hne)

theorem without_eq_self (hkey : large.peek? key = none) :
    without key large.entries = large.entries := by
  refine List.filter_eq_self.2 fun e he => ?_
  have hne : (key != e.1) = true := List.lookup_eq_none_iff.1 hkey e he
  rwa [bne_comm] at hne

theorem length_without_lt (hkey : large.peek? key = some value) :
    (without key large.entries).length < large.size :=
  List.length_filter_lt_length_iff_exists.2 ⟨_, mem_of_peek? hkey, by simp⟩

/-- A key has no more than one entry to lose. -/
theorem Follows.size_le_without (hf : Follows small p) (key : κ) :
    small.size ≤ (without key small.entries).length + 1 := by
  have hkeys : (without key small.entries).length =
      ((small.entries.map (·.1)).erase key).length := by
    rw [hf.nodup_keys.erase_eq_filter, ← List.length_map (·.1), keys_without]
    rfl
  rw [hkeys, List.length_erase, size, List.length_map]
  split <;> omega

/-! ### What the operations keep -/

/-- How a cache stands to a larger one after the same operations. -/
structure Within (small large : Cache κ ν) : Prop where
  capacity_le : small.capacity ≤ large.capacity
  entries : small.entries.Sublist large.entries
  /-- While nothing had to go from the smaller cache both hold the same. -/
  same : small.size < small.capacity → small.entries = large.entries
  hits_le : small.hits ≤ large.hits

theorem Within.peek?_eq (hw : Within small large) (hl : Follows large q)
    (hkey : small.peek? key = some value) : large.peek? key = some value :=
  hl.peek?_of_mem (hw.entries.subset (mem_of_peek? hkey))

/-- Touching a key in both caches puts its entry in front in both; if that makes the larger one too
    full, the smaller one is too full as well. -/
theorem Within.touch (hw : Within small large) (hs : Follows small p) (hl : Follows large q)
    (key : κ) (value : ν) {hits misses hits' misses' : Nat} (hle : hits ≤ hits') :
    Within
      ⟨small.capacity, small.capacity_pos,
        ((key, value) :: without key small.entries).take small.capacity, hits, misses⟩
      ⟨large.capacity, large.capacity_pos,
        ((key, value) :: without key large.entries).take large.capacity, hits', misses'⟩ := by
  have hcapacity := hw.capacity_le
  have hlarge := hl.size_le
  have hentries : ((key, value) :: without key small.entries).Sublist
      ((key, value) :: without key large.entries) := (hw.entries.filter _).cons_cons _
  refine ⟨hcapacity, take_sublist_take hentries ?_, ?_, hle⟩
  · -- entries
    rw [List.length_cons, List.length_cons]
    cases hkey : large.peek? key with
    | some old =>
      have := length_without_lt hkey
      omega
    | none =>
      have hkeySmall : small.peek? key = none := by
        cases hold : small.peek? key with
        | none => rfl
        | some old => rw [hw.peek?_eq hl hold] at hkey; exact absurd hkey (Option.some_ne_none old)
      rw [without_eq_self hkey, without_eq_self hkeySmall]
      by_cases hfull : small.size < small.capacity
      · rw [hw.same hfull]
        have : large.entries.length < small.capacity := by rw [← hw.same hfull]; exact hfull
        omega
      · rw [size] at hfull hlarge
        omega
  · -- same
    intro hfree
    have hroom : (without key small.entries).length + 1 < small.capacity := by
      simpa [size] using hfree
    have hequal := hw.same (Nat.lt_of_le_of_lt (hs.size_le_without key) hroom)
    rw [hequal] at hroom ⊢
    rw [List.take_of_length_le (by rw [List.length_cons]; omega),
      List.take_of_length_le (by rw [List.length_cons]; omega)]

/-- A key that only the larger cache holds can move to the front there. -/
theorem Within.refresh (hw : Within small large) (hsmall : small.peek? key = none)
    (hlarge : large.peek? key = some value) {misses : Nat} :
    Within { small with misses }
      { large with
        entries := (key, value) :: without key large.entries
        hits := large.hits + 1 } where
  capacity_le := hw.capacity_le
  entries := by
    rw [← without_eq_self hsmall]
    exact (hw.entries.filter _).cons _
  same := by
    intro hfree
    have hequal : small.entries = large.entries := hw.same hfree
    have hfound : small.peek? key = large.peek? key := by unfold peek?; rw [hequal]
    rw [hsmall, hlarge] at hfound
    exact absurd hfound.symm (Option.some_ne_none value)
  hits_le := Nat.le_succ_of_le hw.hits_le

/-- A look-up that finds its key is a touch: the entries do not get more. -/
theorem Follows.get_eq (hf : Follows small p) (hkey : small.peek? key = some value) :
    small.get key = (some value, ⟨small.capacity, small.capacity_pos,
      ((key, value) :: without key small.entries).take small.capacity, small.hits + 1,
      small.misses⟩) := by
  have hlength := length_without_lt hkey
  have hsize := hf.size_le
  rw [List.take_of_length_le (by rw [List.length_cons]; omega), get, hkey]

theorem Within.get_step (hw : Within small large) (hs : Follows small p) (hl : Follows large q)
    (key : κ) :
    Within (small.get key).2 (large.get key).2 ∧
      ∀ value, (small.get key).1 = some value → (large.get key).1 = some value := by
  cases hsmall : small.peek? key with
  | some value =>
    have hlarge := hw.peek?_eq hl hsmall
    rw [hs.get_eq hsmall, hl.get_eq hlarge]
    exact ⟨hw.touch hs hl key value (Nat.succ_le_succ hw.hits_le), fun _ h => h⟩
  | none =>
    have hmiss : small.get key = (none, { small with misses := small.misses + 1 }) := by
      rw [get, hsmall]
    rw [hmiss]
    refine ⟨?_, fun value h => absurd h.symm (Option.some_ne_none value)⟩
    cases hlarge : large.peek? key with
    | some value => rw [get, hlarge]; exact hw.refresh hsmall hlarge
    | none => rw [get, hlarge]; exact ⟨hw.capacity_le, hw.entries, hw.same, hw.hits_le⟩

theorem Within.step (hw : Within small large) (hs : Follows small p) (hl : Follows large q)
    (operation : Operation κ ν) :
    Within (small.step operation).2 (large.step operation).2 ∧
      Event.Kept (small.step operation).1 (large.step operation).1 := by
  cases operation with
  | put key value => exact ⟨hw.touch hs hl key value hw.hits_le, fun _ _ h => nomatch h⟩
  | get key =>
    obtain ⟨hwithin, hkept⟩ := hw.get_step hs hl key
    refine ⟨hwithin, fun other value h => ?_⟩
    obtain ⟨rfl, hvalue⟩ := Event.got.inj h
    exact congrArg (Event.got key) (hkept value hvalue)
  | contains key => exact ⟨hw, fun _ _ h => nomatch h⟩
  | size => exact ⟨hw, fun _ _ h => nomatch h⟩
  | clear =>
    exact ⟨⟨hw.capacity_le, List.Sublist.refl _, fun _ => rfl, Nat.le_refl _⟩,
      fun _ _ h => nomatch h⟩

theorem Within.run (hw : Within small large) (hs : Follows small p) (hl : Follows large q)
    (hkept : List.Forall₂ Event.Kept p q) (operations : List (Operation κ ν)) :
    Within (small.run p operations).1 (large.run q operations).1 ∧
      List.Forall₂ Event.Kept (small.run p operations).2 (large.run q operations).2 := by
  induction operations generalizing small large p q with
  | nil => exact ⟨hw, hkept⟩
  | cons operation more ih =>
    obtain ⟨hwithin, hevent⟩ := hw.step hs hl operation
    exact ih hwithin (hs.step operation) (hl.step operation) (.cons hevent hkept)

/-! ### What is held -/

/-- What a cache and a larger one have in common. -/
structure Covers (large small : Cache κ ν) (largeHistory smallHistory : History κ ν) : Prop where
  /-- The keys that the smaller one holds, in the order of their last touch, are among those of the
      larger one. -/
  keys : (small.entries.map (·.1)).Sublist (large.entries.map (·.1))
  values : ∀ key value, small.peek? key = some value → large.peek? key = some value
  hits_le : small.hits ≤ large.hits
  /-- No look-up that the smaller one answered was missed by the larger one. -/
  answers : List.Forall₂ Event.Kept smallHistory largeHistory

/-- Whatever is done with two empty caches, the one of the larger capacity goes on to hold what the
    other one holds. -/
theorem covers_run {capacity larger : Nat} (hpos : 0 < capacity) (hle : capacity ≤ larger)
    (operations : List (Operation κ ν)) :
    let small := run (empty capacity hpos) [] operations
    let large := run (empty larger (Nat.lt_of_lt_of_le hpos hle)) [] operations
    Covers large.1 small.1 large.2 small.2 := by
  intro small large
  have hstart : Within (empty capacity hpos : Cache κ ν)
      (empty larger (Nat.lt_of_lt_of_le hpos hle)) :=
    ⟨hle, List.Sublist.refl _, fun _ => rfl, Nat.le_refl _⟩
  have hlarge := follows_empty (κ := κ) (ν := ν) larger (Nat.lt_of_lt_of_le hpos hle)
  obtain ⟨hwithin, hkept⟩ := hstart.run (follows_empty capacity hpos) hlarge .nil operations
  exact ⟨hwithin.entries.map _, fun _ _ => hwithin.peek?_eq (hlarge.run operations),
    hwithin.hits_le, hkept⟩

/-- The key that was looked up stays in the larger cache only, and in another order. -/
theorem covers_run_refreshed_key :
    let operations : List (Operation String Nat) :=
      [.put "a" 1, .put "b" 2, .get "a", .put "c" 3]
    let small := run (empty 1 (by decide)) [] operations
    let large := run (empty 2 (by decide)) [] operations
    0 < 1 ∧ 1 ≤ 2 ∧ Covers large.1 small.1 large.2 small.2 ∧
      small.1.entries.map (·.1) = ["c"] ∧ large.1.entries.map (·.1) = ["c", "a"] :=
  ⟨by decide, by decide, covers_run (by decide) (by decide) _, by decide, by decide⟩

end CodeSurvey.Cache
