import CodeSurvey.Proofs.Graph.Reach
import CodeSurvey.Distinct
import Mathlib.Data.List.Nodup

/-!
Adjacencies as lists of entries. Main statements: if no file has two entries, an edge is what some
entry lists; turning the edges round gives such an adjacency, without empty entries, in which the
neighbours of a file keep the order of the entries that list it.
-/

namespace CodeSurvey.Distinct

variable {α : Type} [BEq α] [LawfulBEq α]

/-- Leaving out other items keeps the order of the first places. -/
theorem idxOf_lt_of_filter (keep : α → Bool) {x y : α} (hx : keep x = true) (hy : keep y = true)
    {items : List α} (h : (items.filter keep).idxOf x < (items.filter keep).idxOf y) :
    items.idxOf x < items.idxOf y := by
  induction items with
  | nil => simp at h
  | cons a more ih =>
    by_cases hax : a = x
    · subst hax
      by_cases hay : a = y
      · subst hay; exact absurd h (Nat.lt_irrefl _)
      · rw [List.idxOf_cons_self, List.idxOf_cons_ne _ hay]; exact Nat.succ_pos _
    · by_cases hay : a = y
      · subst hay
        rw [List.filter_cons_of_pos hy, List.idxOf_cons_self] at h
        exact absurd h (Nat.not_lt_zero _)
      · rw [List.idxOf_cons_ne _ hax, List.idxOf_cons_ne _ hay]
        refine Nat.succ_lt_succ (ih ?_)
        by_cases ha : keep a = true
        · rw [List.filter_cons_of_pos ha, List.idxOf_cons_ne _ hax, List.idxOf_cons_ne _ hay] at h
          exact Nat.lt_of_succ_lt_succ h
        · rwa [List.filter_cons_of_neg ha] at h

/-- The items stand in the order of their first places. -/
theorem pairwise_idxOf_eraseDups :
    ∀ items : List α, items.eraseDups.Pairwise fun x y => items.idxOf x < items.idxOf y
  | [] => by simp
  | a :: more => by
    have hother : ∀ x ∈ (more.filter fun b => !b == a).eraseDups, (!x == a) = true := by
      intro x hx
      exact (List.mem_filter.1 (List.mem_eraseDups.1 hx)).2
    have hne : ∀ x ∈ (more.filter fun b => !b == a).eraseDups, a ≠ x := by
      rintro x hx rfl
      simpa using hother a hx
    rw [List.eraseDups_cons, List.pairwise_cons]
    constructor
    · intro x hx
      rw [List.idxOf_cons_self, List.idxOf_cons_ne _ (hne x hx)]; exact Nat.succ_pos _
    · refine (pairwise_idxOf_eraseDups (more.filter fun b => !b == a)).imp_of_mem ?_
      intro x y hx hy hlt
      rw [List.idxOf_cons_ne _ (hne x hx), List.idxOf_cons_ne _ (hne y hy)]
      exact Nat.succ_lt_succ (idxOf_lt_of_filter (fun b => !b == a) (hother x hx) (hother y hy) hlt)
termination_by items => items.length
decreasing_by exact Nat.lt_succ_of_le (List.length_filter_le ..)

end CodeSurvey.Distinct

namespace CodeSurvey.Adjacency

variable {a : Adjacency} {file target : String} {targets : List String}

/-- A file has at most one entry. -/
def Functional (a : Adjacency) : Prop := (a.map (·.1)).Nodup

/-- The neighbours of a file are those its entry lists. -/
theorem Functional.neighbours_eq (h : a.Functional) (he : (file, targets) ∈ a) :
    a.neighbours file = targets := by
  induction a with
  | nil => simp at he
  | cons entry more ih =>
    obtain ⟨hout, hmore⟩ := List.nodup_cons.1 h
    rcases List.mem_cons.1 he with rfl | he
    · simp [neighbours]
    · have hne : file ≠ entry.1 := by
        rintro rfl
        exact hout (List.mem_map.2 ⟨_, he, rfl⟩)
      have := ih hmore he
      rwa [neighbours, List.lookup_cons, beq_false_of_ne hne]

/-- An entry that is listed shows in the neighbours, and neighbours come from an entry. -/
theorem Functional.edge_iff (h : a.Functional) :
    a.Edge file target ↔ ∃ ts, (file, ts) ∈ a ∧ target ∈ ts := by
  constructor
  · exact Edge.exists_entry
  · rintro ⟨ts, hts, ht⟩
    rw [Edge, h.neighbours_eq hts]
    exact ht

/-- If a file has at most one entry, the importers after turning the edges round are the files with an
    edge to the given one. -/
theorem Functional.edge_iff_turned (h : a.Functional) :
    a.Edge file target ↔ a.turned.Edge target file := by
  rw [h.edge_iff, Edge, mem_neighbours_turned]
  constructor
  · rintro ⟨ts, hts, ht⟩
    exact ⟨_, hts, rfl, ht⟩
  · rintro ⟨⟨x, ts⟩, hts, rfl, ht⟩
    exact ⟨ts, hts, ht⟩

theorem keys_add (a : Adjacency) (file target : String) :
    (a.add file target).map (·.1) =
      if file ∈ a.map (·.1) then a.map (·.1) else a.map (·.1) ++ [file] := by
  fun_induction add file target a <;> grind

theorem Functional.add (h : a.Functional) (file target : String) :
    (a.add file target).Functional := by
  rw [Functional, keys_add]
  split
  · exact h
  · rename_i hn
    refine List.nodup_append.2 ⟨h, by simp, ?_⟩
    rintro x hx y hy rfl
    exact hn (List.mem_singleton.1 hy ▸ hx)

theorem ne_nil_of_mem_add (h : ∀ e ∈ a, e.2 ≠ []) : ∀ e ∈ a.add file target, e.2 ≠ [] := by
  intro e he
  fun_induction Adjacency.add file target a with
  | case1 => rw [List.mem_singleton.1 he]; exact List.cons_ne_nil _ _
  | case2 entry more _ =>
    rcases List.mem_cons.1 he with rfl | he
    · exact List.append_ne_nil_of_right_ne_nil _ (List.cons_ne_nil _ _)
    · exact h e (List.mem_cons_of_mem _ he)
  | case3 entry more _ ih =>
    rcases List.mem_cons.1 he with rfl | he
    · exact h _ (List.mem_cons_self ..)
    · exact ih (fun d hd => h d (List.mem_cons_of_mem _ hd)) he

/-- A file without an entry gets one behind all others. -/
theorem put_of_notMem (h : file ∉ a.map (·.1)) (targets : List String) :
    a.put file targets = a ++ [(file, targets)] := by
  induction a with
  | nil => rfl
  | cons entry more ih =>
    rw [List.map_cons, List.mem_cons, not_or] at h
    rw [put, if_neg (by simpa using Ne.symm h.1), ih h.2]
    rfl

theorem turned_concat (a : Adjacency) (file : String) (targets : List String) :
    (a ++ [(file, targets)]).turned = targets.foldl (fun r t => r.add t file) a.turned := by
  rw [turned, List.foldl_append]
  rfl

theorem size_concat (a : Adjacency) (file : String) (targets : List String) :
    (a ++ [(file, targets)]).size = a.size + targets.length := by
  induction a with
  | nil => simp [size]
  | cons entry more ih =>
    simp only [size, List.cons_append, List.map_cons, List.foldr_cons] at ih ⊢
    omega

/-- What holds of no entries and is kept by adding a neighbour holds after turning the edges
    round. -/
theorem turned_of_add {P : Adjacency → Prop} (hnil : P [])
    (hadd : ∀ r file target, P r → P (Adjacency.add file target r)) (a : Adjacency) :
    P a.turned := by
  have inner : ∀ (file : String) (ts : List String) (r : Adjacency), P r →
      P (ts.foldl (fun r t => Adjacency.add t file r) r) := by
    intro file ts
    induction ts with
    | nil => exact fun r hr => hr
    | cons t more ih => exact fun r hr => ih _ (hadd r t file hr)
  suffices h : ∀ r, P r → P (a.foldl
      (fun r entry => entry.2.foldl (fun r target => Adjacency.add target entry.1 r) r) r) from
    h [] hnil
  induction a with
  | nil => exact fun r hr => hr
  | cons entry more ih => exact fun r hr => ih _ (inner entry.1 entry.2 r hr)

theorem functional_turned (a : Adjacency) : a.turned.Functional :=
  turned_of_add (P := Functional) List.nodup_nil
    (fun _ file target h => Functional.add h file target) a

theorem ne_nil_of_mem_turned (a : Adjacency) : ∀ e ∈ a.turned, e.2 ≠ [] :=
  turned_of_add (P := fun r => ∀ e ∈ r, e.2 ≠ []) (by simp)
    (fun _ _ _ h => ne_nil_of_mem_add h) a

/-- If no file is listed twice, the neighbours after turning are the files of the entries that list
    the file, in their order. -/
theorem neighbours_turned_of_nodup (h : ∀ e ∈ a, e.2.Nodup) (target : String) :
    a.turned.neighbours target = (a.filter fun e => e.2.contains target).map (·.1) := by
  rw [neighbours_turned]
  induction a with
  | nil => rfl
  | cons entry more ih =>
    have hentry := h entry (List.mem_cons_self ..)
    have hmore := ih fun e he => h e (List.mem_cons_of_mem _ he)
    rw [List.flatMap_cons, hmore, List.filter_beq]
    by_cases ht : target ∈ entry.2
    · rw [List.count_eq_one_of_mem hentry ht, List.filter_cons_of_pos (by simpa using ht)]
      rfl
    · rw [List.count_eq_zero_of_not_mem ht, List.filter_cons_of_neg (by simpa using ht)]
      rfl

end CodeSurvey.Adjacency
