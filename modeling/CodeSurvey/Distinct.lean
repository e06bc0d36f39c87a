/-!
Lists in which every item stands at its first place only. Main statements: erasing duplicates leaves
no repetition and changes no order, and a list without repetition stays as it is.
-/

namespace CodeSurvey.Distinct

variable {α : Type} [BEq α]

/-- The first item stays in front. -/
theorem head?_eraseDups (items : List α) : items.eraseDups.head? = items.head? := by
  cases items <;> simp [List.eraseDups_cons]

/-- Nothing changes its place against the others. -/
theorem eraseDups_sublist : ∀ items : List α, items.eraseDups.Sublist items
  | [] => by simp
  | a :: more => by
    rw [List.eraseDups_cons]
    exact ((eraseDups_sublist (more.filter fun b => !b == a)).trans List.filter_sublist).cons_cons a
termination_by items => items.length
decreasing_by exact Nat.lt_succ_of_le (List.length_filter_le ..)

variable [LawfulBEq α]

/-- Nothing is repeated once duplicates are erased. -/
theorem nodup_eraseDups : ∀ items : List α, items.eraseDups.Nodup
  | [] => by simp
  | a :: more => by
    rw [List.eraseDups_cons, List.nodup_cons]
    exact ⟨by simp, nodup_eraseDups (more.filter fun b => !b == a)⟩
termination_by items => items.length
decreasing_by exact Nat.lt_succ_of_le (List.length_filter_le ..)

/-- An item in front of others that it is not among changes nothing for them. -/
theorem eraseDups_cons_of_notMem {a : α} {items : List α} (h : a ∉ items) :
    (a :: items).eraseDups = a :: items.eraseDups := by
  rw [List.eraseDups_cons, List.filter_eq_self.2]
  intro b hb
  have : b ≠ a := by rintro rfl; exact h hb
  simpa using this

/-- A list without repetition has no duplicates to erase. -/
theorem eraseDups_of_nodup : ∀ {items : List α}, items.Nodup → items.eraseDups = items
  | [], _ => by simp
  | a :: more, h => by
    obtain ⟨ha, hm⟩ := List.nodup_cons.1 h
    rw [eraseDups_cons_of_notMem ha, eraseDups_of_nodup hm]

theorem eraseDups_eraseDups (items : List α) : items.eraseDups.eraseDups = items.eraseDups :=
  eraseDups_of_nodup (nodup_eraseDups items)

/-- An item behind all others is erased if it is one of them. -/
theorem eraseDups_concat (items : List α) (a : α) :
    (items ++ [a]).eraseDups =
      if items.contains a then items.eraseDups else items.eraseDups ++ [a] := by
  rw [List.eraseDups_append, List.removeAll, List.filter_cons, List.filter_nil]
  by_cases h : a ∈ items <;> simp [h, List.eraseDups_cons]

end CodeSurvey.Distinct
