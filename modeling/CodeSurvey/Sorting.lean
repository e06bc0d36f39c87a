/-!
Lists sorted by a key of their items. Main statements: the items come in the order of their keys,
and if the largest come first, items of one size keep their order.
-/

namespace CodeSurvey.Sorting

variable {α : Type} {size : α → Nat} {items : List α}

/-- No item has a larger key than one behind it. -/
theorem pairwise_smallestFirst {β : Type} [LE β] [DecidableLE β] [Std.IsLinearPreorder β]
    (key : α → β) (items : List α) :
    (items.mergeSort fun a b => key a ≤ key b).Pairwise fun a b => key a ≤ key b := by
  refine (List.pairwise_mergeSort (fun a b c hab hbc => ?_) (fun a b => ?_) items).imp
    of_decide_eq_true
  · exact decide_eq_true (Std.le_trans (of_decide_eq_true hab) (of_decide_eq_true hbc))
  · rw [Bool.or_eq_true, decide_eq_true_eq, decide_eq_true_eq]
    exact Std.le_total

/-! ### The largest first -/

theorem size_trans (size : α → Nat) (a b c : α) (hab : decide (size b ≤ size a) = true)
    (hbc : decide (size c ≤ size b) = true) : decide (size c ≤ size a) = true :=
  decide_eq_true (Nat.le_trans (of_decide_eq_true hbc) (of_decide_eq_true hab))

theorem size_total (size : α → Nat) (a b : α) :
    (decide (size b ≤ size a) || decide (size a ≤ size b)) = true := by
  rw [Bool.or_eq_true, decide_eq_true_eq, decide_eq_true_eq]
  exact Nat.le_total _ _

/-- No item is larger than one in front of it. -/
theorem pairwise_largestFirst (size : α → Nat) (items : List α) :
    (items.mergeSort fun a b => size b ≤ size a).Pairwise fun a b => size b ≤ size a :=
  (List.pairwise_mergeSort (size_trans size) (size_total size) items).imp of_decide_eq_true

/-- The items of one size stand as they stood. -/
theorem filter_largestFirst (size : α → Nat) (items : List α) (n : Nat) :
    (items.mergeSort fun a b => size b ≤ size a).filter (size · == n) =
      items.filter (size · == n) := by
  have hequal : (items.filter (size · == n)).Pairwise
      fun a b => decide (size b ≤ size a) = true := by
    refine List.pairwise_of_forall_mem_list fun a ha b hb => decide_eq_true ?_
    have ha : size a = n := eq_of_beq (List.mem_filter.1 ha).2
    have hb : size b = n := eq_of_beq (List.mem_filter.1 hb).2
    exact Nat.le_of_eq (hb.trans ha.symm)
  -- they are in order already, so they are in the sorted list one behind the other
  have hsublist := List.sublist_mergeSort (size_trans size) (size_total size) hequal
    (List.filter_sublist (l := items))
  have hfiltered := hsublist.filter (size · == n)
  rw [List.filter_eq_self.2 fun a ha => (List.mem_filter.1 ha).2] at hfiltered
  exact (hfiltered.eq_of_length ((List.mergeSort_perm items _).filter _).length_eq.symm).symm

/-- What holds between an item and each later one still does among those of one size. -/
theorem pairwise_largestFirst_of_pairwise {P : α → α → Prop} (h : items.Pairwise P) :
    (items.mergeSort fun a b => size b ≤ size a).Pairwise fun a b => size a = size b → P a b := by
  refine List.pairwise_iff_forall_sublist.2 fun {a b} hsublist hsize => ?_
  have hpair : [a, b].filter (size · == size a) = [a, b] := by simp [hsize]
  have hfiltered := hsublist.filter (size · == size a)
  rw [hpair, filter_largestFirst] at hfiltered
  exact List.pairwise_iff_forall_sublist.1 h (hfiltered.trans List.filter_sublist)

end CodeSurvey.Sorting
