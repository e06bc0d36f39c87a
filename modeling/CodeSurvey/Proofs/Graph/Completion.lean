import CodeSurvey.Proofs.Graph.LowLink

/-!
Leaving a file. If its low link is its own number, no edge from its part of the stack leads below
it, so this part is a component and is taken off; if not, the file hands its low link down and stays
on the stack. Main statements: both keep what the search knows, and the components taken off so far
are exactly those among the files that are done, each completed after everything it reaches.
-/

namespace CodeSurvey.Graph.Search

open Adjacency

variable {forward : Adjacency} {s : Search} {path : List (String × Nat)} {next : Option String}
  {v x y : String} {p : Nat} {above below : List String}

/-! ### The stack above and below a file -/

/-- The part of the stack from `v` on holds the numbers from that of `v` on. -/
theorem Invariant.mem_above_iff (h : Invariant forward s path next)
    (hs : s.stack = above ++ v :: below) (hx : x ∈ s.stack) :
    x ∈ above ++ [v] ↔ s.num v ≤ s.num x := by
  have hsorted := h.sorted
  rw [hs, List.pairwise_append] at hsorted
  obtain ⟨_, hbelow, habove⟩ := hsorted
  constructor
  · intro hm
    rcases List.mem_append.1 hm with hm | hm
    · exact Nat.le_of_lt (habove x hm v (List.mem_cons_self ..))
    · exact Nat.le_of_eq (by rw [List.mem_singleton.1 hm])
  · intro hle
    rw [hs] at hx
    rcases List.mem_append.1 hx with hx | hx
    · exact List.mem_append_left _ hx
    · rcases List.mem_cons.1 hx with hxv | hx
      · exact List.mem_append_right _ (List.mem_singleton.2 hxv)
      · exact absurd ((List.pairwise_cons.1 hbelow).1 x hx) (Nat.not_lt_of_le hle)

theorem Invariant.mem_below_iff (h : Invariant forward s path next)
    (hs : s.stack = above ++ v :: below) (hx : x ∈ s.stack) :
    x ∈ below ↔ s.num x < s.num v := by
  have hnd := h.stack_nodup
  have hx' := hx
  rw [hs, ← List.singleton_append, ← List.append_assoc] at hnd hx'
  have hdisj := (List.nodup_append.1 hnd).2.2
  rw [← Nat.not_le, ← h.mem_above_iff hs hx]
  constructor
  · intro hb ha
    exact hdisj x ha x hb rfl
  · intro ha
    exact (List.mem_append.1 hx').resolve_left ha

/-- A file on the first path file's part of the stack is that file or off the path. -/
theorem Invariant.seen_of_above (h : Invariant forward s ((v, p) :: path) next)
    (hend : (forward.neighbours v).length ≤ p) (hle : s.num v ≤ s.num x)
    (he : forward.Edge x y) : Seen forward ((v, p) :: path) x y := by
  refine Seen.leave ⟨he, fun q hq => ?_⟩ hend
  have hlt := h.num_lt_head (List.mem_map.2 ⟨_, hq, rfl⟩)
  exact absurd hlt (Nat.not_lt_of_le hle)

/-- If the low link of the first path file is its own number, no edge leads from its part of the
    stack to what is below. -/
theorem Invariant.above_closed (h : Invariant forward s ((v, p) :: path) none)
    (hend : (forward.neighbours v).length ≤ p) (hroot : s.lowOf v = s.num v)
    (hx : x ∈ s.stack) (hle : s.num v ≤ s.num x) (he : forward.Edge x y) :
    s.Done y ∨ y ∈ s.stack ∧ s.num v ≤ s.num y := by
  have hseen := h.seen_of_above hend hle he
  have hy := (h.seen x y (h.numbered x hx) hseen).resolve_right (by simp)
  by_cases hys : y ∈ s.stack
  · obtain ⟨u, hu, hvu, huy⟩ :=
      h.low_covers x hx y hys hseen v (List.mem_cons_self ..) hle
    have huv : u = v := by
      refine (List.mem_cons.1 hu).resolve_right fun hm => ?_
      exact absurd (h.num_lt_head hm) (Nat.not_lt_of_le hvu)
    rw [huv, hroot] at huy
    exact Or.inr ⟨hys, huy⟩
  · exact Or.inl ⟨hy, hys⟩

/-! ### Taking a component off the stack -/

/-- Without the part of the stack from `v` on. -/
theorem Invariant.pop (h : Invariant forward s ((v, p) :: path) none)
    (hend : (forward.neighbours v).length ≤ p) (hroot : s.lowOf v = s.num v)
    (hs : s.stack = above ++ v :: below) (found : List (List String)) :
    Invariant forward { s with stack := below, components := found } path none := by
  have hv : v ∈ s.stack := h.mem_stack (List.mem_cons_self ..)
  have hsub : below.Sublist s.stack := by
    rw [hs]; exact (List.sublist_cons_self v below).trans (List.sublist_append_right ..)
  have hbelow : ∀ x ∈ s.stack, x ∈ below ↔ s.num x < s.num v := fun x hx => h.mem_below_iff hs hx
  have hpath : ∀ u ∈ path.map (·.1), s.num u < s.num v := fun u hu => h.num_lt_head hu
  have hmem : ∀ u ∈ path.map (·.1), u ∈ s.stack := fun u hu =>
    h.mem_stack (List.mem_cons_of_mem _ hu)
  have hhead : ∀ u ∈ ((v, p) :: path).map (·.1), s.num u < s.num v → u ∈ path.map (·.1) := by
    intro u hu hlt
    refine (List.mem_cons.1 hu).resolve_left fun he => ?_
    rw [show u = v from he] at hlt
    exact Nat.lt_irrefl _ hlt
  refine ⟨h.known, h.num_lt, fun x hx => h.numbered x (hsub.subset hx), h.sorted.sublist hsub,
    ?_, ?_, ?_, ?_, ?_, ?_, ?_, ?_⟩
  · -- path_sub
    have hva : v ∉ above := by
      have hnd := h.stack_nodup
      rw [hs] at hnd
      exact fun ha => (List.nodup_append.1 hnd).2.2 v ha v (List.mem_cons_self ..) rfl
    have hps := h.path_sub
    rw [hs] at hps
    obtain ⟨l, r, hlr, hl, hr⟩ := List.sublist_append_iff.1 hps
    cases l with
    | nil => rw [List.nil_append] at hlr; exact List.cons_sublist_cons.1 (hlr ▸ hr)
    | cons u l =>
      obtain rfl : v = u := (List.cons.inj hlr).1
      exact absurd (hl.subset (List.mem_cons_self ..)) hva
  · -- up
    exact fun u hu x hx hle => h.up u (List.mem_cons_of_mem _ hu) x (hsub.subset hx) hle
  · -- down
    intro x hx
    have hxv := (hbelow x (hsub.subset hx)).1 hx
    obtain ⟨u, hu, hle, hr⟩ := h.down x (hsub.subset hx)
    exact ⟨u, hhead u hu (Nat.lt_of_le_of_lt hle hxv), hle, hr⟩
  · -- seen
    exact fun x y hx hseen => h.seen x y hx (hseen.leave hend)
  · -- closed
    rintro x y ⟨hx, hxb⟩ he
    suffices hy : s.Done y ∨ y ∈ s.stack ∧ s.num v ≤ s.num y by
      rcases hy with ⟨hy, hys⟩ | ⟨hys, hle⟩
      · exact ⟨hy, fun hyb => hys (hsub.subset hyb)⟩
      · exact ⟨h.numbered y hys, fun hyb => absurd ((hbelow y hys).1 hyb) (Nat.not_lt_of_le hle)⟩
    by_cases hxs : x ∈ s.stack
    · exact h.above_closed hend hroot hxs (Nat.not_lt.1 fun hlt => hxb ((hbelow x hxs).2 hlt)) he
    · exact Or.inl (h.closed x y ⟨hx, hxs⟩ he)
  · -- low_le
    exact fun u hu => h.low_le u (List.mem_cons_of_mem _ hu)
  · -- low_reached
    intro u hu
    obtain ⟨y, hy, hyn, hr⟩ := h.low_reached u (List.mem_cons_of_mem _ hu)
    refine ⟨y, (hbelow y hy).2 ?_, hyn, hr⟩
    rw [hyn]
    exact Nat.lt_of_le_of_lt (h.low_le u (List.mem_cons_of_mem _ hu)) (hpath u hu)
  · -- low_covers
    intro x hx y hy hseen u hu hux
    obtain ⟨r, hr, hur, hry⟩ := h.low_covers x (hsub.subset hx) y (hsub.subset hy)
      (hseen.leave hend) u (List.mem_cons_of_mem _ hu) hux
    rcases List.mem_cons.1 hr with hrv | hr
    · rw [show r = v from hrv, hroot] at hry
      exact absurd ((hbelow y (hsub.subset hy)).1 hy) (Nat.not_lt_of_le hry)
    · exact ⟨r, hr, hur, hry⟩

/-! ### Handing a low link down -/

/-- A low link that is not less than the own one of the file below changes nothing. -/
theorem Invariant.lower_of_le {u : String} {n : Nat} (h : Invariant forward s path next)
    (hn : s.lowOf u ≤ n) : Invariant forward (s.lower u n) path next := by
  have hlow : ∀ x, (s.lower u n).lowOf x = s.lowOf x := by
    intro x
    by_cases hx : x = u
    · rw [hx, lowOf_lower_self, Nat.min_eq_left hn]
    · exact lowOf_lower_of_ne s hx n
  refine ⟨h.known, h.num_lt, h.numbered, h.sorted, h.path_sub, h.up, h.down, h.seen, h.closed,
    fun v hv => ?_, fun v hv => ?_, fun x hx y hy hs v hv hle => ?_⟩
  · rw [hlow v]; exact h.low_le v hv
  · rw [hlow v]; exact h.low_reached v hv
  · obtain ⟨r, hr, hvr, hry⟩ := h.low_covers x hx y hy hs v hv hle
    exact ⟨r, hr, hvr, by rwa [hlow r]⟩

/-- The low link of a file that is no root comes from a file of the path below it. -/
theorem Invariant.exists_lower (h : Invariant forward s ((v, p) :: path) next)
    (hroot : s.lowOf v ≠ s.num v) :
    ∃ u ∈ path.map (·.1), s.num u < s.num v ∧ forward.Reaches v u := by
  have hv := List.mem_cons_self (a := v) (l := path.map (·.1))
  obtain ⟨y, hy, hyn, hvy⟩ := h.low_reached v hv
  obtain ⟨u, hu, huy, hyu⟩ := h.down y hy
  have hlt : s.num u < s.num v := by
    have := h.low_le v hv
    omega
  refine ⟨u, (List.mem_cons.1 hu).resolve_left fun he => ?_, hlt, hvy.trans hyu⟩
  rw [show u = v from he] at hlt
  exact Nat.lt_irrefl _ hlt

/-- A file that is no root leaves the path and stays on the stack, and the file below it in the path
    takes over its low link. -/
theorem Invariant.handDown {u : String} {q : Nat}
    (h : Invariant forward s ((v, p) :: (u, q) :: path) none)
    (hend : (forward.neighbours v).length ≤ p) (hroot : s.lowOf v ≠ s.num v) :
    Invariant forward (s.lower u (s.lowOf v)) ((u, q) :: path) none := by
  have hv := List.mem_cons_self (a := v) (l := ((u, q) :: path).map (·.1))
  have hu := List.mem_cons_self (a := u) (l := path.map (·.1))
  have hself : (s.lower u (s.lowOf v)).lowOf u = min (s.lowOf u) (s.lowOf v) :=
    lowOf_lower_self ..
  have hother : ∀ x, x ≠ u → (s.lower u (s.lowOf v)).lowOf x = s.lowOf x :=
    fun x hx => lowOf_lower_of_ne s hx _
  have hall : ∀ x, (s.lower u (s.lowOf v)).lowOf x ≤ s.lowOf x := by
    intro x
    by_cases hx : x = u
    · rw [hx, hself]; exact Nat.min_le_left ..
    · exact Nat.le_of_eq (hother x hx)
  refine ⟨h.known, h.num_lt, h.numbered, h.sorted, (List.sublist_cons_self ..).trans h.path_sub,
    fun w hw => h.up w (List.mem_cons_of_mem _ hw), ?_, ?_, h.closed, ?_, ?_, ?_⟩
  · -- down
    intro x hx
    obtain ⟨w, hw, hle, hr⟩ := h.down x hx
    rcases List.mem_cons.1 hw with hwv | hw
    · rw [show w = v from hwv] at hle hr
      obtain ⟨r, hr', hlt, hvr⟩ := h.exists_lower hroot
      exact ⟨r, hr', Nat.le_of_lt (Nat.lt_of_lt_of_le hlt hle), hr.trans hvr⟩
    · exact ⟨w, hw, hle, hr⟩
  · -- seen
    exact fun x y hx hs => h.seen x y hx (hs.leave hend)
  · -- low_le
    exact fun w hw => Nat.le_trans (hall w) (h.low_le w (List.mem_cons_of_mem _ hw))
  · -- low_reached
    intro w hw
    by_cases hwu : w = u
    · rw [hwu, hself]
      rcases Nat.le_total (s.lowOf u) (s.lowOf v) with hle | hle
      · rw [Nat.min_eq_left hle]; exact h.low_reached u (List.mem_cons_of_mem _ hu)
      · rw [Nat.min_eq_right hle]
        obtain ⟨y, hy, hyn, hr⟩ := h.low_reached v hv
        have huv : forward.Reaches u v := h.reaches_head (h.mem_stack (List.mem_cons_of_mem _ hu))
        exact ⟨y, hy, hyn, huv.trans hr⟩
    · rw [hother w hwu]; exact h.low_reached w (List.mem_cons_of_mem _ hw)
  · -- low_covers
    intro x hx y hy hs w hw hwx
    obtain ⟨r, hr, hwr, hry⟩ := h.low_covers x hx y hy (hs.leave hend) w
      (List.mem_cons_of_mem _ hw) hwx
    rcases List.mem_cons.1 hr with hrv | hr
    · rw [show r = v from hrv] at hry
      refine ⟨u, hu, ?_, Nat.le_trans ?_ hry⟩
      · rcases List.mem_cons.1 hw with hwu | hw
        · exact Nat.le_of_eq (by rw [show w = u from hwu])
        · have hsorted := List.pairwise_cons.1 (h.sorted.sublist h.path_sub)
          exact Nat.le_of_lt ((List.pairwise_cons.1 hsorted.2).1 w hw)
      · rw [hself]; exact Nat.min_le_right ..
    · exact ⟨r, hr, hwr, Nat.le_trans (hall r) hry⟩

/-! ### The components found so far -/

/-- What is known of the components taken off the stack: they are the components of at least two
    files among the files that are done, and none leads to one that was completed later. -/
structure Completed (forward : Adjacency) (s : Search) : Prop where
  size : ∀ c ∈ s.components, 2 ≤ c.length
  done : ∀ c ∈ s.components, ∀ x ∈ c, s.Done x
  reaches : ∀ c ∈ s.components, ∀ x ∈ c, ∀ y ∈ c, forward.Reaches x y
  nodup : ∀ c ∈ s.components, c.Nodup
  order : s.components.Pairwise fun later earlier =>
    ∀ x ∈ earlier, ∀ y ∈ later, ¬ forward.Reaches x y
  whole : ∀ x y, s.Done x → x ≠ y → forward.Mutual x y → ∃ c ∈ s.components, x ∈ c ∧ y ∈ c

theorem Completed.of_same {s' : Search} (h : Completed forward s)
    (hc : s'.components = s.components) (hd : ∀ x, s'.Done x ↔ s.Done x) :
    Completed forward s' := by
  refine ⟨?_, ?_, ?_, ?_, ?_, ?_⟩
  · rw [hc]; exact h.size
  · rw [hc]; exact fun c hm x hx => (hd x).2 (h.done c hm x hx)
  · rw [hc]; exact h.reaches
  · rw [hc]; exact h.nodup
  · rw [hc]; exact h.order
  · rw [hc]; exact fun x y hx => h.whole x y ((hd x).1 hx)

theorem Completed.meet {w : String} (h : Completed forward s) (hw : ¬ s.Numbered w) :
    Completed forward (s.meet w) := by
  refine h.of_same rfl fun x => ⟨?_, ?_⟩
  · rintro ⟨hx, hxs⟩
    have hxw : x ≠ w := fun he => hxs (he ▸ List.mem_cons_self ..)
    exact ⟨(numbered_meet.1 hx).resolve_left hxw, fun hm => hxs (List.mem_cons_of_mem _ hm)⟩
  · rintro ⟨hx, hxs⟩
    refine ⟨numbered_meet.2 (Or.inr hx), fun hm => ?_⟩
    rcases List.mem_cons.1 hm with he | hm
    · exact hw (he ▸ hx)
    · exact hxs hm

/-- What is done without the part of the stack from `v` on: that part and what was done before. -/
theorem Invariant.done_pop_iff (h : Invariant forward s path next)
    (hs : s.stack = above ++ v :: below) (found : List (List String)) :
    ({ s with stack := below, components := found } : Search).Done x ↔
      s.Done x ∨ x ∈ above ++ [v] := by
  have hstack : s.stack = (above ++ [v]) ++ below := by rw [hs, List.append_cons above v below]
  have hnd := h.stack_nodup
  rw [hstack] at hnd
  constructor
  · rintro ⟨hx, hxb⟩
    by_cases hxs : x ∈ s.stack
    · rw [hstack] at hxs
      exact Or.inr ((List.mem_append.1 hxs).resolve_right hxb)
    · exact Or.inl ⟨hx, hxs⟩
  · rintro (⟨hx, hxs⟩ | hx)
    · exact ⟨hx, fun hxb => hxs (hstack ▸ List.mem_append_right _ hxb)⟩
    · exact ⟨h.numbered x (hstack ▸ List.mem_append_left _ hx),
        fun hxb => (List.nodup_append.1 hnd).2.2 x hx x hxb rfl⟩

/-- Files on the stack from a path file on reach each other. -/
theorem Invariant.reaches_of_above (h : Invariant forward s ((v, p) :: path) next)
    (hs : s.stack = above ++ v :: below) (hx : x ∈ above ++ [v]) (hy : y ∈ above ++ [v]) :
    forward.Reaches x y := by
  have hmem : ∀ z ∈ above ++ [v], z ∈ s.stack := by
    intro z hz
    rw [hs, List.append_cons above v below]
    exact List.mem_append_left _ hz
  have hvy := h.up v (List.mem_cons_self ..) y (hmem y hy) ((h.mem_above_iff hs (hmem y hy)).1 hy)
  exact (h.reaches_head (hmem x hx)).trans hvy

/-- Taking the part of the stack from a root on completes one more component. -/
theorem Completed.pop (hc : Completed forward s) (h : Invariant forward s ((v, p) :: path) none)
    (hend : (forward.neighbours v).length ≤ p) (hroot : s.lowOf v = s.num v)
    (hs : s.stack = above ++ v :: below) {found : List (List String)}
    (hfound : found = if 2 ≤ (above ++ [v]).length then (above ++ [v]) :: s.components
      else s.components) :
    Completed forward { s with stack := below, components := found } := by
  have hdone := fun x => h.done_pop_iff (x := x) hs found
  have hclosed := fun x y => (h.pop hend hroot hs found).done_of_reaches (x := x) (y := y)
  have hsub : (above ++ [v]).Sublist s.stack := by
    rw [hs, List.append_cons above v below]
    exact List.sublist_append_left ..
  have hnew : ∀ x ∈ above ++ [v], x ∈ s.stack := fun x hx => hsub.subset hx
  have hmem : ∀ c ∈ found, c = above ++ [v] ∧ 2 ≤ c.length ∨ c ∈ s.components := by
    intro c hm
    rw [hfound] at hm
    split at hm
    · rcases List.mem_cons.1 hm with rfl | hm
      · exact Or.inl ⟨rfl, by assumption⟩
      · exact Or.inr hm
    · exact Or.inr hm
  have hold : ∀ c ∈ s.components, c ∈ found := by
    intro c hm
    rw [hfound]
    split
    · exact List.mem_cons_of_mem _ hm
    · exact hm
  refine ⟨?_, ?_, ?_, ?_, ?_, ?_⟩
  · -- size
    intro c hm
    rcases hmem c hm with ⟨_, hlen⟩ | hm
    · exact hlen
    · exact hc.size c hm
  · -- done
    intro c hm x hx
    rcases hmem c hm with ⟨rfl, _⟩ | hm
    · exact (hdone x).2 (Or.inr hx)
    · exact (hdone x).2 (Or.inl (hc.done c hm x hx))
  · -- reaches
    intro c hm x hx y hy
    rcases hmem c hm with ⟨rfl, _⟩ | hm
    · exact h.reaches_of_above hs hx hy
    · exact hc.reaches c hm x hx y hy
  · -- nodup
    intro c hm
    rcases hmem c hm with ⟨rfl, _⟩ | hm
    · exact h.stack_nodup.sublist hsub
    · exact hc.nodup c hm
  · -- order
    show found.Pairwise _
    rw [hfound]
    split
    · refine List.pairwise_cons.2 ⟨fun c hm x hx y hy hr => ?_, hc.order⟩
      exact (h.done_of_reaches (hc.done c hm x hx) hr).2 (hnew y hy)
    · exact hc.order
  · -- whole
    intro x y hx hne hxy
    have hy := hclosed x y hx hxy.1
    rcases (hdone x).1 hx with hxd | hxa
    · obtain ⟨c, hm, hin⟩ := hc.whole x y hxd hne hxy
      exact ⟨c, hold c hm, hin⟩
    · have hya : y ∈ above ++ [v] := by
        refine ((hdone y).1 hy).resolve_left fun hyd => ?_
        exact (h.done_of_reaches hyd hxy.2).2 (hnew x hxa)
      refine ⟨above ++ [v], ?_, hxa, hya⟩
      show above ++ [v] ∈ found
      rw [hfound, if_pos]
      · exact List.mem_cons_self ..
      · cases above with
        | nil => exact absurd ((List.mem_singleton.1 hxa).trans (List.mem_singleton.1 hya).symm) hne
        | cons u above => simp

/-! ### Leaving a file -/

/-- Leaving the first file of the path keeps what the search knows. -/
theorem Invariant.leave (h : Invariant forward s ((v, p) :: path) none)
    (hc : Completed forward s) (hend : (forward.neighbours v).length ≤ p) (hw : s.work = path) :
    Invariant forward (s.leave v) path none ∧ Completed forward (s.leave v) ∧
      (s.leave v).work = path ∧ (s.leave v).index = s.index := by
  have hv := List.mem_cons_self (a := v) (l := path.map (·.1))
  have hvs : v ∈ s.stack := h.mem_stack hv
  have hindex := indexOf?_of_numbered (h.numbered v hvs)
  by_cases hroot : s.lowOf v = s.num v
  · obtain ⟨above, below, hs, hu⟩ := unstack_of_mem hvs
    have hcomplete : s.complete v = { s with
        stack := below,
        components := if 2 ≤ (above ++ [v]).length then (above ++ [v]) :: s.components
          else s.components } := by
      rw [complete, if_pos (by rw [hindex, hroot]; exact beq_self_eq_true _), hu]
    have hi := h.pop hend hroot hs (if 2 ≤ (above ++ [v]).length then (above ++ [v]) :: s.components
      else s.components)
    have hp := hc.pop h hend hroot hs rfl
    rw [← hcomplete] at hi hp
    have hwork : (s.complete v).work = path := by rw [hcomplete]; exact hw
    have hidx : (s.complete v).index = s.index := by rw [hcomplete]
    have hlow : ∀ x, (s.complete v).lowOf x = s.lowOf x := by rw [hcomplete]; exact fun _ => rfl
    rw [Search.leave, Search.handDown, hwork]
    cases path with
    | nil => exact ⟨hi, hp, hwork, hidx⟩
    | cons e more =>
      refine ⟨hi.lower_of_le ?_, hp.of_same rfl fun _ => Iff.rfl, hwork, hidx⟩
      have hlt := h.num_lt_head (List.mem_cons_self (a := e.1) (l := more.map (·.1)))
      have := h.low_le e.1 (List.mem_cons_of_mem _ (List.mem_cons_self ..))
      rw [hlow, hlow]
      omega
  · have hcomplete : s.complete v = s := by
      rw [complete, if_neg]
      rw [hindex]
      simpa using hroot
    obtain ⟨u, hu, _⟩ := h.exists_lower hroot
    rw [Search.leave, hcomplete, Search.handDown, hw]
    cases path with
    | nil => simp at hu
    | cons e more => exact ⟨h.handDown hend hroot, hc.of_same rfl fun _ => Iff.rfl, hw, rfl⟩

end CodeSurvey.Graph.Search
