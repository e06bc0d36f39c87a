import CodeSurvey.Proofs.Graph.Watched
import Mathlib.Data.List.Count

/-!
What the record of the depth-first search tells. Between two work items every numbered file has been
put on the stack once, what has been put there is still there or has been taken off, and of the
neighbours of a file those before its position have been looked at, each once. Main statement: the
watched search does not fail and comes to the result of the search; its record has every file once
on the stack and once off it, every neighbour of every file looked at once, and at most two work
items for each file.
-/

namespace CodeSurvey.Graph.Search.Watched

open Adjacency

variable {forward : Adjacency} {s : Search} {path : List (String × Nat)} {next : Option String}
  {v x w : String} {p : Nat} {record : List Event}

/-- The position up to which the neighbours of a file have been looked at when `work` is to be done:
    a numbered file that is not among the work has no neighbour left. -/
def progress (forward : Adjacency) (s : Search) (work : List (String × Nat)) (x : String) : Nat :=
  match work.lookup x with
  | some p => p
  | none => if (s.indexOf? x).isSome then (forward.neighbours x).length else 0

variable {s' : Search} {work : List (String × Nat)} {file : String} {k : Nat} {taken : List String}

@[simp]
theorem progress_cons_self : progress forward s ((x, p) :: work) x = p := by
  rw [progress, List.lookup_cons_self]

theorem progress_cons_of_ne (h : x ≠ v) :
    progress forward s ((v, p) :: work) x = progress forward s work x := by
  rw [progress, progress, List.lookup_cons, beq_false_of_ne h]

theorem progress_of_notMem (h : x ∉ work.map (·.1)) : progress forward s work x =
    if (s.indexOf? x).isSome then (forward.neighbours x).length else 0 := by
  have hnone : work.lookup x = none := List.lookup_eq_none_iff.2 fun e he => by
    simpa using fun hxe : x = e.1 => h (List.mem_map.2 ⟨e, he, hxe.symm⟩)
  rw [progress, hnone]

theorem progress_eq_of_index (h : s'.index = s.index) :
    progress forward s' work x = progress forward s work x := by
  rw [progress, progress, indexOf?, indexOf?, h]

/-- What the record of a search tells when `work` is to be done. -/
structure Recorded (forward : Adjacency) (s : Search) (work : List (String × Nat))
    (record : List Event) : Prop where
  linked : Linked s
  pushes : ∀ x, record.count (.pushes x) = if (s.indexOf? x).isSome then 1 else 0
  /-- What has been put on the stack is still there or has been taken off. -/
  pops : ∀ x, record.count (.pops x) + s.stack.count x = record.count (.pushes x)
  looks : ∀ x p, record.count (.looks x p) = if p < progress forward s work x then 1 else 0

theorem recorded_empty (forward : Adjacency) : Recorded forward {} [] [] where
  linked := fun x hx => by simp [Numbered, indexOf?] at hx
  pushes := by simp [indexOf?]
  pops := by simp
  looks := by simp [progress, indexOf?]

theorem Recorded.takes (h : Recorded forward s work record) (file : String) (p : Nat) :
    Recorded forward s work (record ++ [.takes file p]) :=
  ⟨h.linked, by simpa [List.count_append] using h.pushes, by simpa [List.count_append] using h.pops,
    by simpa [List.count_append] using h.looks⟩

/-- Nothing is said about the links but that there are some. -/
theorem Recorded.of_same (h : Recorded forward s work record) (hl : Linked s')
    (hindex : s'.index = s.index) (hstack : s'.stack = s.stack) :
    Recorded forward s' work record := by
  refine ⟨hl, fun x => ?_, fun x => ?_, fun x p => ?_⟩
  · rw [h.pushes, indexOf?, indexOf?, hindex]
  · rw [hstack, h.pops]
  · rw [h.looks, progress_eq_of_index hindex]

/-- A file that is not numbered may be put in front of the work. -/
theorem Recorded.fresh (h : Recorded forward s work record) (hw : ¬ s.Numbered w)
    (hwork : ∀ e ∈ work, s.Numbered e.1) : Recorded forward s ((w, 0) :: work) record := by
  refine ⟨h.linked, h.pushes, h.pops, fun x p => ?_⟩
  have hprogress : progress forward s ((w, 0) :: work) x = progress forward s work x := by
    by_cases hx : x = w
    · subst hx
      have hnot : x ∉ work.map (·.1) := fun hm =>
        have ⟨e, he, hxe⟩ := List.mem_map.1 hm
        hw (hxe ▸ hwork e he)
      rw [progress_cons_self]
      exact ((progress_of_notMem hnot).trans (if_neg hw)).symm
    · exact progress_cons_of_ne hx
  rw [hprogress]
  exact h.looks x p

theorem Recorded.meet (h : Recorded forward s ((w, 0) :: work) record) (hw : ¬ s.Numbered w) :
    Recorded forward (s.meet w) ((w, 0) :: work) (record ++ [.pushes w]) := by
  refine ⟨h.linked.meet w, fun x => ?_, fun x => ?_, fun x p => ?_⟩
  · by_cases hx : x = w
    · subst hx
      simp [List.count_append, h.pushes, indexOf?_meet_self, Bool.eq_false_iff.2 hw]
    · simp [List.count_append, h.pushes, indexOf?_meet_of_ne s hx, Ne.symm hx]
  · have := h.pops x
    by_cases hx : w = x <;> simp [List.count_append, Search.meet, hx] <;> omega
  · have hprogress : progress forward (s.meet w) ((w, 0) :: work) x =
        progress forward s ((w, 0) :: work) x := by
      by_cases hx : x = w
      · rw [hx, progress_cons_self, progress_cons_self]
      · simp [progress, indexOf?_meet_of_ne s hx]
    rw [hprogress, List.count_append, h.looks]
    simp

/-- Looking at some neighbours moves the position of the file. -/
theorem Recorded.look (h : Recorded forward s ((v, p) :: work) record) (k : Nat) :
    Recorded forward s ((v, p + k) :: work) (record ++ (List.range' p k).map (.looks v)) := by
  have hnone : ∀ e, (∀ q, Event.looks v q ≠ e) → ((List.range' p k).map (.looks v)).count e = 0 :=
    fun e he => List.count_eq_zero.2 fun hm => by
      obtain ⟨q, -, hq⟩ := List.mem_map.1 hm
      exact he q hq
  refine ⟨h.linked, fun x => ?_, fun x => ?_, fun x q => ?_⟩
  · rw [List.count_append, hnone _ (by simp), Nat.add_zero, h.pushes]
  · rw [List.count_append, List.count_append, hnone _ (by simp), hnone _ (by simp)]
    exact h.pops x
  · rw [List.count_append, h.looks]
    by_cases hx : x = v
    · subst hx
      have hcount : ((List.range' p k).map (Event.looks x)).count (.looks x q) =
          (List.range' p k).count q :=
        List.count_map_of_injective _ _ (fun a b hab => (Event.looks.inj hab).2) q
      rw [hcount, List.count_range_1']
      rw [progress_cons_self, progress_cons_self]
      split <;> split <;> split <;> omega
    · rw [hnone _ (by simp [Ne.symm hx]), Nat.add_zero, progress_cons_of_ne hx,
        progress_cons_of_ne hx]

/-- Files taken off the stack. -/
theorem Recorded.unstack (h : Recorded forward s work record) (hl : Linked s')
    (hindex : s'.index = s.index) (hstack : s.stack = taken ++ s'.stack) :
    Recorded forward s' work (record ++ taken.map .pops) := by
  have hnone : ∀ e, (∀ y, Event.pops y ≠ e) → (taken.map Event.pops).count e = 0 :=
    fun e he => List.count_eq_zero.2 fun hm => by
      obtain ⟨y, -, hy⟩ := List.mem_map.1 hm
      exact he y hy
  refine ⟨hl, fun x => ?_, fun x => ?_, fun x q => ?_⟩
  · rw [List.count_append, hnone _ (by simp), Nat.add_zero, h.pushes, indexOf?, indexOf?, hindex]
  · have hcount : (taken.map Event.pops).count (.pops x) = taken.count x :=
      List.count_map_of_injective _ _ (fun a b hab => Event.pops.inj hab) x
    have hpops := h.pops x
    rw [hstack, List.count_append] at hpops
    rw [List.count_append, List.count_append, hcount, hnone _ (by simp)]
    omega
  · rw [List.count_append, hnone _ (by simp), Nat.add_zero, h.looks, progress_eq_of_index hindex]

/-- A file with no neighbour left may leave the work. -/
theorem Recorded.leave (h : Recorded forward s ((v, p) :: work) record) (hv : s.Numbered v)
    (hp : p = (forward.neighbours v).length) (hwork : v ∉ work.map (·.1)) :
    Recorded forward s work record := by
  refine ⟨h.linked, h.pushes, h.pops, fun x q => ?_⟩
  have hprogress : progress forward s work x = progress forward s ((v, p) :: work) x := by
    by_cases hx : x = v
    · subst hx
      rw [progress_cons_self, hp]
      exact (progress_of_notMem hwork).trans (if_pos hv)
    · exact (progress_cons_of_ne hx).symm
  rw [hprogress]
  exact h.looks x q

/-! ### A work item -/

/-- Leaving a file that is on the stack does not fail. -/
theorem does_leave (hr : Recorded forward s ((v, p) :: path) record)
    (hp : p = (forward.neighbours v).length) (hs : v ∈ s.stack) (hv : s.Numbered v)
    (hpath : ∀ e ∈ path, s.Numbered e.1) (hnot : v ∉ path.map (·.1)) (hw : s.work = path) :
    ∃ popped : List String, Does (leave s v) (s.leave v) (popped.map .pops) ∧
      Recorded forward (s.leave v) (s.leave v).work (record ++ popped.map .pops) := by
  obtain ⟨popped, hcomplete, hstack⟩ := does_complete hr.linked hv hs
  have hrest := complete_rest s v
  rw [Search.leave]
  generalize s.complete v = t at hcomplete hstack hrest
  have hindex : t.index = s.index := by rw [hrest]
  have hwork : t.work = path := by rw [hrest]; exact hw
  have hlinked : Linked t := by rw [hrest]; exact hr.linked
  have hnumbered : ∀ x, t.Numbered x ↔ s.Numbered x := fun x => by
    rw [Numbered, indexOf?, hindex]; rfl
  have hdown := does_handDown hlinked ((hnumbered v).2 hv) fun e he =>
    (hnumbered e.1).2 (hpath e (hwork ▸ he))
  have hleft := ((hr.unstack hlinked hindex hstack).leave ((hnumbered v).2 hv) hp hnot).of_same
    (hlinked.handDown v) (by rw [handDown_rest]) (by rw [handDown_rest])
  have hpath' : (t.handDown v).work = path := by rw [handDown_rest]; exact hwork
  exact ⟨popped, hcomplete.then_quiet hdown, hpath'.symm ▸ hleft⟩

/-- Going on with a file does not fail, and no other item is taken meanwhile. -/
theorem does_proceed (h : Invariant forward s ((v, p) :: path) none)
    (hr : Recorded forward s ((v, p) :: path) record) (hw : s.work = path)
    (hp : p ≤ (forward.neighbours v).length) :
    ∃ events, Does (proceed forward s v p) (s.proceed forward v p) events ∧
      Recorded forward (s.proceed forward v p) (s.proceed forward v p).work (record ++ events) ∧
      events.countP Event.isTake = 0 := by
  have hs : v ∈ s.stack := h.mem_stack (List.mem_cons_self ..)
  have hv : s.Numbered v := h.numbered v hs
  have hpath : ∀ e ∈ (v, p) :: path, s.Numbered e.1 := fun e he =>
    h.numbered e.1 (h.mem_stack (List.mem_map.2 ⟨e, he, rfl⟩))
  obtain ⟨_, _, -, hl, -⟩ := look_spec s v p ((forward.neighbours v).drop p)
  obtain ⟨hlinked, k, hdoes, hend⟩ := does_look hr.linked hv p ((forward.neighbours v).drop p)
  have hlooks := hr.look k
  have hquiet : ((List.range' p k).map (Event.looks v)).countP Event.isTake = 0 := by
    simp [List.countP_map, Function.comp_def, Event.isTake]
  have hrest := hl.rest
  rw [Search.proceed]
  unfold proceed
  generalize s.look v p ((forward.neighbours v).drop p) = looked at hdoes hlinked hend hrest
  obtain ⟨t, end'⟩ := looked
  dsimp only at hlinked hend hrest ⊢
  have hindex : t.index = s.index := by rw [hrest]
  have hstack : t.stack = s.stack := by rw [hrest]
  have hwork : t.work = path := by rw [hrest]; exact hw
  have hnumbered : ∀ x, t.Numbered x ↔ s.Numbered x := fun x => by
    rw [Numbered, indexOf?, hindex]; rfl
  replace hlooks := hlooks.of_same hlinked hindex hstack
  rcases hend with ⟨rfl, hk⟩ | ⟨w, hfresh, rfl⟩
  · -- out of the file
    have hfull : p + k = (forward.neighbours v).length := by
      rw [hk, List.length_drop]; omega
    obtain ⟨popped, hleave, hleft⟩ := does_leave hlooks hfull (hstack.symm ▸ hs)
      ((hnumbered v).2 hv) (fun e he => (hnumbered e.1).2 (hpath e (List.mem_cons_of_mem _ he)))
      h.head_notMem hwork
    refine ⟨_, hdoes.bind hleave, by rw [← List.append_assoc]; exact hleft, ?_⟩
    rw [List.countP_append, hquiet]
    simp [List.countP_map, Function.comp_def, Event.isTake]
  · -- down to a neighbour
    refine ⟨_, hdoes.then_quiet (.pure _), ?_, hquiet⟩
    have hbelow : ∀ e ∈ (v, p + k) :: path, t.Numbered e.1 := by
      intro e he
      rcases List.mem_cons.1 he with rfl | he
      · exact (hnumbered v).2 hv
      · exact (hnumbered e.1).2 (hpath e (List.mem_cons_of_mem _ he))
    have hdown := hlooks.fresh (mt (hnumbered w).1 hfresh) hbelow
    rw [← hwork] at hdown
    exact hdown.of_same hlinked rfl rfl

/-- One work item does not fail, and it is the only one that is taken. -/
theorem does_step (h : Ready forward s path next) (hr : Recorded forward s s.work record)
    (hw : s.work ≠ []) :
    ∃ events, Does (step forward s) (s.step forward) events ∧
      Recorded forward (s.step forward) (s.step forward).work (record ++ events) ∧
      events.countP Event.isTake = 1 := by
  obtain ⟨⟨v, p⟩, work, hwork⟩ := List.exists_cons_of_ne_nil hw
  have he := h.enter hwork
  rw [hwork] at hr
  have hentered : ∃ events, Does (enter s v p work) (s.enter v p work) events ∧
      Recorded forward (s.enter v p work) ((v, p) :: work) (record ++ events) ∧
      events.countP Event.isTake = 1 := by
    have htakes : Recorded forward { s with work } ((v, p) :: work) (record ++ [.takes v p]) :=
      (hr.takes v p).of_same hr.linked rfl rfl
    rw [enter, Search.enter]
    by_cases hp : p = 0
    · subst hp
      exact ⟨_, Does.notes (Does.notes (.pure _)), by simpa using htakes.meet (he.fresh rfl), rfl⟩
    · rw [if_neg (by simpa using hp), if_neg (by simpa using hp)]
      exact ⟨_, Does.notes (.pure _), htakes, rfl⟩
  obtain ⟨events, hdoes, hrecorded, htake⟩ := hentered
  obtain ⟨more, hproceed, hend, hquiet⟩ :=
    does_proceed he.invariant hrecorded he.work_eq he.position
  rw [step_of_work hwork, step, hwork]
  refine ⟨_, hdoes.bind hproceed, by rw [← List.append_assoc]; exact hend, ?_⟩
  rw [List.countP_append, htake, hquiet]

/-! ### A run, and the whole search -/

theorem run_of_no_work (fuel : Nat) (hw : s.work = []) : run forward fuel s = pure s := by
  cases fuel <;> simp [run, hw]

/-- A run that has enough fuel does not fail, and every item it takes brings it nearer to its
    end. -/
theorem does_run (fuel : Nat) (h : Ready forward s path next)
    (hr : Recorded forward s s.work record) (hfuel : s.left forward ≤ fuel) :
    ∃ events, Does (run forward fuel s) (s.run forward fuel) events ∧
      Recorded forward (s.run forward fuel) (s.run forward fuel).work (record ++ events) ∧
      events.countP Event.isTake + (s.run forward fuel).left forward ≤ s.left forward := by
  induction fuel generalizing s path next record with
  | zero =>
    have hw : s.work = [] := by
      by_contra hw
      exact absurd (h.step hw).2.1 (by omega)
    rw [run_of_no_work 0 hw, Search.run]
    exact ⟨[], .pure s, by rwa [List.append_nil], by simp⟩
  | succ fuel ih =>
    rw [Search.run]
    by_cases hw : s.work = []
    · rw [run_of_no_work _ hw, if_pos (by simpa using hw)]
      exact ⟨[], .pure s, by rwa [List.append_nil], by simp⟩
    · obtain ⟨events, hstep, hr', htake⟩ := does_step h hr hw
      obtain ⟨⟨path', next', hready⟩, hlt, -, -⟩ := h.step hw
      obtain ⟨more, hrun, hend, hleft⟩ := ih hready hr' (by omega)
      rw [run, if_neg (by simpa using hw), if_neg (by simpa using hw)]
      refine ⟨_, hstep.bind hrun, by rw [← List.append_assoc]; exact hend, ?_⟩
      rw [List.countP_append]
      omega

/-- A search from a file does not fail. -/
theorem does_start {fuel : Nat} (h : Ready forward s [] none) (hr : Recorded forward s [] record)
    (hx : x ∈ nodes forward) (hfuel : 2 * (nodes forward).length ≤ fuel) :
    ∃ events, Does (start forward fuel s x) (s.start forward fuel x) events ∧
      Recorded forward (s.start forward fuel x) [] (record ++ events) ∧
      events.countP Event.isTake + (s.start forward fuel x).left forward ≤ s.left forward := by
  have hstart := (h.start hx hfuel).1.work
  rw [Search.start] at hstart ⊢
  rw [start]
  split
  · exact ⟨[], .pure s, by rwa [List.append_nil], by simp⟩
  · next hnumbered =>
    rw [if_neg hnumbered] at hstart
    have hbegin : Recorded forward { s with work := [(x, 0)] } [(x, 0)] record :=
      (hr.fresh hnumbered (by simp)).of_same hr.linked rfl rfl
    obtain ⟨events, hrun, hend, hleft⟩ := does_run fuel (h.begin hnumbered hx) hbegin
      (Nat.le_trans (left_begin_le s x) hfuel)
    have hsame : ({ s with work := [(x, 0)] } : Search).left forward = s.left forward := by
      rw [left, left, show s.work = [] from h.work]; rfl
    rw [hstart] at hend
    exact ⟨events, hrun, hend, hsame ▸ hleft⟩

/-- Searches from the files of a list do not fail. -/
theorem does_foldlM_start {fuel : Nat} (hfuel : 2 * (nodes forward).length ≤ fuel)
    (files : List String) (hfiles : ∀ x ∈ files, x ∈ nodes forward)
    (h : Ready forward s [] none) (hr : Recorded forward s [] record) :
    ∃ events, Does (files.foldlM (start forward fuel) s)
        (files.foldl (Search.start forward fuel) s) events ∧
      Recorded forward (files.foldl (Search.start forward fuel) s) [] (record ++ events) ∧
      events.countP Event.isTake + (files.foldl (Search.start forward fuel) s).left forward ≤
        s.left forward := by
  induction files generalizing s record with
  | nil => exact ⟨[], .pure s, by rwa [List.append_nil], by simp⟩
  | cons f more ih =>
    have hf := hfiles f (List.mem_cons_self ..)
    obtain ⟨events, hstart, hr', hleft⟩ := does_start h hr hf hfuel
    obtain ⟨rest, hrest, hend, hleft'⟩ :=
      ih (fun x hx => hfiles x (List.mem_cons_of_mem _ hx)) (h.start hf hfuel).1 hr'
    refine ⟨_, hstart.bind hrest, by rw [← List.append_assoc]; exact hend, ?_⟩
    rw [List.countP_append, List.foldl_cons]
    omega

end CodeSurvey.Graph.Search.Watched

namespace CodeSurvey.Graph

open Adjacency Search

/-- Watched, the search for cycles does not fail: it reads numbers and links of numbered files only,
    it meets the root of a component before the stack is empty, and it comes to its end. It puts
    every file on the stack once and takes it off once, looks at every neighbour of every file once,
    and takes at most two work items for each file. -/
theorem search_watched (forward : Adjacency) :
    ∃ record, (Watched.search forward).run [] = some (search forward, record) ∧
      (∀ x, record.count (.pushes x) = if x ∈ nodes forward then 1 else 0) ∧
      (∀ x, record.count (.pops x) = if x ∈ nodes forward then 1 else 0) ∧
      (∀ x p, record.count (.looks x p) = if p < (forward.neighbours x).length then 1 else 0) ∧
      record.countP Event.isTake ≤ 2 * (nodes forward).length := by
  obtain ⟨record, hdoes, hr, hleft⟩ := Watched.does_foldlM_start (Nat.le_refl _) (nodes forward)
    (fun _ hx => hx) (ready_empty forward) (Watched.recorded_empty forward)
  change Watched.Recorded forward (search forward) [] record at hr
  obtain ⟨hready, hdone⟩ := search_ready forward
  have hnumbered : ∀ x, (search forward).Numbered x ↔ x ∈ nodes forward := fun x =>
    ⟨hready.invariant.known x, fun hx => ((hdone x).2 hx).1⟩
  have hstack : ∀ x, x ∉ (search forward).stack := fun x hx =>
    ((hdone x).2 ((hnumbered x).1 (hready.invariant.numbered x hx))).2 hx
  have hpushes : ∀ x, record.count (.pushes x) = if x ∈ nodes forward then 1 else 0 := fun x => by
    rw [hr.pushes]
    exact if_congr (hnumbered x) rfl rfl
  refine ⟨record, hdoes [], hpushes, fun x => ?_, fun x p => ?_, ?_⟩
  · rw [← hpushes, ← hr.pops, List.count_eq_zero.2 (hstack x), Nat.add_zero]
  · rw [hr.looks]
    have hprogress : Watched.progress forward (search forward) [] x =
        (forward.neighbours x).length := by
      rw [Watched.progress, List.lookup_nil]
      by_cases hx : (search forward).Numbered x
      · exact if_pos hx
      · have hnone : forward.neighbours x = [] := List.eq_nil_iff_forall_not_mem.2 fun y hy =>
          hx ((hnumbered x).2 (mem_nodes_of_edge_left hy))
        rw [hnone]
        exact if_neg hx
    rw [hprogress]
  · have hstart : ({} : Search).left forward ≤ 2 * (nodes forward).length :=
      Nat.mul_le_mul_left 2 List.countP_le_length
    omega

/-- Two files that import each other. -/
example : ((Watched.search [("a", ["b"]), ("b", ["a"])]).run []).map (·.2) = some
    [.takes "a" 0, .pushes "a", .looks "a" 0, .takes "b" 0, .pushes "b", .looks "b" 0,
      .takes "a" 1, .pops "b", .pops "a"] := by decide

end CodeSurvey.Graph
