import CodeSurvey.Distinct
import CodeSurvey.Proofs.Graph.Completion

/-!
The depth-first search as a whole. Between two work items the search knows what it should about the
path that its work spells out, and every item brings it nearer to its end: a file counts twice while
it is not numbered, once for its own item and once for the step back to the file below, and an item
of the work counts until it is done. Main statements: one item keeps all that is known and lowers
the count, a run ends with no work left, and the whole search numbers every file and leaves the
stack empty.
-/

namespace CodeSurvey.Graph.Search

open Adjacency

variable {forward : Adjacency} {s : Search} {path : List (String × Nat)} {next : Option String}
  {v x : String} {p : Nat}

/-- What holds between two work items: the work is the path, with the file to meet next in front of
    it if there is one. -/
structure Ready (forward : Adjacency) (s : Search) (path : List (String × Nat))
    (next : Option String) : Prop where
  invariant : Invariant forward s path next
  completed : Completed forward s
  work : s.work = (next.map (·, 0)).toList ++ path
  entered : ∀ e ∈ path, 0 < e.2 ∧ e.2 ≤ (forward.neighbours e.1).length
  fresh : ∀ w, next = some w →
    ¬ s.Numbered w ∧ w ∈ nodes forward ∧ ∀ e ∈ path.head?, forward.Edge e.1 w

/-- The number of files that are not numbered. -/
def unmet (forward : Adjacency) (s : Search) : Nat :=
  (nodes forward).countP fun f => (s.indexOf? f).isNone

/-- The items that a work still costs, those of files that are not numbered left out. -/
def cost : List (String × Nat) → Nat
  | [] => 0
  | (_, 0) :: path => path.length
  | (_, _ + 1) :: path => path.length + 2

/-- A bound for the items that are still to be done. -/
def left (forward : Adjacency) (s : Search) : Nat := 2 * s.unmet forward + cost s.work

theorem cost_le_of_entered (h : ∀ e ∈ path, 0 < e.2) : cost path ≤ path.length + 1 := by
  match path, h with
  | [], _ => exact Nat.zero_le _
  | (f, 0) :: more, h => exact absurd (h (f, 0) (List.mem_cons_self ..)) (Nat.lt_irrefl 0)
  | (_, _ + 1) :: _, _ => exact Nat.le_refl _

theorem unmet_eq_of_index {s' : Search} (h : s'.index = s.index) :
    s'.unmet forward = s.unmet forward := by
  simp only [unmet, indexOf?, h]

/-- Meeting a file makes the files that are not numbered fewer. -/
theorem unmet_meet_lt {w : String} (hw : ¬ s.Numbered w) (hn : w ∈ nodes forward) :
    (s.meet w).unmet forward < s.unmet forward := by
  have hperm := List.perm_cons_erase hn
  have hleft : ∀ f, f ∈ (nodes forward).erase w →
      ((s.meet w).indexOf? f).isNone = (s.indexOf? f).isNone := by
    intro f hf
    have hfw : f ≠ w := by
      rintro rfl
      exact (List.Nodup.not_mem_erase (Distinct.nodup_eraseDups _)) hf
    rw [indexOf?_meet_of_ne s hfw]
  have hnone : (s.indexOf? w).isNone = true := by simpa [Numbered] using hw
  rw [unmet, unmet, hperm.countP_eq, hperm.countP_eq, List.countP_cons, List.countP_cons,
    List.countP_congr fun f hf => by rw [hleft f hf], indexOf?_meet_self, hnone]
  simp

/-- Going on with the first file of the path ends between two work items again: below a file that
    is to be met, or out of the file. -/
theorem Ready.proceed (h : Invariant forward s ((v, p) :: path) none) (hc : Completed forward s)
    (hw : s.work = path) (hp : p ≤ (forward.neighbours v).length)
    (hpath : ∀ e ∈ path, 0 < e.2 ∧ e.2 ≤ (forward.neighbours e.1).length) :
    (∃ path' next', Ready forward (s.proceed forward v p) path' next') ∧
      (s.proceed forward v p).index = s.index ∧
      cost (s.proceed forward v p).work ≤ path.length + 1 := by
  obtain ⟨pre, post, hns, hl, hend⟩ := look_spec s v p ((forward.neighbours v).drop p)
  have hall : forward.neighbours v = (forward.neighbours v).take p ++ pre ++ post := by
    rw [List.append_assoc, ← hns, List.take_append_drop]
  have hlen : ((forward.neighbours v).take p).length = p := List.length_take_of_le hp
  have hi := h.look hl hall hlen
  have hc' : Completed forward (s.look v p ((forward.neighbours v).drop p)).1 := by
    rw [hl.rest]; exact hc.of_same rfl fun _ => Iff.rfl
  have hwork : (s.look v p ((forward.neighbours v).drop p)).1.work = path := by
    rw [hl.rest]
    exact hw
  have hindex : (s.look v p ((forward.neighbours v).drop p)).1.index = s.index := by rw [hl.rest]
  rw [Search.proceed]
  generalize s.look v p ((forward.neighbours v).drop p) = looked at hi hc' hwork hindex hend
  obtain ⟨s', end'⟩ := looked
  rcases hend with ⟨rfl, rfl⟩ | ⟨w, more, rfl, hfresh, rfl⟩
  · -- out of the file
    have hfull : (forward.neighbours v).length ≤ p + pre.length := by
      refine Nat.le_of_eq ?_
      rw [hall, List.append_nil, List.length_append, hlen]
    obtain ⟨hi', hc'', hwork', hindex'⟩ := hi.leave hc' hfull hwork
    refine ⟨⟨path, none, hi', hc'', hwork', hpath, by simp⟩, hindex'.trans hindex, ?_⟩
    rw [hwork']
    exact cost_le_of_entered fun e he => (hpath e he).1
  · -- down to a neighbour
    replace hwork : s'.work = path := hwork
    have hfresh' : ¬ s'.Numbered w := by rwa [Numbered, indexOf?, hindex]
    have hedge : forward.Edge v w := by
      rw [Edge, hall]; exact List.mem_append_right _ (List.mem_cons_self ..)
    have hlen' : ((forward.neighbours v).take p ++ pre).length = p + pre.length := by
      rw [List.length_append, hlen]
    have hd := hi.descend hall hlen' hfresh'
    refine ⟨⟨(v, p + pre.length + 1) :: path, some w, hd.with_work _,
      hc'.of_same rfl fun _ => Iff.rfl, ?_, ?_, ?_⟩, hindex, ?_⟩
    · simp [hwork]
    · intro e he
      rcases List.mem_cons.1 he with rfl | he
      · refine ⟨Nat.succ_pos _, ?_⟩
        rw [hall, List.length_append, hlen', List.length_cons]
        omega
      · exact hpath e he
    · rintro u hu
      obtain rfl : w = u := Option.some.inj hu
      refine ⟨hfresh', mem_nodes_of_edge_right hedge, fun e he => ?_⟩
      rw [show e = (v, p + pre.length + 1) from (Option.some.inj he).symm]
      exact hedge
    · simp [cost, hwork]

/-- The search with an item taken off its work; it meets the file of the item now if it has not
    looked at any of its neighbours. -/
def enter (s : Search) (v : String) (p : Nat) (work : List (String × Nat)) : Search :=
  if p == 0 then ({ s with work } : Search).meet v else { s with work }

theorem step_of_work {work : List (String × Nat)} (hw : s.work = (v, p) :: work) :
    s.step forward = (s.enter v p work).proceed forward v p := by
  rw [Search.step, hw]; rfl

theorem numbered_enter {work : List (String × Nat)} :
    (s.enter v p work).Numbered x ↔ p = 0 ∧ x = v ∨ s.Numbered x := by
  rw [enter]
  split
  · next hp =>
    have hp : p = 0 := by simpa using hp
    rw [numbered_meet (s := { s with work })]
    simp only [hp, true_and]
    rfl
  · next hp =>
    have hp : p ≠ 0 := by simpa using hp
    simp only [hp, false_and, false_or]
    rfl

/-- What holds when an item has been taken off the work and its file has a number. -/
structure Entered (forward : Adjacency) (s : Search) (v : String) (p : Nat)
    (work : List (String × Nat)) : Prop where
  invariant : Invariant forward (s.enter v p work) ((v, p) :: work) none
  completed : Completed forward (s.enter v p work)
  work_eq : (s.enter v p work).work = work
  position : p ≤ (forward.neighbours v).length
  below : ∀ e ∈ work, 0 < e.2 ∧ e.2 ≤ (forward.neighbours e.1).length
  numbered : (s.enter v p work).Numbered v
  fresh : p = 0 → ¬ s.Numbered v
  left_lt : 2 * (s.enter v p work).unmet forward + work.length + 1 < s.left forward

theorem Ready.enter {work : List (String × Nat)} (h : Ready forward s path next)
    (hw : s.work = (v, p) :: work) : Entered forward s v p work := by
  cases next with
  | some w =>
    -- the file is met now
    obtain ⟨hfresh, hknown, hedge⟩ := h.fresh w rfl
    obtain ⟨hitem, rfl⟩ := List.cons.inj (hw.symm.trans h.work)
    obtain ⟨rfl, rfl⟩ := Prod.mk.inj hitem
    let t : Search := { s with work }
    have hi : Invariant forward (t.meet v) ((v, 0) :: work) none :=
      (h.invariant.with_work work).meet hfresh (fun y hy => (Option.some.inj hy).symm) hknown hedge
    have ht : Completed forward t := h.completed.of_same rfl fun _ => Iff.rfl
    have hlt : (t.meet v).unmet forward < s.unmet forward := unmet_meet_lt (s := t) hfresh hknown
    refine ⟨hi, ht.meet hfresh, rfl, Nat.zero_le _, h.entered, numbered_enter.2 (Or.inl ⟨rfl, rfl⟩),
      fun _ => hfresh, ?_⟩
    rw [left, hw, cost, show s.enter v 0 work = t.meet v from rfl]
    omega
  | none =>
    -- the file was met before
    obtain rfl : (v, p) :: work = path := hw.symm.trans h.work
    obtain ⟨hpos, hp⟩ := h.entered (v, p) (List.mem_cons_self ..)
    have hstack := h.invariant.mem_stack (List.mem_cons_self ..)
    have henter : s.enter v p work = { s with work } := by
      rw [Search.enter, if_neg (by simpa using Nat.ne_of_gt hpos)]
    refine ⟨henter ▸ h.invariant.with_work work,
      henter ▸ h.completed.of_same rfl fun _ => Iff.rfl, by rw [henter], hp,
      fun e he => h.entered e (List.mem_cons_of_mem _ he),
      numbered_enter.2 (Or.inr (h.invariant.numbered v hstack)),
      fun hz => absurd hz (Nat.ne_of_gt hpos), ?_⟩
    have hunmet : (s.enter v p work).unmet forward = s.unmet forward :=
      unmet_eq_of_index (by rw [henter])
    obtain ⟨q, rfl⟩ := Nat.exists_eq_succ_of_ne_zero (Nat.ne_of_gt hpos)
    rw [hunmet, left, hw, cost]
    omega

/-- One work item keeps what the search knows and brings it nearer to its end; the file of the item
    is numbered then, and no file loses its number. -/
theorem Ready.step (h : Ready forward s path next) (hw : s.work ≠ []) :
    (∃ path' next', Ready forward (s.step forward) path' next') ∧
      (s.step forward).left forward < s.left forward ∧
      (∀ x, s.Numbered x → (s.step forward).Numbered x) ∧
      ∀ e ∈ s.work.head?, (s.step forward).Numbered e.1 := by
  obtain ⟨⟨v, p⟩, work, hwork⟩ := List.exists_cons_of_ne_nil hw
  have he := h.enter hwork
  obtain ⟨hready, hindex, hcost⟩ :=
    Ready.proceed he.invariant he.completed he.work_eq he.position he.below
  have hnumbered : ∀ x, (s.enter v p work).Numbered x →
      ((s.enter v p work).proceed forward v p).Numbered x := fun x hx => by
    rwa [Numbered, indexOf?, hindex]
  rw [step_of_work hwork]
  refine ⟨hready, ?_, fun x hx => hnumbered x (numbered_enter.2 (Or.inr hx)), fun e hhead => ?_⟩
  · have hleft := he.left_lt
    rw [left, unmet_eq_of_index hindex]
    omega
  · rw [hwork] at hhead
    rw [show e = (v, p) from (Option.some.inj hhead).symm]
    exact hnumbered v he.numbered

/-! ### A run, and the whole search -/

theorem Ready.of_no_work (h : Ready forward s path next) (hw : s.work = []) :
    Ready forward s [] none := by
  obtain ⟨hnext, rfl⟩ := List.append_eq_nil_iff.1 (h.work.symm.trans hw)
  cases next with
  | none => exact h
  | some w => simp at hnext

/-- With enough fuel a run ends with no work left, and it numbers the file it starts with. -/
theorem Ready.run (fuel : Nat) (h : Ready forward s path next) (hfuel : s.left forward ≤ fuel) :
    Ready forward (run forward fuel s) [] none ∧
      (∀ x, s.Numbered x → (Search.run forward fuel s).Numbered x) ∧
      ∀ e ∈ s.work.head?, (Search.run forward fuel s).Numbered e.1 := by
  induction fuel generalizing s path next with
  | zero =>
    have hw : s.work = [] := by
      by_contra hw
      exact absurd (h.step hw).2.1 (by omega)
    rw [Search.run, hw]
    exact ⟨h.of_no_work hw, fun _ hx => hx, by simp⟩
  | succ fuel ih =>
    rw [Search.run]
    split
    · have hw : s.work = [] := by simpa using ‹s.work.isEmpty = true›
      rw [hw]
      exact ⟨h.of_no_work hw, fun _ hx => hx, by simp⟩
    · have hw : s.work ≠ [] := by simpa using ‹¬ s.work.isEmpty = true›
      obtain ⟨⟨path', next', hready⟩, hlt, hmono, hhead⟩ := h.step hw
      obtain ⟨hrun, hmono', _⟩ := ih hready (by omega)
      exact ⟨hrun, fun x hx => hmono' x (hmono x hx), fun e he => hmono' e.1 (hhead e he)⟩

/-- Between two files of the list the search may begin with any file that is not numbered. -/
theorem Ready.begin (h : Ready forward s [] none) (hfresh : ¬ s.Numbered x)
    (hx : x ∈ nodes forward) : Ready forward { s with work := [(x, 0)] } [] (some x) := by
  have hi : Invariant forward s [] (some x) :=
    { h.invariant with seen := fun y z hy hs => (h.invariant.seen y z hy hs).imp_right (by simp) }
  refine ⟨hi.with_work _, h.completed.of_same rfl fun _ => Iff.rfl, rfl, by simp, ?_⟩
  rintro w hw
  obtain rfl : x = w := Option.some.inj hw
  exact ⟨hfresh, hx, by simp⟩

theorem left_begin_le (s : Search) (x : String) :
    ({ s with work := [(x, 0)] } : Search).left forward ≤ 2 * (nodes forward).length :=
  Nat.mul_le_mul_left 2 List.countP_le_length

/-- A search from a file ends with no work left and that file numbered. -/
theorem Ready.start {fuel : Nat} (h : Ready forward s [] none) (hx : x ∈ nodes forward)
    (hfuel : 2 * (nodes forward).length ≤ fuel) :
    Ready forward (start forward fuel s x) [] none ∧
      (∀ y, s.Numbered y → (Search.start forward fuel s x).Numbered y) ∧
      (Search.start forward fuel s x).Numbered x := by
  rw [Search.start]
  split
  · exact ⟨h, fun _ hy => hy, by assumption⟩
  · have hfresh : ¬ s.Numbered x := by assumption
    have hready := h.begin hfresh hx
    have hleft : ({ s with work := [(x, 0)] } : Search).left forward ≤ fuel :=
      Nat.le_trans (left_begin_le s x) hfuel
    obtain ⟨hrun, hmono, hhead⟩ := hready.run fuel hleft
    exact ⟨hrun, hmono, hhead (x, 0) rfl⟩

/-- Searches from the files of a list, one after the other, number them all. -/
theorem Ready.foldl_start {fuel : Nat} (hfuel : 2 * (nodes forward).length ≤ fuel)
    (files : List String) (hfiles : ∀ x ∈ files, x ∈ nodes forward)
    (h : Ready forward s [] none) :
    Ready forward (files.foldl (Search.start forward fuel) s) [] none ∧
      (∀ y, s.Numbered y → (files.foldl (Search.start forward fuel) s).Numbered y) ∧
      ∀ x ∈ files, (files.foldl (Search.start forward fuel) s).Numbered x := by
  induction files generalizing s with
  | nil => exact ⟨h, fun _ hy => hy, by simp⟩
  | cons f more ih =>
    obtain ⟨hstart, hmono, hf⟩ := h.start (hfiles f (List.mem_cons_self ..)) hfuel
    obtain ⟨hrest, hmono', hall⟩ := ih (fun x hx => hfiles x (List.mem_cons_of_mem _ hx)) hstart
    refine ⟨hrest, fun y hy => hmono' y (hmono y hy), fun x hx => ?_⟩
    rcases List.mem_cons.1 hx with rfl | hx
    · exact hmono' x hf
    · exact hall x hx

theorem ready_empty (forward : Adjacency) : Ready forward {} [] none := by
  have hnone : ∀ x, ¬ ({} : Search).Numbered x := fun x => by simp [Numbered, indexOf?]
  refine ⟨⟨fun x hx => absurd hx (hnone x), fun x hx => absurd hx (hnone x), ?_, ?_, ?_, ?_, ?_,
    fun x _ hx => absurd hx (hnone x), fun x _ hx => absurd hx.1 (hnone x), ?_, ?_, ?_⟩,
    ⟨?_, ?_, ?_, ?_, ?_, fun x _ hx => absurd hx.1 (hnone x)⟩, rfl, ?_, ?_⟩
  all_goals simp

end CodeSurvey.Graph.Search

namespace CodeSurvey.Graph

open Adjacency

variable {forward : Adjacency} {x y : String}

/-- The whole search ends with every file done. -/
theorem search_ready (forward : Adjacency) :
    Search.Ready forward (search forward) [] none ∧
      ∀ x, (search forward).Done x ↔ x ∈ nodes forward := by
  obtain ⟨hready, _, hall⟩ := (Search.ready_empty forward).foldl_start (Nat.le_refl _)
    (nodes forward) (fun _ hx => hx)
  have hstack : ∀ y, y ∉ (search forward).stack := by
    intro y hy
    obtain ⟨v, hv, _⟩ := hready.invariant.down y hy
    simp at hv
  exact ⟨hready, fun x => ⟨fun hx => hready.invariant.known x hx.1,
    fun hx => ⟨hall x hx, hstack x⟩⟩⟩

end CodeSurvey.Graph
