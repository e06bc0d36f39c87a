import CodeSurvey.Proofs.Graph.Reach
import Mathlib.Data.List.Nodup

/-!
What the depth-first search knows between two moves. The files it has not left yet form a path, each
with the position of the neighbour to look at next, the latest first. The path is part of the stack,
and the stack is sorted by number. A file of the path reaches all of the stack from its own place
on, and every file of the stack reaches one of the path that is not above it. So the stack from a
file of the path on is one component, unless an edge that has been looked at leads below that file;
and the low links of the path tell how far down those edges lead. Main statements: meeting a file,
looking at its neighbours and leaving it keep all of this.

        stack   ..  x ..  v  ..  y ..  u  ..        numbers grow to the left
        path              v  →  ..  →  u            v reaches x, and x reaches v
-/

namespace CodeSurvey.Graph.Search

open Adjacency

/-- The search has met the file. -/
def Numbered (s : Search) (x : String) : Prop := (s.indexOf? x).isSome

/-- The number of a file, 0 if it has none. -/
def num (s : Search) (x : String) : Nat := (s.indexOf? x).getD 0

/-- The file belongs to a component that has been taken off the stack. -/
def Done (s : Search) (x : String) : Prop := s.Numbered x ∧ x ∉ s.stack

/-- The edge from `x` to `y` has been looked at: all edges of a file off the path have been, and of
    a file on it those before its position. -/
def Seen (forward : Adjacency) (path : List (String × Nat)) (x y : String) : Prop :=
  forward.Edge x y ∧ ∀ p, (x, p) ∈ path → y ∈ (forward.neighbours x).take p

/-- What holds when the files of `path` have been met and not left, and `next` is about to be
    met. -/
structure Invariant (forward : Adjacency) (s : Search) (path : List (String × Nat))
    (next : Option String) : Prop where
  known : ∀ x, s.Numbered x → x ∈ nodes forward
  num_lt : ∀ x, s.Numbered x → s.num x < s.counter
  numbered : ∀ x ∈ s.stack, s.Numbered x
  sorted : s.stack.Pairwise fun x y => s.num y < s.num x
  path_sub : (path.map (·.1)).Sublist s.stack
  /-- A file of the path reaches what stands above it on the stack. -/
  up : ∀ v ∈ path.map (·.1), ∀ x ∈ s.stack, s.num v ≤ s.num x → forward.Reaches v x
  /-- What stands on the stack reaches a file of the path below it. -/
  down : ∀ x ∈ s.stack, ∃ v ∈ path.map (·.1), s.num v ≤ s.num x ∧ forward.Reaches x v
  seen : ∀ x y, s.Numbered x → Seen forward path x y → s.Numbered y ∨ next = some y
  closed : ∀ x y, s.Done x → forward.Edge x y → s.Done y
  low_le : ∀ v ∈ path.map (·.1), s.lowOf v ≤ s.num v
  low_reached : ∀ v ∈ path.map (·.1), ∃ y ∈ s.stack, s.num y = s.lowOf v ∧ forward.Reaches v y
  /-- An edge looked at that starts above a file of the path leads no lower than the low link of
      some file of the path from that one on. -/
  low_covers : ∀ x ∈ s.stack, ∀ y ∈ s.stack, Seen forward path x y →
    ∀ v ∈ path.map (·.1), s.num v ≤ s.num x →
      ∃ u ∈ path.map (·.1), s.num v ≤ s.num u ∧ s.lowOf u ≤ s.num y

/-! ### Edges that have been looked at -/

section seen

variable {forward : Adjacency} {path : List (String × Nat)} {v x y : String} {p : Nat}
  {front pre post : List String}

theorem Seen.mono (h : Seen forward ((v, p) :: path) x y) : Seen forward path x y :=
  ⟨h.1, fun q hq => h.2 q (List.mem_cons_of_mem _ hq)⟩

theorem seen_cons_of_ne (hne : x ≠ v) :
    Seen forward ((v, p) :: path) x y ↔ Seen forward path x y := by
  refine ⟨Seen.mono, fun h => ⟨h.1, fun q hq => ?_⟩⟩
  rcases List.mem_cons.1 hq with he | hm
  · exact absurd (congrArg Prod.fst he) hne
  · exact h.2 q hm

theorem seen_cons_self (hv : v ∉ path.map (·.1)) :
    Seen forward ((v, p) :: path) v y ↔ y ∈ (forward.neighbours v).take p := by
  refine ⟨fun h => h.2 p (List.mem_cons_self ..), fun h => ⟨List.mem_of_mem_take h, fun q hq => ?_⟩⟩
  rcases List.mem_cons.1 hq with he | hm
  · rw [(Prod.mk.inj he).2]; exact h
  · exact absurd (List.mem_map.2 ⟨_, hm, rfl⟩) hv

/-- Going past some neighbours of a file adds the edges to them. -/
theorem Seen.of_advance (hv : v ∉ path.map (·.1))
    (hns : forward.neighbours v = front ++ pre ++ post)
    (h : Seen forward ((v, front.length + pre.length) :: path) x y) :
    Seen forward ((v, front.length) :: path) x y ∨ x = v ∧ y ∈ pre := by
  by_cases hx : x = v
  · subst hx
    have hy := (seen_cons_self hv).1 h
    rw [hns, List.take_left' (List.length_append ..)] at hy
    rcases List.mem_append.1 hy with hy | hy
    · refine Or.inl ((seen_cons_self hv).2 ?_)
      rw [hns, List.append_assoc, List.take_left' rfl]
      exact hy
    · exact Or.inr ⟨rfl, hy⟩
  · exact Or.inl ((seen_cons_of_ne hx).2 ((seen_cons_of_ne hx).1 h))

/-- At the end of its neighbours all edges of a file have been looked at. -/
theorem Seen.leave (h : Seen forward path x y) (hp : (forward.neighbours v).length ≤ p) :
    Seen forward ((v, p) :: path) x y := by
  refine ⟨h.1, fun q hq => ?_⟩
  rcases List.mem_cons.1 hq with he | hm
  · obtain ⟨rfl, rfl⟩ := Prod.mk.inj he
    rw [List.take_of_length_le hp]; exact h.1
  · exact h.2 q hm

end seen

/-- Nothing is said about the work itself. -/
theorem Invariant.with_work {forward : Adjacency} {s : Search} {path : List (String × Nat)}
    {next : Option String} (h : Invariant forward s path next) (work : List (String × Nat)) :
    Invariant forward { s with work } path next :=
  ⟨h.known, h.num_lt, h.numbered, h.sorted, h.path_sub, h.up, h.down, h.seen, h.closed, h.low_le,
    h.low_reached, h.low_covers⟩

/-! ### The numbers on the stack -/

section order

variable {forward : Adjacency} {s : Search} {path : List (String × Nat)} {next : Option String}
  {v x y : String} {p : Nat}

theorem Invariant.stack_nodup (h : Invariant forward s path next) : s.stack.Nodup :=
  h.sorted.imp fun hlt he => by subst he; omega

theorem Invariant.path_nodup (h : Invariant forward s path next) : (path.map (·.1)).Nodup :=
  h.stack_nodup.sublist h.path_sub

theorem Invariant.mem_stack (h : Invariant forward s path next) (hv : v ∈ path.map (·.1)) :
    v ∈ s.stack := h.path_sub.subset hv

/-- The first file of the path has the greatest number on it. -/
theorem Invariant.num_lt_head (h : Invariant forward s ((v, p) :: path) next)
    (hx : x ∈ path.map (·.1)) : s.num x < s.num v :=
  (List.pairwise_cons.1 (h.sorted.sublist h.path_sub)).1 x hx

theorem Invariant.num_le_head (h : Invariant forward s ((v, p) :: path) next)
    (hx : x ∈ ((v, p) :: path).map (·.1)) : s.num x ≤ s.num v := by
  rcases List.mem_cons.1 hx with he | hm
  · obtain rfl : x = v := he
    exact Nat.le_refl _
  · exact Nat.le_of_lt (h.num_lt_head hm)

theorem Invariant.head_notMem (h : Invariant forward s ((v, p) :: path) next) :
    v ∉ path.map (·.1) := (List.nodup_cons.1 h.path_nodup).1

/-- Everything on the stack reaches the first file of the path. -/
theorem Invariant.reaches_head (h : Invariant forward s ((v, p) :: path) next)
    (hx : x ∈ s.stack) : forward.Reaches x v := by
  obtain ⟨u, hu, _, hxu⟩ := h.down x hx
  have hv : v ∈ s.stack := h.mem_stack (List.mem_cons_self ..)
  exact hxu.trans (h.up u hu v hv (h.num_le_head hu))

/-- What is reached from a file that is done is done. -/
theorem Invariant.done_of_reaches (h : Invariant forward s path next) (hx : s.Done x)
    (hr : forward.Reaches x y) : s.Done y :=
  Reaches.mem_of_closed (fun u hu w hw => h.closed u w hu hw) hx hr

end order

/-! ### Meeting a file -/

section meet

variable {forward : Adjacency} {s : Search} {path : List (String × Nat)} {next : Option String}
  {w x : String}

theorem num_eq_of_indexOf? {n : Nat} (h : s.indexOf? x = some n) : s.num x = n := by
  rw [num, h]; rfl

theorem indexOf?_of_numbered (h : s.Numbered x) : s.indexOf? x = some (s.num x) := by
  obtain ⟨n, hn⟩ := Option.isSome_iff_exists.1 h
  rw [hn, num_eq_of_indexOf? hn]

theorem num_meet_self : (s.meet w).num w = s.counter := num_eq_of_indexOf? (indexOf?_meet_self s w)

theorem num_meet_of_ne (h : x ≠ w) : (s.meet w).num x = s.num x := by
  rw [num, num, indexOf?_meet_of_ne s h]

theorem numbered_meet : (s.meet w).Numbered x ↔ x = w ∨ s.Numbered x := by
  by_cases h : x = w
  · subst h; simp [Numbered, indexOf?_meet_self]
  · simp [Numbered, indexOf?_meet_of_ne s h, h]

/-- Meeting a file puts it in front of the path, with all its neighbours still to look at. -/
theorem Invariant.meet (h : Invariant forward s path next) (hw : ¬ s.Numbered w)
    (hnext : ∀ y, next = some y → y = w) (hknown : w ∈ nodes forward)
    (hedge : ∀ e ∈ path.head?, forward.Edge e.1 w) :
    Invariant forward (s.meet w) ((w, 0) :: path) none := by
  have hws : w ∉ s.stack := fun hm => hw (h.numbered w hm)
  have hne : ∀ x ∈ s.stack, x ≠ w := fun x hx he => hws (he ▸ hx)
  have hnum : ∀ x ∈ s.stack, (s.meet w).num x = s.num x := fun x hx => num_meet_of_ne (hne x hx)
  have hlow : ∀ x ∈ s.stack, (s.meet w).lowOf x = s.lowOf x :=
    fun x hx => lowOf_meet_of_ne s (hne x hx)
  have hlt : ∀ x ∈ s.stack, s.num x < s.counter := fun x hx => h.num_lt x (h.numbered x hx)
  have hpath : ∀ v ∈ path.map (·.1), v ∈ s.stack := fun v hv => h.mem_stack hv
  have hfirst : ∀ x y, Seen forward ((w, 0) :: path) x y → x ≠ w := by
    rintro x y hs rfl
    have := hs.2 0 (List.mem_cons_self ..)
    simp at this
  refine ⟨?_, ?_, ?_, ?_, ?_, ?_, ?_, ?_, ?_, ?_, ?_, ?_⟩
  · -- known
    intro x hx
    rcases numbered_meet.1 hx with rfl | hx
    · exact hknown
    · exact h.known x hx
  · -- num_lt
    intro x hx
    by_cases he : x = w
    · subst he; rw [num_meet_self]; exact Nat.lt_succ_self _
    · rw [num_meet_of_ne he]
      exact Nat.lt_succ_of_lt (h.num_lt x ((numbered_meet.1 hx).resolve_left he))
  · -- numbered
    intro x hx
    rcases List.mem_cons.1 hx with he | hm
    · exact numbered_meet.2 (Or.inl he)
    · exact numbered_meet.2 (Or.inr (h.numbered x hm))
  · -- sorted
    refine List.pairwise_cons.2 ⟨fun x hx => ?_, h.sorted.imp_of_mem fun {x y} hx hy hxy => ?_⟩
    · rw [num_meet_self, hnum x hx]; exact hlt x hx
    · rw [hnum x hx, hnum y hy]; exact hxy
  · -- path_sub
    exact h.path_sub.cons_cons w
  · -- up
    intro v hv x hx hle
    rcases List.mem_cons.1 hv with hvw | hvp <;> rcases List.mem_cons.1 hx with hxw | hxs
    · rw [show v = w from hvw, hxw]; exact Reaches.refl
    · rw [show v = w from hvw, num_meet_self, hnum x hxs] at hle
      exact absurd (hlt x hxs) (Nat.not_lt_of_le hle)
    · rw [hxw]
      cases path with
      | nil => simp at hvp
      | cons e more =>
        have he : e.1 ∈ s.stack := hpath _ (List.mem_cons_self ..)
        exact (h.up v hvp e.1 he (h.num_le_head hvp)).trans (hedge e rfl).reaches
    · rw [hnum v (hpath v hvp), hnum x hxs] at hle
      exact h.up v hvp x hxs hle
  · -- down
    intro x hx
    rcases List.mem_cons.1 hx with rfl | hx
    · exact ⟨x, List.mem_cons_self .., Nat.le_refl _, Reaches.refl⟩
    · obtain ⟨v, hv, hle, hr⟩ := h.down x hx
      exact ⟨v, List.mem_cons_of_mem _ hv, by rwa [hnum v (hpath v hv), hnum x hx], hr⟩
  · -- seen
    intro x y hx hs
    left
    rcases h.seen x y ((numbered_meet.1 hx).resolve_left (hfirst x y hs)) hs.mono with hy | hy
    · exact numbered_meet.2 (Or.inr hy)
    · exact numbered_meet.2 (Or.inl (hnext y hy))
  · -- closed
    rintro x y ⟨hx, hxs⟩ he
    have hxw : x ≠ w := fun hxw => hxs (hxw ▸ List.mem_cons_self ..)
    obtain ⟨hy, hys⟩ := h.closed x y ⟨(numbered_meet.1 hx).resolve_left hxw,
      fun hm => hxs (List.mem_cons_of_mem _ hm)⟩ he
    refine ⟨numbered_meet.2 (Or.inr hy), fun hm => ?_⟩
    rcases List.mem_cons.1 hm with rfl | hm
    · exact hw hy
    · exact hys hm
  · -- low_le
    intro v hv
    rcases List.mem_cons.1 hv with rfl | hv
    · exact Nat.le_of_eq ((lowOf_meet_self s v).trans num_meet_self.symm)
    · rw [hlow v (hpath v hv), hnum v (hpath v hv)]; exact h.low_le v hv
  · -- low_reached
    intro v hv
    rcases List.mem_cons.1 hv with rfl | hv
    · exact ⟨v, List.mem_cons_self .., by rw [num_meet_self, lowOf_meet_self], Reaches.refl⟩
    · obtain ⟨y, hy, hyn, hr⟩ := h.low_reached v hv
      exact ⟨y, List.mem_cons_of_mem _ hy, by rw [hnum y hy, hlow v (hpath v hv), hyn], hr⟩
  · -- low_covers
    intro x hx y hy hs v hv hle
    have hxs : x ∈ s.stack := (List.mem_cons.1 hx).resolve_left (hfirst x y hs)
    rw [hnum x hxs] at hle
    have hvp : v ∈ path.map (·.1) := by
      refine (List.mem_cons.1 hv).resolve_left fun hvw => ?_
      rw [show v = w from hvw, num_meet_self] at hle
      exact absurd (hlt x hxs) (Nat.not_lt_of_le hle)
    rw [hnum v (hpath v hvp)] at hle
    rcases List.mem_cons.1 hy with hyw | hys
    · -- the new file stands above every low link
      refine ⟨v, List.mem_cons_of_mem _ hvp, Nat.le_refl _, ?_⟩
      rw [hlow v (hpath v hvp), hyw, num_meet_self]
      exact Nat.le_of_lt (Nat.lt_of_le_of_lt (h.low_le v hvp) (hlt v (hpath v hvp)))
    · obtain ⟨u, hu, hvu, hlu⟩ := h.low_covers x hxs y hys hs.mono v hvp hle
      exact ⟨u, List.mem_cons_of_mem _ hu, by rwa [hnum v (hpath v hvp), hnum u (hpath u hu)],
        by rwa [hlow u (hpath u hu), hnum y hys]⟩

end meet

/-! ### Looking at the neighbours of a file -/

section look

variable {forward : Adjacency} {s s' : Search} {path : List (String × Nat)} {v w : String}
  {p : Nat} {front pre post : List String}

/-- What a look of `v` at the neighbours `pre` changes: only the low link of `v`, which is lowered
    to the least number among those of them that are on the stack. -/
structure Looked (s s' : Search) (v : String) (pre : List String) : Prop where
  rest : s' = { s with low := s'.low }
  low_other : ∀ x, x ≠ v → s'.lowOf x = s.lowOf x
  low_le : s'.lowOf v ≤ s.lowOf v
  low_eq : s'.lowOf v = s.lowOf v ∨ ∃ y ∈ pre, y ∈ s.stack ∧ s.num y = s'.lowOf v
  numbered : ∀ y ∈ pre, s.Numbered y
  covers : ∀ y ∈ pre, y ∈ s.stack → s'.lowOf v ≤ s.num y

theorem Looked.nil (s : Search) (v : String) : Looked s s v [] :=
  ⟨rfl, fun _ _ => rfl, Nat.le_refl _, Or.inl rfl, by simp, by simp⟩

/-- The look at one numbered neighbour. -/
theorem looked_one {n : Nat} (hw : s.indexOf? w = some n) :
    Looked s (if s.stack.contains w then s.lower v n else s) v [w] := by
  have hn : s.num w = n := num_eq_of_indexOf? hw
  have hnum : ∀ y ∈ [w], s.Numbered y := by
    intro y hy
    rw [List.mem_singleton.1 hy, Numbered, hw]; rfl
  by_cases hs : w ∈ s.stack
  · rw [if_pos (List.contains_iff_mem.2 hs)]
    have hlow : (s.lower v n).lowOf v = min (s.lowOf v) n := lowOf_lower_self s v n
    refine ⟨rfl, fun x hx => lowOf_lower_of_ne s hx n, by omega, ?_, hnum, ?_⟩
    · rcases Nat.le_total (s.lowOf v) n with hle | hle
      · left; omega
      · right; exact ⟨w, List.mem_singleton.2 rfl, hs, by omega⟩
    · intro y hy _
      rw [List.mem_singleton.1 hy]; omega
  · rw [if_neg (by simpa using hs)]
    refine ⟨rfl, fun _ _ => rfl, Nat.le_refl _, Or.inl rfl, hnum, fun y hy hys => ?_⟩
    exact absurd (List.mem_singleton.1 hy ▸ hys) hs

theorem Looked.append {s'' : Search} (h : Looked s s' v front) (h' : Looked s' s'' v pre) :
    Looked s s'' v (front ++ pre) := by
  have hstack : s'.stack = s.stack := by rw [h.rest]
  have hindex : s'.index = s.index := by rw [h.rest]
  have hnum : ∀ x, s'.num x = s.num x := fun x => by rw [num, num, indexOf?, indexOf?, hindex]
  have hnumbered : ∀ x, s'.Numbered x ↔ s.Numbered x := fun x => by
    rw [Numbered, Numbered, indexOf?, indexOf?, hindex]
  refine ⟨?_, ?_, Nat.le_trans h'.low_le h.low_le, ?_, ?_, ?_⟩
  · rw [h'.rest, h.rest]
  · intro x hx
    rw [h'.low_other x hx, h.low_other x hx]
  · rcases h'.low_eq with he | ⟨y, hy, hys, hyn⟩
    · rcases h.low_eq with he' | ⟨y, hy, hys, hyn⟩
      · exact Or.inl (he.trans he')
      · exact Or.inr ⟨y, List.mem_append_left _ hy, hys, hyn.trans he.symm⟩
    · exact Or.inr ⟨y, List.mem_append_right _ hy, hstack ▸ hys, (hnum y).symm.trans hyn⟩
  · intro y hy
    rcases List.mem_append.1 hy with hy | hy
    · exact h.numbered y hy
    · exact (hnumbered y).1 (h'.numbered y hy)
  · intro y hy hys
    rcases List.mem_append.1 hy with hy | hy
    · exact Nat.le_trans h'.low_le (h.covers y hy hys)
    · rw [← hnum y]; exact h'.covers y hy (hstack ▸ hys)

/-- A look goes through the neighbours up to the first that is not numbered. -/
theorem look_spec (s : Search) (v : String) (p : Nat) (ns : List String) :
    ∃ pre post, ns = pre ++ post ∧ Looked s (s.look v p ns).1 v pre ∧
      (post = [] ∧ (s.look v p ns).2 = none ∨ ∃ w more, post = w :: more ∧ ¬ s.Numbered w ∧
        (s.look v p ns).2 = some (w, p + pre.length + 1)) := by
  induction ns generalizing s p with
  | nil => exact ⟨[], [], rfl, Looked.nil s v, Or.inl ⟨rfl, rfl⟩⟩
  | cons w more ih =>
    cases hw : s.indexOf? w with
    | none =>
      refine ⟨[], w :: more, rfl, ?_, Or.inr ⟨w, more, rfl, ?_, ?_⟩⟩
      · simp only [look, hw]; exact Looked.nil s v
      · simp [Numbered, hw]
      · simp [look, hw]
    | some n =>
      have hone := looked_one (v := v) hw
      have hlook : s.look v p (w :: more) =
          (if s.stack.contains w then s.lower v n else s).look v (p + 1) more := by
        simp only [look, hw]
      rw [hlook]
      generalize (if s.stack.contains w then s.lower v n else s) = s₁ at hone ⊢
      obtain ⟨pre, post, hns, hl, hend⟩ := ih s₁ (p + 1)
      refine ⟨w :: pre, post, by rw [hns]; rfl, hone.append hl, ?_⟩
      rcases hend with hend | ⟨u, rest, hp, hu, he⟩
      · exact Or.inl hend
      · refine Or.inr ⟨u, rest, hp, ?_, ?_⟩
        · have hindex : s₁.index = s.index := by rw [hone.rest]
          rwa [Numbered, indexOf?, hindex] at hu
        · rw [he, List.length_cons, Nat.add_right_comm p 1, Nat.add_assoc p]

theorem Looked.low_le_all (h : Looked s s' v pre) (u : String) : s'.lowOf u ≤ s.lowOf u := by
  by_cases hu : u = v
  · rw [hu]; exact h.low_le
  · exact Nat.le_of_eq (h.low_other u hu)

/-- The first file of the path goes past the neighbours it has looked at. -/
theorem Invariant.look (h : Invariant forward s ((v, p) :: path) none) (hl : Looked s s' v pre)
    (hns : forward.neighbours v = front ++ pre ++ post) (hp : front.length = p) :
    Invariant forward s' ((v, p + pre.length) :: path) none := by
  subst hp
  have hseen : ∀ x y, Seen forward ((v, front.length + pre.length) :: path) x y →
      Seen forward ((v, front.length) :: path) x y ∨ x = v ∧ y ∈ pre :=
    fun x y => Seen.of_advance h.head_notMem hns
  have hall := hl.low_le_all
  obtain ⟨hrest, hother, -, heq, hnumbered, hcovers⟩ := hl
  generalize s'.low = low at hrest
  subst hrest
  refine ⟨h.known, h.num_lt, h.numbered, h.sorted, h.path_sub, h.up, h.down, ?_, h.closed, ?_, ?_,
    ?_⟩
  · -- seen
    intro x y hx hs
    rcases hseen x y hs with hs | ⟨_, hy⟩
    · exact h.seen x y hx hs
    · exact Or.inl (hnumbered y hy)
  · -- low_le
    exact fun u hu => Nat.le_trans (hall u) (h.low_le u hu)
  · -- low_reached
    intro u hu
    by_cases huv : u = v
    · subst huv
      rcases heq with he | ⟨y, hy, hys, hyn⟩
      · rw [he]; exact h.low_reached u hu
      · have hedge : forward.Edge u y := by
          rw [Edge, hns]; exact List.mem_append_left _ (List.mem_append_right _ hy)
        exact ⟨y, hys, hyn, hedge.reaches⟩
    · rw [hother u huv]; exact h.low_reached u hu
  · -- low_covers
    intro x hx y hy hs u hu hux
    rcases hseen x y hs with hs | ⟨rfl, hyp⟩
    · obtain ⟨r, hr, hur, hry⟩ := h.low_covers x hx y hy hs u hu hux
      exact ⟨r, hr, hur, Nat.le_trans (hall r) hry⟩
    · exact ⟨x, List.mem_cons_self .., hux, hcovers y hyp hy⟩

/-- The first file of the path goes past a neighbour that is to be met next. -/
theorem Invariant.descend (h : Invariant forward s ((v, p) :: path) none)
    (hns : forward.neighbours v = pre ++ w :: post) (hp : pre.length = p)
    (hw : ¬ s.Numbered w) : Invariant forward s ((v, p + 1) :: path) (some w) := by
  subst hp
  have hseen : ∀ x y, Seen forward ((v, pre.length + 1) :: path) x y →
      Seen forward ((v, pre.length) :: path) x y ∨ x = v ∧ y ∈ [w] :=
    fun x y => Seen.of_advance h.head_notMem (hns.trans (List.append_cons ..))
  refine ⟨h.known, h.num_lt, h.numbered, h.sorted, h.path_sub, h.up, h.down, ?_, h.closed,
    h.low_le, h.low_reached, ?_⟩
  · -- seen
    intro x y hx hs
    rcases hseen x y hs with hs | ⟨_, hy⟩
    · exact Or.inl ((h.seen x y hx hs).resolve_right (by simp))
    · exact Or.inr (congrArg some (List.mem_singleton.1 hy).symm)
  · -- low_covers
    intro x hx y hy hs
    rcases hseen x y hs with hs | ⟨_, hyw⟩
    · exact h.low_covers x hx y hy hs
    · rw [List.mem_singleton.1 hyw] at hy
      exact absurd (h.numbered w hy) hw

end look

end CodeSurvey.Graph.Search
