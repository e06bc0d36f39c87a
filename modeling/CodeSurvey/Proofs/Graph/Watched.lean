import CodeSurvey.Proofs.Graph.SearchRun
import Mathlib.Data.List.Count

/-!
The depth-first search watched. The watched search does what the search does and writes a record of
it: the work items it takes, the files it puts on the stack and takes off it, and the positions it
looks at. Where the search would go on with a default it fails instead: at a number or a link of a
file that is not numbered, at a file taken off an empty stack, and at work left over when the fuel
is used up. Main statement: the watched search does not fail and comes to the same result; its
record has every file once on the stack and once off it, every neighbour of every file looked at
once, and at most two work items for each file.
-/

namespace CodeSurvey.Graph.Search

open Adjacency

/-- What the search is seen to do. -/
inductive Event where
  | takes (file : String) (position : Nat)
  | pushes (file : String)
  | pops (file : String)
  | looks (file : String) (position : Nat)
  deriving DecidableEq, Repr

/-- A work item is taken. -/
def Event.isTake : Event → Bool
  | .takes .. => true
  | _ => false

/-- A computation that may fail and adds to a record. -/
abbrev Recording (α : Type) := StateT (List Event) Option α

namespace Watched

/-- Adds an event to the record. -/
def note (e : Event) : Recording Unit := modify (· ++ [e])

/-- Reads the number of a file, which has to be numbered. -/
def number (s : Search) (file : String) : Recording Nat :=
  match s.indexOf? file with
  | some n => pure n
  | none => failure

/-- Reads the link of a file, which has to be numbered and to have one. -/
def link (s : Search) (file : String) : Recording Nat :=
  match s.indexOf? file, s.low.lookup file with
  | some _, some n => pure n
  | _, _ => failure

/-- Lowers the link of a file to a number, if that is less. -/
def lower (s : Search) (file : String) (n : Nat) : Recording Search := do
  let old ← link s file
  pure { s with low := (file, min old n) :: s.low }

/-- Numbers a file and puts it on the stack. -/
def meet (s : Search) (file : String) : Recording Search := do
  note (.pushes file)
  pure (s.meet file)

/-- Looks at the neighbours of a file from a position on. -/
def look (s : Search) (file : String) (position : Nat) :
    List String → Recording (Search × Option (String × Nat))
  | [] => pure (s, none)
  | neighbour :: more => do
    note (.looks file position)
    if (s.indexOf? neighbour).isNone then
      pure (s, some (neighbour, position + 1))
    else if s.stack.contains neighbour then
      let n ← number s neighbour
      let s ← lower s file n
      look s file (position + 1) more
    else
      look s file (position + 1) more

/-- Takes files off a stack down to a file, which has to be on it. -/
def unstack (file : String) : List String → Recording (List String × List String)
  | [] => failure
  | top :: below => do
    note (.pops top)
    if top == file then
      pure ([top], below)
    else
      let (taken, rest) ← unstack file below
      pure (top :: taken, rest)

/-- Takes the component of a file off the stack, if the file is the root of one. -/
def complete (s : Search) (file : String) : Recording Search := do
  let low ← link s file
  let n ← number s file
  if low == n then
    let (component, stack) ← unstack file s.stack
    pure { s with stack,
                  components :=
                    if component.length ≥ 2 then component :: s.components else s.components }
  else
    pure s

/-- Hands the low link of a file to the file below it in the work. -/
def handDown (s : Search) (file : String) : Recording Search :=
  match s.work with
  | [] => pure s
  | (parent, _) :: _ => do
    let n ← link s file
    lower s parent n

/-- Leaves a file when all its neighbours have been looked at. -/
def leave (s : Search) (file : String) : Recording Search := do
  let s ← complete s file
  handDown s file

/-- Goes on with a numbered file from a position. -/
def proceed (forward : Adjacency) (s : Search) (file : String) (position : Nat) :
    Recording Search := do
  match ← look s file position ((forward.neighbours file).drop position) with
  | (s, some (neighbour, next)) =>
    pure { s with work := (neighbour, 0) :: (file, next) :: s.work }
  | (s, none) => leave s file

/-- Takes an item off the work and meets its file, if that has not been met yet. -/
def enter (s : Search) (file : String) (position : Nat) (work : List (String × Nat)) :
    Recording Search := do
  note (.takes file position)
  if position == 0 then meet { s with work } file else pure { s with work }

/-- Does the next work item. -/
def step (forward : Adjacency) (s : Search) : Recording Search :=
  match s.work with
  | [] => pure s
  | (file, position) :: work => do
    let s ← enter s file position work
    proceed forward s file position

/-- Works until nothing is left to do; the fuel has to be enough for that. -/
def run (forward : Adjacency) : Nat → Search → Recording Search
  | 0, s => if s.work.isEmpty then pure s else failure
  | fuel + 1, s =>
    if s.work.isEmpty then pure s
    else do
      let s ← step forward s
      run forward fuel s

/-- Searches from a file, if the search has not met it yet. -/
def start (forward : Adjacency) (fuel : Nat) (s : Search) (file : String) : Recording Search :=
  if (s.indexOf? file).isSome then pure s else run forward fuel { s with work := [(file, 0)] }

/-- The whole search. -/
def search (forward : Adjacency) : Recording Search :=
  (nodes forward).foldlM (start forward (2 * (nodes forward).length)) {}

/-! ### What a watched computation does -/

section does

variable {α β : Type} {m : Recording α} {f : α → Recording β} {a : α} {b : β}
  {events more : List Event}

/-- The computation does not fail, comes to `a` and adds `events` to the record. -/
def Does (m : Recording α) (a : α) (events : List Event) : Prop :=
  ∀ record, m.run record = some (a, record ++ events)

theorem Does.pure (a : α) : Does (pure a) a [] := fun record => by
  rw [List.append_nil]; rfl

theorem Does.bind (h : Does m a events) (h' : Does (f a) b more) :
    Does (m >>= f) b (events ++ more) := by
  intro record
  rw [StateT.run_bind, h record, ← List.append_assoc]
  exact h' (record ++ events)

/-- A step that adds nothing to the record. -/
theorem Does.bind_quiet (h : Does m a []) (h' : Does (f a) b more) : Does (m >>= f) b more :=
  h.bind h'

/-- A last step that adds nothing to the record. -/
theorem Does.then_quiet (h : Does m a events) (h' : Does (f a) b []) :
    Does (m >>= f) b events := by
  simpa using h.bind h'

theorem does_note (e : Event) : Does (note e) () [e] := fun _ => rfl

theorem Does.notes {m : Recording α} {e : Event} (h : Does m a events) :
    Does (do note e; m) a (e :: events) := (does_note e).bind h

end does

variable {forward : Adjacency} {s : Search} {path : List (String × Nat)} {next : Option String}
  {v x w : String} {p n : Nat} {record : List Event}

/-- Every numbered file has a link. -/
def Linked (s : Search) : Prop := ∀ x, s.Numbered x → (s.low.lookup x).isSome

theorem does_number (h : s.indexOf? x = some n) : Does (number s x) n [] := by
  rw [number, h]; exact .pure n

theorem does_link (h : Linked s) (hx : s.Numbered x) : Does (link s x) (s.lowOf x) [] := by
  obtain ⟨n, hn⟩ := Option.isSome_iff_exists.1 (h x hx)
  rw [link, indexOf?_of_numbered hx, hn, show s.lowOf x = n by rw [lowOf, hn]; rfl]
  exact .pure n

theorem does_lower (h : Linked s) (hx : s.Numbered x) :
    Does (lower s x n) (s.lower x n) [] := (does_link h hx).bind_quiet (.pure _)

theorem Linked.lower (h : Linked s) (x : String) (n : Nat) : Linked (s.lower x n) := by
  intro y hy
  rw [Search.lower, List.lookup_cons]
  split
  · rfl
  · exact h y hy

theorem Linked.meet (h : Linked s) (w : String) : Linked (s.meet w) := by
  intro y hy
  rw [Search.meet, List.lookup_cons]
  split
  · rfl
  · next hne => exact h y ((numbered_meet.1 hy).resolve_left (by simpa using hne))

/-- A look goes from its position up to the first neighbour that is not numbered, that one
    included, and past all of them if there is none. -/
theorem does_look (h : Linked s) (hv : s.Numbered v) (p : Nat) (ns : List String) :
    Linked (s.look v p ns).1 ∧
      ∃ k, Does (look s v p ns) (s.look v p ns) ((List.range' p k).map (.looks v)) ∧
        ((s.look v p ns).2 = none ∧ k = ns.length ∨
          ∃ w, ¬ s.Numbered w ∧ (s.look v p ns).2 = some (w, p + k)) := by
  induction ns generalizing s p with
  | nil => exact ⟨h, 0, .pure _, Or.inl ⟨rfl, rfl⟩⟩
  | cons w more ih =>
    cases hw : s.indexOf? w with
    | none =>
      have hlook : s.look v p (w :: more) = (s, some (w, p + 1)) := by simp only [Search.look, hw]
      rw [hlook]
      refine ⟨h, 1, ?_, Or.inr ⟨w, by simp [Numbered, hw], rfl⟩⟩
      rw [look, hw]
      exact Does.notes (.pure _)
    | some n =>
      -- one more position in front of those of the rest
      have hrest : ∀ {s' : Search} {m : Recording (Search × Option (String × Nat))} {k : Nat},
          Does m (s'.look v (p + 1) more) ((List.range' (p + 1) k).map (.looks v)) →
          Does (do note (.looks v p); m) (s'.look v (p + 1) more)
            ((List.range' p (k + 1)).map (.looks v)) := fun hm => hm.notes
      have hend : ∀ {s' : Search} {k : Nat},
          ((s'.look v (p + 1) more).2 = none ∧ k = more.length ∨
            ∃ u, ¬ s'.Numbered u ∧ (s'.look v (p + 1) more).2 = some (u, p + 1 + k)) →
          ((s'.look v (p + 1) more).2 = none ∧ k + 1 = (w :: more).length ∨
            ∃ u, ¬ s'.Numbered u ∧ (s'.look v (p + 1) more).2 = some (u, p + (k + 1))) := by
        rintro s' k (⟨hnone, hk⟩ | ⟨u, hu, hend⟩)
        · exact Or.inl ⟨hnone, by rw [hk, List.length_cons]⟩
        · exact Or.inr ⟨u, hu, by rw [hend, Nat.add_assoc, Nat.add_comm 1 k]⟩
      rw [look, hw]
      by_cases hs : s.stack.contains w = true
      · have hlook : s.look v p (w :: more) = (s.lower v n).look v (p + 1) more := by
          simp only [Search.look, hw, hs, if_true]
        obtain ⟨hl, k, hdoes, hk⟩ :=
          ih (h.lower v n) (show (s.lower v n).Numbered v from hv) (p + 1)
        rw [hlook]
        refine ⟨hl, k + 1, hrest ?_, hend hk⟩
        rw [if_pos hs]
        exact (does_number hw).bind_quiet ((does_lower h hv).bind_quiet hdoes)
      · have hlook : s.look v p (w :: more) = s.look v (p + 1) more := by
          simp only [Search.look, hw, hs]; rfl
        obtain ⟨hl, k, hdoes, hk⟩ := ih h hv (p + 1)
        rw [hlook]
        refine ⟨hl, k + 1, hrest ?_, hend hk⟩
        rw [if_neg hs]
        exact hdoes

/-- Taking files off a stack meets a file that is on it before the stack is empty. -/
theorem does_unstack {stack : List String} (h : v ∈ stack) :
    Does (unstack v stack) (Search.unstack v stack)
      ((Search.unstack v stack).1.map .pops) := by
  induction stack with
  | nil => simp at h
  | cons top below ih =>
    rw [unstack, Search.unstack]
    by_cases ht : (top == v) = true
    · rw [if_pos ht, if_pos ht]
      exact Does.notes (.pure _)
    · rw [if_neg ht, if_neg ht]
      have hbelow : v ∈ below := (List.mem_cons.1 h).resolve_left fun hv => ht (by simp [hv])
      have htaken := ih hbelow
      generalize Search.unstack v below = taken at htaken ⊢
      exact Does.notes (htaken.then_quiet (.pure _))

/-- Completing a file on the stack takes what it takes off the stack from its top. -/
theorem does_complete (h : Linked s) (hv : s.Numbered v) (hs : v ∈ s.stack) :
    ∃ popped, Does (complete s v) (s.complete v) (popped.map .pops) ∧
      s.stack = popped ++ (s.complete v).stack := by
  have hn := indexOf?_of_numbered hv
  rw [Search.complete, hn]
  by_cases hroot : s.lowOf v = s.num v
  · have hstack := does_unstack hs
    have happend := unstack_append v s.stack
    rw [if_pos (by simpa using hroot)]
    generalize Search.unstack v s.stack = taken at hstack happend ⊢
    refine ⟨taken.1, ?_, happend.symm⟩
    refine (does_link h hv).bind_quiet ((does_number hn).bind_quiet ?_)
    rw [if_pos (by simpa using hroot)]
    exact hstack.then_quiet (.pure _)
  · rw [if_neg (by simpa using hroot)]
    refine ⟨[], ?_, rfl⟩
    refine (does_link h hv).bind_quiet ((does_number hn).bind_quiet ?_)
    rw [if_neg (by simpa using hroot)]
    exact .pure s

theorem complete_rest (s : Search) (v : String) :
    s.complete v =
      { s with stack := (s.complete v).stack, components := (s.complete v).components } := by
  rw [Search.complete]
  split <;> rfl

theorem handDown_rest (s : Search) (v : String) :
    s.handDown v = { s with low := (s.handDown v).low } := by
  rw [Search.handDown]
  split <;> rfl

theorem Linked.handDown (h : Linked s) (v : String) : Linked (s.handDown v) := by
  rw [Search.handDown]
  split
  · exact h
  · exact Linked.lower h _ _

theorem does_handDown (h : Linked s) (hv : s.Numbered v)
    (hwork : ∀ e ∈ s.work, s.Numbered e.1) : Does (handDown s v) (s.handDown v) [] := by
  rw [handDown, Search.handDown]
  cases hw : s.work with
  | nil => exact .pure s
  | cons e more =>
    have he : s.Numbered e.1 := hwork e (by rw [hw]; exact List.mem_cons_self ..)
    exact (does_link h hv).bind_quiet (does_lower h he)

end Watched

end CodeSurvey.Graph.Search
