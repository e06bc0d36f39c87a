import CodeSurvey.Graph.Impact
import CodeSurvey.Proofs.Graph.Distance
import Mathlib.Data.List.Perm.Subperm

/-!
The search for importers, as it goes through its queue. Between two rounds the queue holds the files
of one round; taking them off meets the files of the next round, in their order. Main statement: the
search notes the files of the rounds with their distances, and nothing else.
-/

namespace CodeSurvey.Graph.Sweep

variable {reverse : Adjacency} {maxDepth : Int} {s : Sweep} {seen found round : List String}
  {depth k fuel : Nat}

/-- Notes files with their distances, one after another. -/
def noteAll (maxDepth : Int) (s : Sweep) (files : List (String × Nat)) : Sweep :=
  files.foldl (fun s e => s.note maxDepth e.1 e.2) s

theorem noteAll_append (files more : List (String × Nat)) :
    s.noteAll maxDepth (files ++ more) = (s.noteAll maxDepth files).noteAll maxDepth more :=
  List.foldl_append

/-- The state with other files in the queue. -/
def withQueue (s : Sweep) (queue : List (String × Nat)) : Sweep := { s with queue }

/-- The files that the search goes on from. -/
def waiting (maxDepth : Int) (files : List (String × Nat)) : List (String × Nat) :=
  files.filter fun e => decide ((e.2 : Int) < maxDepth)

/-- Noting files puts those that the search goes on from behind the queue, whatever is in it. -/
theorem noteAll_withQueue (queue files : List (String × Nat)) :
    (s.withQueue queue).noteAll maxDepth files =
      (s.noteAll maxDepth files).withQueue (queue ++ waiting maxDepth files) := by
  induction files generalizing s queue with
  | nil => rw [waiting, List.filter_nil, List.append_nil]; rfl
  | cons e more ih =>
    have hnote : (s.withQueue queue).note maxDepth e.1 e.2 =
        (s.note maxDepth e.1 e.2).withQueue
          (if (e.2 : Int) < maxDepth then queue ++ [e] else queue) := rfl
    rw [noteAll, List.foldl_cons, hnote, ← noteAll, ih, waiting, waiting, List.filter_cons]
    by_cases hd : (e.2 : Int) < maxDepth
    · rw [if_pos hd, if_pos (decide_eq_true hd), List.append_assoc]
      rfl
    · rw [if_neg hd, if_neg (by simpa using hd)]
      rfl

theorem queue_noteAll (files : List (String × Nat)) :
    (s.noteAll maxDepth files).queue = s.queue ++ waiting maxDepth files :=
  congrArg queue (noteAll_withQueue (s := s) s.queue files)

/-- A list to which each noted file that counts adds an entry gets the entries of all of them, in
    their order. -/
theorem field_noteAll {α : Type} (field : Sweep → List α) (counts : String × Nat → Bool)
    (entry : String × Nat → α)
    (hnote : ∀ s e, field (s.note maxDepth e.1 e.2) =
      if counts e then field s ++ [entry e] else field s) (files : List (String × Nat)) :
    field (s.noteAll maxDepth files) = field s ++ (files.filter counts).map entry := by
  induction files generalizing s with
  | nil => exact (List.append_nil _).symm
  | cons e more ih =>
    rw [noteAll, List.foldl_cons, ← noteAll, ih, hnote, List.filter_cons]
    cases counts e with
    | true => rw [if_pos rfl, if_pos rfl, List.map_cons, List.append_assoc]; rfl
    | false => rfl

theorem seen_noteAll (files : List (String × Nat)) :
    (s.noteAll maxDepth files).seen = s.seen ++ files.map (·.1) := by
  rw [field_noteAll seen (fun _ => true) (·.1) (fun _ _ => rfl), List.filter_true]

theorem direct_noteAll (files : List (String × Nat)) :
    (s.noteAll maxDepth files).direct =
      s.direct ++ (files.filter fun e => e.2 == 1).map (·.1) :=
  field_noteAll direct _ _ (fun _ _ => rfl) files

theorem transitive_noteAll (files : List (String × Nat)) :
    (s.noteAll maxDepth files).transitive = s.transitive ++ files.filter fun e => !(e.2 == 1) := by
  rw [field_noteAll transitive (fun e => !(e.2 == 1)) id, List.map_id]
  intro s e
  rw [note]
  cases e.2 == 1 <;> rfl

theorem frontier_noteAll (files : List (String × Nat)) :
    (s.noteAll maxDepth files).frontier =
      s.frontier ++ (files.filter fun e => !decide ((e.2 : Int) < maxDepth)).map (·.1) := by
  refine field_noteAll frontier _ _ (fun s e => ?_) files
  rw [note]
  by_cases hd : (e.2 : Int) < maxDepth
  · simp [hd]
  · simp [hd]

theorem deepest_noteAll (files : List (String × Nat)) :
    (s.noteAll maxDepth files).deepest = (files.map (·.2)).foldl max s.deepest := by
  induction files generalizing s with
  | nil => rfl
  | cons e more ih =>
    rw [noteAll, List.foldl_cons, ← noteAll, ih]
    rfl

theorem map_fst_map_pair (files : List String) (distance : Nat) :
    (files.map (·, distance)).map (·.1) = files := by
  rw [List.map_map]
  exact List.map_id files

/-! ### A round -/

/-- Meeting importers notes those that have not been seen. -/
theorem expand_eq (h : s.seen = seen ++ found) (importers : List String) :
    ∃ fresh, addUnseen seen found importers = found ++ fresh ∧
      s.expand maxDepth k importers = s.noteAll maxDepth (fresh.map (·, k + 1)) := by
  induction importers generalizing s found with
  | nil => exact ⟨[], (List.append_nil _).symm, rfl⟩
  | cons f more ih =>
    have hmem : s.seen.contains f = (seen.contains f || found.contains f) := by
      rw [h, List.contains_append]
    rw [addUnseen, List.foldl_cons, ← addUnseen, expand, List.foldl_cons, ← expand, hmem]
    by_cases hf : (seen.contains f || found.contains f) = true
    · rw [if_pos hf, if_pos hf]
      exact ih h
    · rw [if_neg hf, if_neg hf]
      have hseen : (s.note maxDepth f (k + 1)).seen = seen ++ (found ++ [f]) := by
        rw [note, h, List.append_assoc]
      obtain ⟨fresh, hfresh, hexpand⟩ := ih hseen
      exact ⟨f :: fresh, by rw [hfresh, List.append_assoc]; rfl, hexpand⟩

/-- Taking the files of a round off the queue notes the unseen importers of the round. -/
theorem run_round (reverse : Adjacency) (maxDepth : Int) (k fuel : Nat)
    (h : s.seen = seen ++ found) (round : List String) :
    ∃ fresh, unseenImporters reverse seen found round = found ++ fresh ∧
      run reverse maxDepth (round.length + fuel)
          (s.withQueue (round.map (·, k) ++ s.queue)) =
        run reverse maxDepth fuel (s.noteAll maxDepth (fresh.map (·, k + 1))) := by
  induction round generalizing s found with
  | nil => exact ⟨[], (List.append_nil _).symm, by rw [List.length_nil, Nat.zero_add]; rfl⟩
  | cons f more ih =>
    obtain ⟨fresh, hfresh, hexpand⟩ : ∃ fresh,
        addUnseen seen found (reverse.neighbours f) = found ++ fresh ∧
          (s.withQueue (more.map (·, k) ++ s.queue)).expand maxDepth k (reverse.neighbours f) =
            (s.withQueue (more.map (·, k) ++ s.queue)).noteAll maxDepth
              (fresh.map (·, k + 1)) :=
      expand_eq (s := s.withQueue (more.map (·, k) ++ s.queue)) h _
    -- what is noted goes behind the files of the round that still wait
    rw [noteAll_withQueue, List.append_assoc, ← queue_noteAll] at hexpand
    have hseen : (s.noteAll maxDepth (fresh.map (·, k + 1))).seen = seen ++ (found ++ fresh) := by
      rw [seen_noteAll, h, List.append_assoc, map_fst_map_pair]
    obtain ⟨fresh', hfresh', hrun⟩ := ih hseen
    refine ⟨fresh ++ fresh', ?_, ?_⟩
    · rw [unseenImporters, hfresh, hfresh', List.append_assoc]
    · rw [List.map_append, noteAll_append, ← hrun, ← hexpand, List.length_cons,
        Nat.add_right_comm]
      rfl

/-! ### All rounds -/

theorem run_of_queue_nil (fuel : Nat) (h : s.queue = []) : run reverse maxDepth fuel s = s := by
  cases fuel with
  | zero => rfl
  | succ fuel => rw [run, h]

/-- All files of a round wait if the search goes on from their distance, else none. -/
theorem waiting_map_pair (files : List String) (distance : Nat) :
    waiting maxDepth (files.map (·, distance)) =
      if (distance : Int) < maxDepth then files.map (·, distance) else [] := by
  by_cases hd : (distance : Int) < maxDepth
  · rw [if_pos hd]
    refine List.filter_eq_self.2 fun e he => ?_
    obtain ⟨f, _, rfl⟩ := List.mem_map.1 he
    exact decide_eq_true hd
  · rw [if_neg hd]
    refine List.filter_eq_nil_iff.2 fun e he => ?_
    obtain ⟨f, _, rfl⟩ := List.mem_map.1 he
    simpa using hd

theorem withQueue_of_queue {queue : List (String × Nat)} (h : s.queue = queue) :
    s.withQueue queue = s := by
  subst h
  rfl

/-- The first of the rounds, and the fuel left after it. -/
theorem run_first_round (hseen : s.seen = seen) (hqueue : s.queue = [])
    (hfuel : round.length ≤ fuel) :
    ∃ rest, round.length + rest = fuel ∧
      run reverse maxDepth fuel (s.withQueue (round.map (·, k))) =
        run reverse maxDepth rest
          (s.noteAll maxDepth ((unseenImporters reverse seen [] round).map (·, k + 1))) := by
  obtain ⟨rest, rfl⟩ := Nat.exists_eq_add_of_le hfuel
  obtain ⟨fresh, hfresh, hrun⟩ := run_round reverse maxDepth k rest
    (hseen.trans (List.append_nil seen).symm) round
  rw [hqueue, List.append_nil] at hrun
  exact ⟨rest, rfl, by rw [hrun, hfresh]; rfl⟩

/-- From a round on the search notes the files of the later rounds, until `depth + 1` rounds have
    passed or nothing is left. -/
theorem run_rounds (hseen : s.seen = seen) (hqueue : s.queue = [])
    (hlimit : ∀ n : Nat, k < n → ((n : Int) < maxDepth ↔ n < k + (depth + 1)))
    (hfuel : round.length + (rounds reverse (depth + 1) seen round).flatten.length ≤ fuel) :
    run reverse maxDepth fuel (s.withQueue (round.map (·, k))) =
      (s.noteAll maxDepth
        (withDistance (k + 1) (rounds reverse (depth + 1) seen round))).withQueue [] := by
  induction depth generalizing s seen round k fuel with
  | zero =>
    obtain ⟨rest, _, hrun⟩ := run_first_round hseen hqueue (Nat.le_of_add_right_le hfuel)
    have hstop : ¬ ((k + 1 : Nat) : Int) < maxDepth := by
      rw [hlimit (k + 1) (Nat.lt_succ_self k)]
      exact Nat.lt_irrefl _
    rw [hrun]
    cases hnext : unseenImporters reverse seen [] round with
    | nil =>
      rw [rounds_of_nil 0 hnext]
      exact (run_of_queue_nil rest hqueue).trans (withQueue_of_queue hqueue).symm
    | cons f more =>
      have hempty : (s.noteAll maxDepth ((f :: more).map (·, k + 1))).queue = [] := by
        rw [queue_noteAll, hqueue, waiting_map_pair, if_neg hstop]
        rfl
      rw [rounds_of_cons 0 hnext, rounds, withDistance, withDistance, List.append_nil,
        withQueue_of_queue hempty, run_of_queue_nil rest hempty]
  | succ depth ih =>
    obtain ⟨rest, hrest, hrun⟩ := run_first_round hseen hqueue (Nat.le_of_add_right_le hfuel)
    have hgo : ((k + 1 : Nat) : Int) < maxDepth := by
      rw [hlimit (k + 1) (Nat.lt_succ_self k)]
      omega
    rw [hrun]
    cases hnext : unseenImporters reverse seen [] round with
    | nil =>
      rw [rounds_of_nil (depth + 1) hnext]
      exact (run_of_queue_nil rest hqueue).trans (withQueue_of_queue hqueue).symm
    | cons f more =>
      rw [rounds_of_cons (depth + 1) hnext, List.flatten_cons, List.length_append] at hfuel
      rw [rounds_of_cons (depth + 1) hnext, withDistance, noteAll_append]
      have hwait : (s.noteAll maxDepth ((f :: more).map (·, k + 1))).queue =
          (f :: more).map (·, k + 1) := by
        rw [queue_noteAll, hqueue, waiting_map_pair, if_pos hgo]
        rfl
      have hmet : (s.noteAll maxDepth ((f :: more).map (·, k + 1))).seen = seen ++ f :: more := by
        rw [seen_noteAll, hseen, map_fst_map_pair]
      generalize s.noteAll maxDepth ((f :: more).map (·, k + 1)) = t at hwait hmet ⊢
      have hfuel' : (f :: more).length +
          (rounds reverse (depth + 1) (seen ++ f :: more) (f :: more)).flatten.length ≤ rest := by
        omega
      have hlater := ih (s := t.withQueue []) hmet rfl
        (fun n hn => (hlimit n (Nat.lt_of_succ_lt hn)).trans (by omega)) hfuel'
      rw [noteAll_withQueue] at hlater
      have ht : t.withQueue ((f :: more).map (·, k + 1)) = t := withQueue_of_queue hwait
      exact (congrArg (run reverse maxDepth rest) ht.symm).trans hlater

/-- The rounds of the search from a file. -/
def roundsFrom (reverse : Adjacency) (maxDepth : Int) (file : String) : List (List String) :=
  rounds reverse (max 1 maxDepth.toNat) [file] [file]

/-- The files noted in the rounds are ends of edges, each of another one. -/
theorem length_roundsFrom_le (reverse : Adjacency) (maxDepth : Int) (file : String) :
    (roundsFrom reverse maxDepth file).flatten.length ≤ reverse.size := by
  have hsub : (roundsFrom reverse maxDepth file).flatten ⊆ reverse.flatMap (·.2) := by
    intro y hy
    obtain ⟨x, hx⟩ := exists_edge_of_mem_rounds hy
    obtain ⟨ts, hts, hy⟩ := Adjacency.Edge.exists_entry hx
    exact List.mem_flatMap.2 ⟨_, hts, hy⟩
  have hsize : (reverse.flatMap (·.2)).length = reverse.size := by
    rw [List.length_flatMap]
    rfl
  rw [← hsize]
  exact (List.Nodup.subperm (nodup_rounds ..).1 hsub).length_le

/-- The search notes the files of the rounds with their distances, and nothing else. -/
theorem start_eq (reverse : Adjacency) (maxDepth : Int) (file : String) :
    start reverse maxDepth file =
      (({ queue := [], seen := [file] } : Sweep).noteAll maxDepth
        (withDistance 1 (roundsFrom reverse maxDepth file))).withQueue [] := by
  obtain ⟨depth, hdepth⟩ : ∃ depth, max 1 maxDepth.toNat = depth + 1 :=
    Nat.exists_eq_add_of_le' (Nat.le_max_left ..)
  have hfuel := length_roundsFrom_le reverse maxDepth file
  rw [roundsFrom, hdepth] at hfuel ⊢
  show run reverse maxDepth (reverse.size + 1)
    (withQueue { queue := [], seen := [file] } ([file].map (·, 0))) = _
  refine run_rounds rfl rfl (fun n hn => ?_) ?_
  · omega
  · rw [List.length_singleton]
    omega

end CodeSurvey.Graph.Sweep
