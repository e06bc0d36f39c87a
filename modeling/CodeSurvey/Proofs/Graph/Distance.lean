import CodeSurvey.Proofs.Graph.Reach
import Mathlib.Data.Finset.Card
import Mathlib.Data.Fintype.Card
import Mathlib.Data.Nat.Find

/-!
Distances in a graph: a file is at distance `n` from another if a chain of `n` edges leads there and
no shorter one does. A round holds, each once, the unseen importers of the round before. Main
statements: every file that is reached has exactly one distance, the files at the next distance are
the ends of edges from the files at one that are not nearer, and no distance is left out on the way
to a greater one; each round holds the files at one distance, so the rounds up to a distance list
each file within that distance once.
-/

namespace CodeSurvey.Adjacency

/-- A chain of `n` edges leads from `x` to a file. -/
inductive Chain (a : Adjacency) (x : String) : Nat → String → Prop
  | start : Chain a x 0 x
  | snoc {n : Nat} {y z : String} : Chain a x n y → a.Edge y z → Chain a x (n + 1) z

/-- The shortest chain from `x` to `y` has `n` edges. -/
def Distance (a : Adjacency) (x y : String) (n : Nat) : Prop :=
  Chain a x n y ∧ ∀ m, Chain a x m y → n ≤ m

variable {a : Adjacency} {x y z : String} {m n : Nat}

theorem Chain.reaches (h : Chain a x n y) : a.Reaches x y := by
  induction h with
  | start => exact Reaches.refl
  | snoc _ he ih => exact ih.trans he.reaches

theorem Reaches.exists_chain (h : a.Reaches x y) : ∃ n, Chain a x n y := by
  induction h with
  | refl => exact ⟨0, Chain.start⟩
  | tail _ he ih =>
    obtain ⟨n, hn⟩ := ih
    exact ⟨n + 1, hn.snoc he⟩

theorem Chain.exists_distance (h : Chain a x n y) : ∃ m, m ≤ n ∧ Distance a x y m := by
  classical
  have hex : ∃ m, Chain a x m y := ⟨n, h⟩
  exact ⟨Nat.find hex, Nat.find_min' hex h, Nat.find_spec hex, fun m hm => Nat.find_min' hex hm⟩

/-- A file is reached if and only if it has a distance. -/
theorem reaches_iff_exists_distance : a.Reaches x y ↔ ∃ n, Distance a x y n := by
  constructor
  · intro h
    obtain ⟨n, hn⟩ := h.exists_chain
    obtain ⟨m, _, hm⟩ := hn.exists_distance
    exact ⟨m, hm⟩
  · rintro ⟨n, hn⟩
    exact hn.1.reaches

theorem Distance.unique (hm : Distance a x y m) (hn : Distance a x y n) : m = n :=
  Nat.le_antisymm (hm.2 n hn.1) (hn.2 m hm.1)

theorem distance_zero_iff : Distance a x y 0 ↔ y = x := by
  constructor
  · rintro ⟨h, _⟩
    cases h
    rfl
  · rintro rfl
    exact ⟨Chain.start, fun m _ => Nat.zero_le m⟩

theorem Distance.ne_of_pos (h : Distance a x y n) (hn : 1 ≤ n) : y ≠ x := by
  rintro rfl
  have := h.unique (distance_zero_iff.2 rfl)
  omega

/-- The last edge of a shortest chain starts at the distance before. -/
theorem Distance.exists_prev (h : Distance a x z (n + 1)) :
    ∃ y, Distance a x y n ∧ a.Edge y z := by
  obtain ⟨hc, hmin⟩ := h
  cases hc with
  | snoc hy he =>
    refine ⟨_, ⟨hy, fun m hm => ?_⟩, he⟩
    have := hmin (m + 1) (hm.snoc he)
    omega

/-- The files at the next distance: the ends of edges from the files at one that are not nearer. -/
theorem distance_succ_iff :
    Distance a x z (n + 1) ↔
      (∃ y, Distance a x y n ∧ a.Edge y z) ∧ ¬ ∃ m ≤ n, Distance a x z m := by
  constructor
  · intro h
    refine ⟨h.exists_prev, ?_⟩
    rintro ⟨m, hm, hz⟩
    have := h.unique hz
    omega
  · rintro ⟨⟨y, hy, he⟩, hfar⟩
    refine ⟨hy.1.snoc he, fun m hm => Nat.lt_of_not_le fun hle => ?_⟩
    obtain ⟨k, hk, hz⟩ := hm.exists_distance
    exact hfar ⟨k, Nat.le_trans hk hle, hz⟩

/-- On the way to a file there is one at every smaller distance. -/
theorem Distance.exists_of_le (h : Distance a x z n) (hm : m ≤ n) : ∃ y, Distance a x y m := by
  induction n generalizing z with
  | zero => exact ⟨z, (Nat.le_zero.1 hm) ▸ h⟩
  | succ n ih =>
    rcases Nat.lt_or_eq_of_le hm with hlt | rfl
    · obtain ⟨y, hy, _⟩ := h.exists_prev
      exact ih hy (Nat.le_of_lt_succ hlt)
    · exact ⟨z, h⟩

/-- A distance is less than the number of files, since every smaller one belongs to a file of its
    own. -/
theorem Distance.lt_card {files : Finset String} (hx : x ∈ files)
    (hedge : ∀ u w, a.Edge u w → w ∈ files) (h : Distance a x z n) : n < files.card := by
  have hmem : ∀ {y m}, Distance a x y m → y ∈ files := fun hy =>
    hy.1.reaches.mem_of_closed (fun u _ w he => hedge u w he) hx
  choose file hfile using fun m : Fin (n + 1) => h.exists_of_le (Nat.le_of_lt_succ m.isLt)
  have hinj : Function.Injective file := fun i j hij =>
    Fin.ext ((hij ▸ hfile i).unique (hfile j))
  calc n + 1 = (Finset.univ.image file).card := by
        rw [Finset.card_image_of_injective _ hinj, Finset.card_fin]
    _ ≤ files.card := Finset.card_le_card fun y hy => by
        obtain ⟨m, _, rfl⟩ := Finset.mem_image.1 hy
        exact hmem (hfile m)

end CodeSurvey.Adjacency

namespace CodeSurvey.Graph

open Adjacency

variable {reverse : Adjacency} {file y : String} {depth k m : Nat} {seen round : List String}

/-- The files that have not been seen, each once, behind those already found. -/
def addUnseen (seen found files : List String) : List String :=
  files.foldl
    (fun found f => if seen.contains f || found.contains f then found else found ++ [f]) found

theorem mem_addUnseen (seen found files : List String) (f : String) :
    f ∈ addUnseen seen found files ↔ f ∈ found ∨ f ∉ seen ∧ f ∈ files := by
  induction files generalizing found with
  | nil => simp [addUnseen]
  | cons g more ih => rw [addUnseen, List.foldl_cons, ← addUnseen, ih]; grind

theorem nodup_addUnseen (seen files : List String) {found : List String} (h : found.Nodup) :
    (addUnseen seen found files).Nodup := by
  induction files generalizing found with
  | nil => exact h
  | cons g more ih =>
    rw [addUnseen, List.foldl_cons, ← addUnseen]
    split
    · exact ih h
    · refine ih (List.nodup_append.2 ⟨h, by simp, ?_⟩)
      rintro a ha b hb rfl
      simp_all

/-- The importers of the files of a round that have not been seen, each once, behind those already
    found. -/
def unseenImporters (reverse : Adjacency) (seen found : List String) : List String → List String
  | [] => found
  | file :: more =>
    unseenImporters reverse seen (addUnseen seen found (reverse.neighbours file)) more

theorem mem_unseenImporters (reverse : Adjacency) (seen found files : List String) (f : String) :
    f ∈ unseenImporters reverse seen found files ↔
      f ∈ found ∨ f ∉ seen ∧ ∃ file ∈ files, f ∈ reverse.neighbours file := by
  induction files generalizing found with
  | nil => simp [unseenImporters]
  | cons file more ih => rw [unseenImporters, ih, mem_addUnseen]; grind

theorem nodup_unseenImporters (reverse : Adjacency) (seen files : List String)
    {found : List String} (h : found.Nodup) :
    (unseenImporters reverse seen found files).Nodup := by
  induction files generalizing found with
  | nil => exact h
  | cons file more ih => exact ih (nodup_addUnseen _ _ h)

/-- The rounds after a given one, at most `depth` of them, none empty; `seen` are the files met so
    far. -/
def rounds (reverse : Adjacency) : Nat → List String → List String → List (List String)
  | 0, _, _ => []
  | depth + 1, seen, round =>
    match unseenImporters reverse seen [] round with
    | [] => []
    | next => next :: rounds reverse depth (seen ++ next) next

theorem rounds_of_nil (depth : Nat) (h : unseenImporters reverse seen [] round = []) :
    rounds reverse (depth + 1) seen round = [] := by
  rw [rounds, h]

theorem rounds_of_cons {f : String} {more : List String} (depth : Nat)
    (h : unseenImporters reverse seen [] round = f :: more) :
    rounds reverse (depth + 1) seen round =
      (f :: more) :: rounds reverse depth (seen ++ f :: more) (f :: more) := by
  rw [rounds, h]

/-- The files of rounds with their distances, the first round being at a distance. -/
def withDistance (distance : Nat) : List (List String) → List (String × Nat)
  | [] => []
  | round :: more => round.map (·, distance) ++ withDistance (distance + 1) more

theorem map_fst_withDistance (distance : Nat) (rounds : List (List String)) :
    (withDistance distance rounds).map (·.1) = rounds.flatten := by
  fun_induction withDistance distance rounds <;> simp_all [Function.comp_def]

/-- The importers that have not been seen after the files at distance `k` are the files at the next
    distance. -/
theorem mem_next_iff (hseen : ∀ y, y ∈ seen ↔ ∃ m ≤ k, Distance reverse file y m)
    (hround : ∀ y, y ∈ round ↔ Distance reverse file y k) :
    y ∈ unseenImporters reverse seen [] round ↔ Distance reverse file y (k + 1) := by
  rw [mem_unseenImporters, distance_succ_iff, hseen y]
  constructor
  · rintro (hn | ⟨hfar, x, hx, he⟩)
    · simp at hn
    · exact ⟨⟨x, (hround x).1 hx, he⟩, hfar⟩
  · rintro ⟨⟨x, hx, he⟩, hfar⟩
    exact Or.inr ⟨hfar, x, (hround x).2 hx, he⟩

/-- The rounds after the files at distance `k` hold the files at the next distances. -/
theorem mem_withDistance_rounds (hseen : ∀ y, y ∈ seen ↔ ∃ m ≤ k, Distance reverse file y m)
    (hround : ∀ y, y ∈ round ↔ Distance reverse file y k) :
    (y, m) ∈ withDistance (k + 1) (rounds reverse depth seen round) ↔
      k < m ∧ m ≤ k + depth ∧ Distance reverse file y m := by
  induction depth generalizing k seen round with
  | zero =>
    simp only [rounds, withDistance, List.not_mem_nil, false_iff]
    omega
  | succ depth ih =>
    have hnext := fun y => mem_next_iff (y := y) hseen hround
    rw [rounds]
    cases hn : unseenImporters reverse seen [] round with
    | nil =>
      simp only [withDistance, List.not_mem_nil, false_iff]
      rintro ⟨hkm, _, hd⟩
      obtain ⟨z, hz⟩ := hd.exists_of_le hkm
      have := (hnext z).2 hz
      simp [hn] at this
    | cons f more =>
      rw [hn] at hnext
      have hseen' : ∀ y, y ∈ seen ++ f :: more ↔ ∃ m ≤ k + 1, Distance reverse file y m := by
        intro y
        rw [List.mem_append, hseen y, hnext y]
        constructor
        · rintro (⟨m, hm, hd⟩ | hd)
          · exact ⟨m, Nat.le_succ_of_le hm, hd⟩
          · exact ⟨k + 1, Nat.le_refl _, hd⟩
        · rintro ⟨m, hm, hd⟩
          rcases Nat.lt_or_eq_of_le hm with hlt | rfl
          · exact Or.inl ⟨m, Nat.le_of_lt_succ hlt, hd⟩
          · exact Or.inr hd
      rw [withDistance, List.mem_append, ih hseen' hnext]
      constructor
      · rintro (hm | ⟨hkm, hm, hd⟩)
        · obtain ⟨z, hz, he⟩ := List.mem_map.1 hm
          obtain ⟨rfl, rfl⟩ := Prod.mk.inj he
          exact ⟨Nat.lt_succ_self k, by omega, (hnext z).1 hz⟩
        · exact ⟨by omega, by omega, hd⟩
      · rintro ⟨hkm, hm, hd⟩
        rcases Nat.lt_or_eq_of_le (Nat.succ_le_of_lt hkm) with hlt | rfl
        · exact Or.inr ⟨hlt, by omega, hd⟩
        · exact Or.inl (List.mem_map.2 ⟨y, (hnext y).2 hd, rfl⟩)

/-- No file stands in two rounds or in a round and among those seen before. -/
theorem nodup_rounds (reverse : Adjacency) (depth : Nat) (seen round : List String) :
    (rounds reverse depth seen round).flatten.Nodup ∧
      ∀ y ∈ (rounds reverse depth seen round).flatten, y ∉ seen := by
  induction depth generalizing seen round with
  | zero => simp [rounds]
  | succ depth ih =>
    have hfresh : ∀ y ∈ unseenImporters reverse seen [] round, y ∉ seen := by
      intro y hy
      exact (((mem_unseenImporters ..).1 hy).resolve_left (by simp)).1
    have hnd : (unseenImporters reverse seen [] round).Nodup :=
      nodup_unseenImporters reverse seen round List.nodup_nil
    rw [rounds]
    generalize unseenImporters reverse seen [] round = next at hfresh hnd
    cases next with
    | nil => simp
    | cons f more =>
      obtain ⟨hrest, hout⟩ := ih (seen ++ f :: more) (f :: more)
      have hout' : ∀ y ∈ (rounds reverse depth (seen ++ f :: more) (f :: more)).flatten,
          y ∉ seen ∧ y ∉ f :: more := fun y hy =>
        ⟨fun hs => hout y hy (List.mem_append_left _ hs),
          fun hs => hout y hy (List.mem_append_right _ hs)⟩
      simp only [List.flatten_cons]
      refine ⟨List.nodup_append.2 ⟨hnd, hrest, ?_⟩, fun y hy => ?_⟩
      · rintro x hx y hy rfl
        exact (hout' x hy).2 hx
      · rcases List.mem_append.1 hy with hy | hy
        · exact hfresh y hy
        · exact (hout' y hy).1

/-- Every file of a round is the end of an edge. -/
theorem exists_edge_of_mem_rounds (h : y ∈ (rounds reverse depth seen round).flatten) :
    ∃ x, reverse.Edge x y := by
  induction depth generalizing seen round with
  | zero => simp [rounds] at h
  | succ depth ih =>
    cases hnext : unseenImporters reverse seen [] round with
    | nil => simp [rounds_of_nil depth hnext] at h
    | cons f more =>
      rw [rounds_of_cons depth hnext, List.flatten_cons, ← hnext] at h
      rcases List.mem_append.1 h with h | h
      · obtain ⟨_, x, _, hx⟩ := ((mem_unseenImporters ..).1 h).resolve_left List.not_mem_nil
        exact ⟨x, hx⟩
      · exact ih h

end CodeSurvey.Graph
