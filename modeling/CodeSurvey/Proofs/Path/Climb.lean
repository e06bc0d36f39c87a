import CodeSurvey.Proofs.Path
import Mathlib.Data.List.Induction

/-!
How far a path leads down, and what is left of it when it climbs further than that. Main statements:
the directory of a path is one level less deep; in the normal form of a path that climbs out of all
its directories a double dot stays in front.
-/

namespace CodeSurvey.Path

open Text

variable {p s : List Char} {kept front rest ns : List (List Char)} {n m levels : Nat}

/-! ### Levels -/

/-- How many directories a path leads down: its components that are not empty. -/
def depth (p : List Char) : Nat := ((components p).filter (· != [])).length

example : depth "a//b".toList = 2 := by decide

theorem depth_concat_slash (s : List Char) : depth (s ++ ['/']) = depth s := by
  rw [depth, components, pieces_append]
  simp [pieces, depth, components]

theorem depth_dropTrailing (s : List Char) : depth (dropTrailing '/' s) = depth s := by
  induction s using List.reverseRecOn with
  | nil => rfl
  | append_singleton s c ih =>
    by_cases hc : c = '/'
    · subst hc
      have hdrop : dropTrailing '/' (s ++ ['/']) = dropTrailing '/' s := by simp [dropTrailing]
      rw [hdrop, ih, depth_concat_slash]
    · have hdrop : dropTrailing '/' (s ++ [c]) = s ++ [c] := by simp [dropTrailing, hc]
      rw [hdrop]

theorem prefix_directory (p : List Char) : directory p <+: p := by
  have hhead : head p <+: p := ⟨baseName p, head_append_baseName p⟩
  have hdrop : dropTrailing '/' (head p) <+: head p := by
    rw [dropTrailing, ← List.reverse_suffix, List.reverse_reverse]
    exact List.dropWhile_suffix _
  unfold directory
  simp only
  split
  · exact hhead
  · exact hdrop.trans hhead

/-- The directory of a path that has one stands where its last slash is. -/
theorem exists_last_slash (h : '/' ∈ p) : ∃ s name, p = s ++ '/' :: name ∧ '/' ∉ name := by
  obtain ⟨name, s, heq, hname⟩ := List.eq_append_cons_of_mem (List.mem_reverse.2 h)
  refine ⟨s.reverse, name.reverse, ?_, fun hslash => hname (List.mem_reverse.1 hslash)⟩
  rw [← List.reverse_reverse p, heq]
  simp

theorem head?_eq_of_front {t : List Char} (h : s <+: t) (hne : s ≠ []) : s.head? = t.head? := by
  obtain ⟨more, rfl⟩ := h
  cases s with
  | nil => exact absurd rfl hne
  | cons c s => rfl

theorem directory_of_absolute (h : p.head? = some '/') : (directory p).head? = some '/' := by
  rw [head?_eq_of_front (prefix_directory p), h]
  obtain ⟨s, name, rfl, hname⟩ := exists_last_slash (List.mem_of_head? h)
  have hhead := head_append_slash hname s
  unfold directory
  simp only [hhead]
  split
  · simp
  · rename_i hall
    intro hdrop
    refine hall (List.all_eq_true.2 fun c hc => ?_)
    rw [dropTrailing, List.reverse_eq_nil_iff, List.dropWhile_eq_nil_iff] at hdrop
    exact hdrop c (List.mem_reverse.2 hc)

/-- The directory of a relative path is relative and does not end with a slash. -/
theorem directory_of_relative (h : p.head? ≠ some '/') :
    (directory p).head? ≠ some '/' ∧ (directory p).getLast? ≠ some '/' := by
  have hhead : (directory p).head? ≠ some '/' := by
    by_cases hnil : directory p = []
    · simp [hnil]
    · rwa [head?_eq_of_front (prefix_directory p) hnil]
  refine ⟨hhead, fun hlast => hhead ?_⟩
  unfold directory at hlast ⊢
  simp only at hlast ⊢
  split at hlast
  · rename_i hall
    rw [if_pos hall]
    obtain ⟨c, rest, hc⟩ := List.exists_cons_of_ne_nil (List.ne_nil_of_mem (List.mem_of_getLast? hlast))
    have hslash := List.all_eq_true.1 hall c (hc ▸ List.mem_cons_self ..)
    rw [hc, List.head?_cons, eq_of_beq hslash]
  · rw [dropTrailing, List.getLast?_reverse] at hlast
    have := List.head?_dropWhile_not (· == '/') (head p).reverse
    rw [hlast] at this
    simp at this

/-- The directory of a path that does not end with a slash is one level less deep. -/
theorem depth_directory (hne : p ≠ []) (hhead : p.head? ≠ some '/')
    (hlast : p.getLast? ≠ some '/') : depth p = depth (directory p) + 1 := by
  by_cases hslash : '/' ∈ p
  · obtain ⟨s, name, rfl, hname⟩ := exists_last_slash hslash
    have hnameNe : name ≠ [] := by
      rintro rfl
      exact hlast List.getLast?_concat
    obtain ⟨c, s, rfl⟩ : ∃ c rest, s = c :: rest := by
      cases s with
      | nil => exact absurd rfl hhead
      | cons c rest => exact ⟨c, rest, rfl⟩
    have hc : c ≠ '/' := fun heq => hhead (congrArg some heq)
    have hdirectory : directory (c :: s ++ '/' :: name) = dropTrailing '/' (c :: s ++ ['/']) := by
      rw [directory, head_append_slash hname]
      exact if_neg (by simp [hc])
    have hcomponents : components (c :: s ++ '/' :: name) = components (c :: s) ++ [name] := by
      rw [components, pieces_append, pieces_of_notMem hname, components]
    rw [hdirectory, depth_dropTrailing, depth_concat_slash, depth, hcomponents, List.filter_append,
      List.length_append, List.filter_cons_of_pos (by simpa using hnameNe)]
    rfl
  · have hdirectory : directory p = [] := by
      rw [directory, head_of_notMem hslash]
      rfl
    rw [hdirectory, depth, components, pieces_of_notMem hslash,
      List.filter_cons_of_pos (by simpa using hne)]
    rfl

/-! ### Climbing -/

/-- At most so many names are kept, and below them at least so many double dots. -/
def Keeps (names dots : Nat) (kept : List (List Char)) : Prop :=
  ∃ ns m, kept = ns ++ List.replicate m ['.', '.'] ∧ (∀ c ∈ ns, c ≠ ['.', '.']) ∧
    ns.length ≤ names ∧ dots ≤ m

theorem keeps_nil : Keeps 0 0 [] := ⟨[], 0, rfl, by simp, Nat.le_refl _, Nat.le_refl _⟩

theorem normaliseStep_replicate (m : Nat) :
    normaliseStep false (List.replicate m ['.', '.']) ['.', '.'] =
      List.replicate (m + 1) ['.', '.'] := by
  cases m <;> rfl

theorem normaliseStep_back {c : List Char} (hc : c ≠ ['.', '.']) (kept : List (List Char)) :
    normaliseStep false (c :: kept) ['.', '.'] = kept := by
  have hname : ¬ (c == ['.', '.']) = true := fun heq => hc (eq_of_beq heq)
  show (if c == ['.', '.'] then _ else kept) = kept
  rw [if_neg hname]

/-- A component adds at most one name and takes back no double dot. -/
theorem Keeps.step {dots : Nat} (h : Keeps n dots kept) (c : List Char) :
    Keeps (n + 1) dots (normaliseStep false kept c) := by
  obtain ⟨ns, m, rfl, hns, hlength, hdots⟩ := h
  by_cases hblank : c = [] ∨ c = ['.']
  · have hsame : normaliseStep false (ns ++ List.replicate m ['.', '.']) c =
        ns ++ List.replicate m ['.', '.'] := by
      rcases hblank with rfl | rfl <;> rfl
    exact ⟨ns, m, hsame, hns, Nat.le_succ_of_le hlength, hdots⟩
  by_cases hc : c = ['.', '.']
  · subst hc
    cases ns with
    | nil =>
      exact ⟨[], m + 1, normaliseStep_replicate m, by simp, by simp, Nat.le_succ_of_le hdots⟩
    | cons d ns =>
      obtain ⟨hd, hns⟩ := List.forall_mem_cons.1 hns
      rw [List.length_cons] at hlength
      exact ⟨ns, m, normaliseStep_back hd _, hns, by omega, hdots⟩
  · rw [not_or] at hblank
    have hpush : normaliseStep false (ns ++ List.replicate m ['.', '.']) c =
        c :: ns ++ List.replicate m ['.', '.'] := by
      simp [normaliseStep, hblank.1, hblank.2, hc]
    exact ⟨c :: ns, m, hpush, List.forall_mem_cons.2 ⟨hc, hns⟩, Nat.succ_le_succ hlength, hdots⟩

theorem Keeps.foldl {dots : Nat} (h : Keeps n dots kept) (cs : List (List Char)) :
    Keeps (n + (cs.filter (· != [])).length) dots (cs.foldl (normaliseStep false) kept) := by
  induction cs generalizing n kept with
  | nil => exact h
  | cons c cs ih =>
    by_cases hc : c = []
    · subst hc
      exact ih h
    · have hmore := ih (h.step c)
      rw [List.filter_cons_of_pos (by simpa using hc), List.length_cons, ← Nat.add_assoc,
        Nat.add_right_comm]
      exact hmore

/-- Double dots take back the names and, when there are no more, stay. -/
theorem foldl_normaliseStep_out (hns : ∀ c ∈ ns, c ≠ ['.', '.']) (h : ns.length ≤ levels) :
    (List.replicate levels ['.', '.']).foldl (normaliseStep false)
        (ns ++ List.replicate m ['.', '.']) =
      List.replicate (m + (levels - ns.length)) ['.', '.'] := by
  induction levels generalizing ns m with
  | zero =>
    obtain rfl := List.length_eq_zero_iff.1 (Nat.le_zero.1 h)
    rfl
  | succ levels ih =>
    rw [List.replicate_succ, List.foldl_cons]
    cases ns with
    | nil =>
      rw [List.nil_append, normaliseStep_replicate, ← List.nil_append (List.replicate _ _),
        ih (by simp) (Nat.zero_le _), List.length_nil]
      congr 1
      omega
    | cons c ns =>
      obtain ⟨hc, hns⟩ := List.forall_mem_cons.1 hns
      rw [List.length_cons] at h
      rw [List.cons_append, normaliseStep_back hc, ih hns (by omega), List.length_cons]
      congr 1
      omega

/-- The path starts at the root of the file system or above the directory it is relative to. -/
def IsOutside (p : List Char) : Prop :=
  ∃ rest, p = '/' :: rest ∨ p = '.' :: '.' :: '/' :: rest

theorem normalise_of_absolute (h : rootSlashes p ≠ []) : IsOutside (normalise p) := by
  obtain ⟨c, slashes, hroot⟩ := List.exists_cons_of_ne_nil h
  obtain rfl : c = '/' := eq_slash_of_mem_rootSlashes (hroot ▸ List.mem_cons_self ..)
  simp only [normalise, hroot, List.cons_append]
  exact ⟨_, .inl rfl⟩

/-- A path that climbs further than it has led down stays outside. -/
theorem normalise_outside (hp : components p = front ++ (List.replicate levels ['.', '.'] ++ rest))
    (hfront : Keeps n 0 (front.foldl (normaliseStep false) [])) (hlevels : n < levels) :
    normalise p = ['.', '.'] ∨ IsOutside (normalise p) := by
  by_cases hroot : rootSlashes p = []
  · obtain ⟨ns, m, hkept, hns, hlength, -⟩ := hfront
    have hclimbed : Keeps 0 1 ((List.replicate levels ['.', '.']).foldl (normaliseStep false)
        (front.foldl (normaliseStep false) [])) := by
      rw [hkept, foldl_normaliseStep_out hns (by omega)]
      exact ⟨[], _, rfl, by simp, Nat.le_refl _, by omega⟩
    -- no component behind takes the double dots back
    obtain ⟨names, dots, hall, -, -, hdots⟩ := hclimbed.foldl rest
    obtain ⟨dots, rfl⟩ := Nat.exists_eq_add_of_le' hdots
    have hreverse : (names ++ List.replicate (dots + 1) ['.', '.']).reverse =
        ['.', '.'] :: (List.replicate dots ['.', '.'] ++ names.reverse) := by
      rw [List.reverse_append, List.reverse_replicate, List.replicate_succ, List.cons_append]
    have hnormal : normalise p =
        join ['/'] (['.', '.'] :: (List.replicate dots ['.', '.'] ++ names.reverse)) := by
      simp only [normalise, hroot, hp, List.foldl_append, List.isEmpty_nil, Bool.not_true, hall,
        hreverse, List.nil_append]
      cases List.replicate dots ['.', '.'] ++ names.reverse <;> rfl
    rw [hnormal]
    cases List.replicate dots ['.', '.'] ++ names.reverse with
    | nil => exact .inl rfl
    | cons next more => exact .inr ⟨join ['/'] (next :: more), .inr rfl⟩
  · exact .inr (normalise_of_absolute hroot)

end CodeSurvey.Path
