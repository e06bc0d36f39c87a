import CodeSurvey.Graph.Rank
import CodeSurvey.Path
import CodeSurvey.Proofs.Graph.Entries
import CodeSurvey.Proofs.Text.Pieces
import Mathlib.Algebra.Order.BigOperators.Group.List
import Mathlib.Algebra.Order.Ring.Nat

/-!
Importers of files that are named loosely. Main statements: a key of the graph may mean a file if
and only if the components of one of the two are the last components of the other; the importers of
a list of files are summed over its files and over the keys that may mean them, so there are no
fewer of them in a longer list or in a graph in which more files import the same keys.
-/

namespace CodeSurvey.Adjacency

variable {a b : Adjacency}

/-- Each file of the first adjacency has an entry in the second one, with at least as many
    neighbours. -/
def GrowsTo (a b : Adjacency) : Prop :=
  ∀ entry ∈ a, ∃ targets, (entry.1, targets) ∈ b ∧ entry.2.length ≤ targets.length

/-- What the entries weigh does not get less if more neighbours weigh no less. -/
theorem Functional.sum_le_of_growsTo (ha : a.Functional) (h : a.GrowsTo b)
    (weight : String → Nat → Nat) (hweight : ∀ file, Monotone (weight file)) :
    (a.map fun entry => weight entry.1 entry.2.length).sum ≤
      (b.map fun entry => weight entry.1 entry.2.length).sum := by
  induction a generalizing b with
  | nil => exact Nat.zero_le _
  | cons entry more ih =>
    obtain ⟨hout, hmore⟩ := List.nodup_cons.1 ha
    obtain ⟨hentry, hgrows⟩ := List.forall_mem_cons.1 h
    obtain ⟨targets, hmem, hle⟩ := hentry
    obtain ⟨front, back, rfl⟩ := List.append_of_mem hmem
    -- the other files have their entries beside the one that is used up
    have hothers : GrowsTo more (front ++ back) := by
      intro other hother
      obtain ⟨targets', hmem', hle'⟩ := hgrows other hother
      refine ⟨targets', ?_, hle'⟩
      rcases List.mem_append.1 hmem' with hfront | hback
      · exact List.mem_append_left _ hfront
      · rcases List.mem_cons.1 hback with heq | hback
        · have hkey : other.1 = entry.1 := (Prod.mk.inj heq).1
          exact absurd (List.mem_map.2 ⟨other, hother, hkey⟩) hout
        · exact List.mem_append_right _ hback
    have hsum := ih hmore hothers
    have hone := hweight entry.1 hle
    simp only [List.map_append, List.map_cons, List.sum_append, List.sum_cons] at hsum ⊢
    omega

end CodeSurvey.Adjacency

namespace CodeSurvey.Graph

open Text

variable {a b : List Char}

/-! ### Paths as components -/

/-- One of two lists of components ends with the other one. -/
def EndAlike (cs ds : List (List Char)) : Prop := cs <:+ ds ∨ ds <:+ cs

instance (cs ds : List (List Char)) : Decidable (EndAlike cs ds) :=
  inferInstanceAs (Decidable (_ ∨ _))

/-- The components of a path with slashes only and without `./` in front. -/
def plainComponents (path : String) : List (List Char) := Path.components (plainPath path)

/-- Every `./` in front is dropped, and nothing else. -/
theorem dropHere_spec (path : List Char) :
    (∃ n, path = (List.replicate n ['.', '/']).flatten ++ dropHere path) ∧
      ¬ ['.', '/'] <+: dropHere path := by
  fun_induction dropHere path with
  | case1 rest ih =>
    obtain ⟨⟨n, hn⟩, hprefix⟩ := ih
    refine ⟨⟨n + 1, ?_⟩, hprefix⟩
    rw [List.replicate_succ, List.flatten_cons, List.append_assoc, ← hn]
    rfl
  | case2 path hpath =>
    refine ⟨⟨0, rfl⟩, ?_⟩
    rintro ⟨rest, rfl⟩
    exact hpath rest rfl

/-- A text ends with the pieces of another one exactly if it is that text, or has it behind a
    separator. -/
theorem pieces_suffix_iff (sep : Char) :
    pieces sep b <:+ pieces sep a ↔ a = b ∨ sep :: b <:+ a := by
  constructor
  · rintro ⟨front, hfront⟩
    by_cases hnil : front = []
    · left
      rw [← join_pieces sep a, ← join_pieces sep b, ← hfront, hnil, List.nil_append]
    · right
      rw [← join_pieces sep a, ← hfront, join_append _ hnil (pieces_ne_nil sep b), join_pieces,
        List.append_assoc]
      exact List.suffix_append ..
  · rintro (rfl | ⟨front, rfl⟩)
    · exact List.suffix_refl _
    · rw [pieces_append]
      exact List.suffix_append ..

/-- Two paths may mean the same place exactly if one ends with the components of the other. -/
theorem samePlace_iff :
    samePlace a b = true ↔ EndAlike (Path.components a) (Path.components b) := by
  rw [EndAlike, Path.components, Path.components, pieces_suffix_iff, pieces_suffix_iff, samePlace,
    Bool.or_eq_true, Bool.or_eq_true, beq_iff_eq, List.isSuffixOf_iff_suffix,
    List.isSuffixOf_iff_suffix]
  constructor
  · rintro ((heq | hba) | hab)
    · exact .inr (.inl heq)
    · exact .inr (.inr hba)
    · exact .inl (.inr hab)
  · rintro ((heq | hab) | heq | hba)
    · exact .inl (.inl heq.symm)
    · exact .inr hab
    · exact .inl (.inl heq)
    · exact .inl (.inr hba)

/-- A longer path ends with a shorter one only where one of its components begins. -/
theorem samePlace_append_iff (front path : List Char) :
    samePlace (front ++ path) path = true ↔ front = [] ∨ front.getLast? = some '/' := by
  have hsame : front ++ path = path ↔ front = [] := List.append_left_eq_self
  have hbehind : '/' :: path <:+ front ++ path ↔ front.getLast? = some '/' := by
    rw [List.getLast?_eq_some_iff]
    constructor
    · rintro ⟨first, hfirst⟩
      rw [← List.singleton_append, ← List.append_assoc] at hfirst
      exact ⟨first, (List.append_cancel_right hfirst).symm⟩
    · rintro ⟨first, rfl⟩
      rw [List.append_assoc]
      exact List.suffix_append ..
  have hlonger : ¬ '/' :: (front ++ path) <:+ path := by
    intro hsuffix
    have := hsuffix.length_le
    rw [List.length_cons, List.length_append] at this
    omega
  rw [samePlace, Bool.or_eq_true, Bool.or_eq_true, beq_iff_eq, List.isSuffixOf_iff_suffix,
    List.isSuffixOf_iff_suffix, hsame, hbehind, or_iff_left hlonger]

/-! ### Sums of importers -/

/-- The importers of all keys that may mean a path. -/
def importersLike (reverse : Adjacency) (path : String) : Nat :=
  (reverse.map fun entry =>
    if EndAlike (plainComponents entry.1) (plainComponents path) then entry.2.length else 0).sum

theorem size_filter (reverse : Adjacency) (keep : String × List String → Bool) :
    Adjacency.size (reverse.filter keep) =
      (reverse.map fun entry => if keep entry then entry.2.length else 0).sum := by
  induction reverse with
  | nil => rfl
  | cons entry more ih =>
    rw [List.map_cons, List.sum_cons, ← ih]
    by_cases hkeep : keep entry = true
    · rw [List.filter_cons_of_pos hkeep, if_pos hkeep]
      rfl
    · rw [List.filter_cons_of_neg hkeep, if_neg hkeep, Nat.zero_add]

theorem countImporters_eq (g : DependencyGraph) (files : List String) :
    countImporters g files = (files.map (importersLike g.reverse)).sum := by
  have hfile : ∀ file, Adjacency.size (g.reverse.filter fun entry =>
      samePlace (plainPath entry.1) (plainPath file)) = importersLike g.reverse file := by
    intro file
    rw [size_filter, importersLike]
    exact congrArg List.sum (List.map_congr_left fun _ _ => if_congr samePlace_iff rfl rfl)
  rw [countImporters, List.map_congr_left fun file _ => hfile file]
  rfl

/-- The importers of files are counted for each file and each key of the graph one of which ends
    with the components of the other, so no match begins inside a component. -/
theorem countImporters_components :
    (∀ path : String,
      (∃ n, swap '\\' '/' path.toList = (List.replicate n ['.', '/']).flatten ++ plainPath path) ∧
        ¬ ['.', '/'] <+: plainPath path) ∧
    (∀ g files, countImporters g files = (files.map fun file =>
      (g.reverse.map fun entry =>
        if EndAlike (plainComponents entry.1) (plainComponents file) then entry.2.length
        else 0).sum).sum) ∧
    ∀ front path, samePlace (front ++ path) path = true ↔
      front = [] ∨ front.getLast? = some '/' :=
  ⟨fun _ => dropHere_spec _, countImporters_eq, samePlace_append_iff⟩

/-! ### More files and more importers -/

theorem importersLike_mono {reverse other : Adjacency} (hreverse : reverse.Functional)
    (h : reverse.GrowsTo other) (path : String) :
    importersLike reverse path ≤ importersLike other path := by
  refine hreverse.sum_le_of_growsTo h
    (fun key n => if EndAlike (plainComponents key) (plainComponents path) then n else 0) ?_
  intro key m n hmn
  dsimp only
  split
  · exact hmn
  · exact Nat.le_refl 0

/-- Of more files, in a graph in which no key has fewer importers, there are no fewer importers. -/
theorem sum_importersLike_mono {reverse other : Adjacency} (hreverse : reverse.Functional)
    (h : reverse.GrowsTo other) {files more : List String} (hfiles : files.Sublist more) :
    (files.map (importersLike reverse)).sum ≤ (more.map (importersLike other)).sum :=
  calc (files.map (importersLike reverse)).sum
    _ ≤ (more.map (importersLike reverse)).sum :=
        (hfiles.map _).sum_le_sum fun _ _ => Nat.zero_le _
    _ ≤ (more.map (importersLike other)).sum :=
        List.sum_le_sum fun path _ => importersLike_mono hreverse h path

end CodeSurvey.Graph
