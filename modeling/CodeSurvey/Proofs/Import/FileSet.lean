import CodeSurvey.Import.Resolve
import Mathlib.Data.Bool.Basic

/-!
Resolving a specifier depends on which files there are and not on their order. Most resolvers only
ask whether a candidate is one of the files; the one that searches the files puts them in an order
of its own first, in which no two different files stand level. Main statement: the imports of a
file are the same for two lists of the same files.
-/

namespace CodeSurvey.Import

variable {files others : List String} {a b c : List Char}

/-! ### Asking for candidates -/

theorem firstExisting_perm (h : files.Perm others) (candidates : List (List Char)) :
    firstExisting files candidates = firstExisting others candidates := by
  have hcontains : ∀ f, files.contains f = others.contains f := by
    intro f
    rw [Bool.eq_iff_iff, List.contains_iff_mem, List.contains_iff_mem, h.mem_iff]
  simp only [firstExisting, hcontains]

theorem resolveRust_perm (h : files.Perm others) (specifier fromFile : List Char) :
    resolveRust specifier fromFile files = resolveRust specifier fromFile others := by
  have hmodule : rustModuleFile? files = rustModuleFile? others := by
    funext base segments
    simp only [rustModuleFile?, firstExisting_perm h]
  simp only [resolveRust, hmodule, firstExisting_perm h]

/-! ### Searching the files -/

theorem goBefore_iff : goBefore a b = true ↔
    isGoTest a < isGoTest b ∨
      (isGoTest a = isGoTest b ∧ String.ofList a ≤ String.ofList b) := by
  unfold goBefore
  cases isGoTest a <;> cases isGoTest b <;> simp [Bool.lt_iff]

theorem goBefore_total (a b : List Char) : (goBefore a b || goBefore b a) = true := by
  rw [Bool.or_eq_true_iff, goBefore_iff, goBefore_iff]
  rcases lt_trichotomy (isGoTest a) (isGoTest b) with h | h | h
  · exact .inl (.inl h)
  · rcases String.le_total (.ofList a) (.ofList b) with hle | hle
    · exact .inl (.inr ⟨h, hle⟩)
    · exact .inr (.inr ⟨h.symm, hle⟩)
  · exact .inr (.inl h)

theorem goBefore_trans (hab : goBefore a b = true) (hbc : goBefore b c = true) :
    goBefore a c = true := by
  rw [goBefore_iff] at hab hbc ⊢
  rcases hab with hab | ⟨hab, hle⟩
  · rcases hbc with hbc | ⟨hbc, -⟩
    · exact .inl (Bool.lt_trans hab hbc)
    · exact .inl (hbc ▸ hab)
  · rcases hbc with hbc | ⟨hbc, hle'⟩
    · exact .inl (hab ▸ hbc)
    · exact .inr ⟨hab.trans hbc, String.le_trans hle hle'⟩

/-- Files that stand level are the same file. -/
theorem goBefore_antisymm (hab : goBefore a b = true) (hba : goBefore b a = true) : a = b := by
  rw [goBefore_iff] at hab hba
  rcases hab with hab | ⟨hab, hle⟩
  · rcases hba with hba | ⟨hba, -⟩
    · exact absurd hab (Bool.lt_asymm hba)
    · exact absurd hab (hba ▸ Bool.lt_irrefl _)
  · rcases hba with hba | ⟨-, hle'⟩
    · exact absurd hba (hab ▸ Bool.lt_irrefl _)
    · exact String.ofList_injective (String.le_antisymm hle hle')

theorem pairwise_mergeSort_goBefore : ∀ sources : List (List Char),
    (sources.mergeSort goBefore).Pairwise (goBefore · · = true) :=
  List.pairwise_mergeSort (fun _ _ _ => goBefore_trans) goBefore_total

/-- The files are searched in the same order, whatever order they are listed in. -/
theorem mergeSort_goBefore_perm {sources others : List (List Char)} (h : sources.Perm others) :
    sources.mergeSort goBefore = others.mergeSort goBefore := by
  refine List.Perm.eq_of_pairwise (fun a b _ _ => goBefore_antisymm)
    (pairwise_mergeSort_goBefore _) (pairwise_mergeSort_goBefore _) ?_
  exact (List.mergeSort_perm ..).trans (h.trans (List.mergeSort_perm ..).symm)

theorem resolveGo_perm (h : files.Perm others) (specifier : List Char) :
    resolveGo specifier files = resolveGo specifier others := by
  have hsources := mergeSort_goBefore_perm
    ((h.map String.toList).filter (".go".toList.isSuffixOf ·))
  simp only [resolveGo, hsources]

/-! ### The imports of a file -/

theorem resolve?_perm (h : files.Perm others) (language : String)
    (specifier fromFile : List Char) :
    resolve? language specifier fromFile files = resolve? language specifier fromFile others := by
  simp only [resolve?, resolveScript, resolvePython, resolveElixir, firstExisting_perm h,
    resolveGo_perm h, resolveRust_perm h]

/-- The imports of a file do not depend on the order in which the files are listed. -/
theorem edges_perm (h : files.Perm others) (path : String) (content : List Char)
    (language : Option String) :
    edges path content language files = edges path content language others := by
  simp only [edges, resolve?_perm h]

end CodeSurvey.Import
