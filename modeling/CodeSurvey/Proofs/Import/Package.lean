import CodeSurvey.Proofs.Import.FileSet
import Mathlib.Data.List.TakeWhile

/-!
Packages named by a path. A path names every directory that it ends with, and the file it resolves
to is the first one of these directories, tests last. Main statement: this file lies in the longest
of the directories if and only if none of the shorter ones has a file in front of all files there.
-/

namespace CodeSurvey.Import

open Text

variable {specifier dir f g p : List Char} {files : List String}

/-- The path names the directory: it is this directory or ends with it behind a slash. -/
def NamesDirectory (specifier dir : List Char) : Prop :=
  dir ≠ [] ∧ (specifier = dir ∨ '/' :: dir <:+ specifier)

/-- The file is a source of a package that the path names. -/
structure IsOfPackage (files : List String) (specifier f : List Char) : Prop where
  mem : String.ofList f ∈ files
  isSource : ".go".toList <:+ f
  names : NamesDirectory specifier (Path.directory f)

/-- The directory of the file is the longest that the path names. -/
structure IsOfLongest (files : List String) (specifier f : List Char) : Prop where
  isOfPackage : IsOfPackage files specifier f
  longest : ∀ g, IsOfPackage files specifier g →
    (Path.directory g).length ≤ (Path.directory f).length

instance (specifier dir : List Char) : Decidable (NamesDirectory specifier dir) :=
  inferInstanceAs (Decidable (_ ∧ _))

instance (files : List String) (specifier f : List Char) :
    Decidable (IsOfPackage files specifier f) :=
  decidable_of_iff (String.ofList f ∈ files ∧ ".go".toList <:+ f ∧
      NamesDirectory specifier (Path.directory f))
    ⟨fun ⟨hmem, hsource, hnames⟩ => ⟨hmem, hsource, hnames⟩,
      fun h => ⟨h.mem, h.isSource, h.names⟩⟩

instance (files : List String) (specifier f : List Char) :
    Decidable (IsOfLongest files specifier f) :=
  decidable_of_iff (IsOfPackage files specifier f ∧ ∀ file ∈ files,
      IsOfPackage files specifier file.toList →
        (Path.directory file.toList).length ≤ (Path.directory f).length)
    ⟨fun ⟨hf, hall⟩ => ⟨hf, fun g hg => by simpa using hall _ hg.mem (by simpa using hg)⟩,
      fun h => ⟨h.isOfPackage, fun _ _ hfile => h.longest _ hfile⟩⟩

/-! ### The order of files -/

/-- A file before one that is no test is no test either. -/
theorem isGoTest_of_goBefore (h : goBefore f g = true) (hg : isGoTest g = false) :
    isGoTest f = false := by
  unfold goBefore at h
  split at h
  · rename_i heq
    exact (eq_of_beq heq).trans hg
  · exact absurd (hg.symm.trans h) Bool.false_ne_true

/-- What is found first in an ordered list comes before everything else that could be found. -/
theorem before_of_find? {α : Type} {before : α → α → Bool} {q : α → Bool} {l : List α} {a b : α}
    (hl : l.Pairwise fun x y => before x y = true) (ha : l.find? q = some a) (hb : b ∈ l)
    (hq : q b = true) : b = a ∨ before a b = true := by
  obtain ⟨-, front, behind, rfl, hfront⟩ := List.find?_eq_some_iff_append.1 ha
  rcases List.mem_append.1 hb with hb | hb
  · have := hfront b hb
    rw [hq] at this
    exact absurd this Bool.false_ne_true
  · rcases List.mem_cons.1 hb with rfl | hb
    · exact .inl rfl
    · exact .inr ((List.pairwise_cons.1 (List.pairwise_append.1 hl).2.1).1 b hb)

/-! ### What a path resolves to -/

/-- A path with more than slashes has a last component. -/
theorem baseName_dropTrailing_ne_nil (h : ∃ c ∈ specifier, c ≠ '/') :
    Path.baseName (dropTrailing '/' specifier) ≠ [] := by
  obtain ⟨c, hc, hslash⟩ := h
  have hrest : specifier.reverse.dropWhile (· == '/') ≠ [] := fun hnil =>
    hslash (eq_of_beq (List.dropWhile_eq_nil_iff.1 hnil c (List.mem_reverse.2 hc)))
  obtain ⟨d, rest, hd⟩ := List.exists_cons_of_ne_nil hrest
  have hhead := List.head?_dropWhile_not (· == '/') specifier.reverse
  rw [hd] at hhead
  have hname : (d != '/') = true := by simpa using hhead
  rw [Path.baseName, dropTrailing, List.reverse_reverse, hd,
    List.takeWhile_cons_of_pos (p := (· != '/')) hname, List.reverse_cons]
  simp

/-- The sources among the files, in the order in which they are looked at. -/
def goSources (files : List String) : List (List Char) :=
  ((files.map String.toList).filter (".go".toList.isSuffixOf ·)).mergeSort goBefore

theorem mem_goSources : f ∈ goSources files ↔ String.ofList f ∈ files ∧ ".go".toList <:+ f := by
  rw [goSources, List.mem_mergeSort, List.mem_filter, List.mem_map, List.isSuffixOf_iff_suffix]
  refine and_congr_left fun _ => ⟨?_, fun h => ⟨_, h, String.toList_ofList⟩⟩
  rintro ⟨file, hfile, rfl⟩
  rwa [String.ofList_toList]

/-- The test that the scan makes of a directory. -/
theorem namesDirectory_iff :
    (!dir.isEmpty && (specifier == dir || ('/' :: dir).isSuffixOf specifier)) = true ↔
      NamesDirectory specifier dir := by
  rw [NamesDirectory, Bool.and_eq_true, Bool.or_eq_true, beq_iff_eq, List.isSuffixOf_iff_suffix,
    Bool.not_eq_true', List.isEmpty_eq_false_iff]

/-- Of the sources in directories that the path names the first one is taken. -/
theorem exists_resolveGo (hname : ∃ c ∈ specifier, c ≠ '/')
    (hsome : ∃ f, IsOfPackage files specifier f) :
    ∃ p, resolveGo specifier files = some p ∧ IsOfPackage files specifier p ∧
      ∀ f, IsOfPackage files specifier f → goBefore p f = true := by
  have hpackage : ¬ (Path.baseName (dropTrailing '/' specifier)).isEmpty = true := fun hempty =>
    baseName_dropTrailing_ne_nil hname (List.isEmpty_iff.1 hempty)
  let names := fun f : List Char => !(Path.directory f).isEmpty &&
    (specifier == Path.directory f || ('/' :: Path.directory f).isSuffixOf specifier)
  have hnamed : ∀ f, IsOfPackage files specifier f ↔ f ∈ goSources files ∧ names f = true := by
    intro f
    rw [mem_goSources, namesDirectory_iff]
    exact ⟨fun h => ⟨⟨h.mem, h.isSource⟩, h.names⟩, fun h => ⟨h.1.1, h.1.2, h.2⟩⟩
  obtain ⟨f, hf⟩ := hsome
  obtain ⟨p, hp⟩ : ∃ p, (goSources files).find? names = some p :=
    Option.isSome_iff_exists.1 (List.find?_isSome.2 ⟨f, (hnamed f).1 hf⟩)
  have hfound : resolveGo specifier files = some p := by
    simp only [goSources, names] at hp
    simp only [resolveGo, if_neg hpackage, hp]
  refine ⟨p, hfound, (hnamed p).2 ⟨List.mem_of_find?_eq_some hp, List.find?_some hp⟩, ?_⟩
  intro g hg
  obtain ⟨hmem, hnames⟩ := (hnamed g).1 hg
  rcases before_of_find? (pairwise_mergeSort_goBefore _) hp hmem hnames with rfl | hbefore
  · simpa using goBefore_total g g
  · exact hbefore

/-- The path resolves to the first source, tests last, of a directory that it names. This directory
    is the longest if and only if each source of a shorter one comes behind a source of the
    longest. -/
theorem resolveGo_longest_iff (hname : ∃ c ∈ specifier, c ≠ '/')
    (hsome : ∃ f, IsOfPackage files specifier f) :
    ∃ p, resolveGo specifier files = some p ∧ IsOfPackage files specifier p ∧
      (∀ f, IsOfPackage files specifier f → goBefore p f = true) ∧
      ((∃ f, IsOfPackage files specifier f ∧ isGoTest f = false) → isGoTest p = false) ∧
      (IsOfLongest files specifier p ↔
        ∀ f, IsOfPackage files specifier f → ¬ IsOfLongest files specifier f →
          ∃ g, IsOfLongest files specifier g ∧ goBefore f g = false) := by
  obtain ⟨p, hp, hmem, hfirst⟩ := exists_resolveGo hname hsome
  refine ⟨p, hp, hmem, hfirst, ?_, fun hlongest f hf hshort => ⟨p, hlongest, ?_⟩, fun h => ?_⟩
  · rintro ⟨f, hf, htest⟩
    exact isGoTest_of_goBefore (hfirst f hf) htest
  · rw [Bool.eq_false_iff]
    intro hbefore
    rw [goBefore_antisymm hbefore (hfirst f hf)] at hshort
    exact hshort hlongest
  · by_contra hshort
    obtain ⟨g, hg, hbehind⟩ := h p hmem hshort
    rw [hfirst g hg.isOfPackage] at hbehind
    exact Bool.false_ne_true hbehind.symm

/-- The shorter directory has only a test, which comes behind. -/
theorem resolveGo_longest_iff_test :
    let specifier := "example.com/m/a".toList
    let files := ["a/x_test.go", "m/a/y_test.go", "m/a/y.go", "b/a.go"]
    (∃ c ∈ specifier, c ≠ '/') ∧ (∃ f, IsOfPackage files specifier f) ∧
      ∃ p, resolveGo specifier files = some p ∧ IsOfLongest files specifier p ∧
        isGoTest p = false := by
  intro specifier files
  have hname : ∃ c ∈ specifier, c ≠ '/' := ⟨'e', by decide, by decide⟩
  have hsome : ∃ f, IsOfPackage files specifier f := ⟨"m/a/y.go".toList, by decide +kernel⟩
  have hbehind : ∀ file ∈ files, IsOfPackage files specifier file.toList →
      ¬ IsOfLongest files specifier file.toList →
        IsOfLongest files specifier "m/a/y.go".toList ∧
          goBefore file.toList "m/a/y.go".toList = false := by decide +kernel
  obtain ⟨p, hp, -, -, htest, hlongest⟩ := resolveGo_longest_iff hname hsome
  refine ⟨hname, hsome, p, hp, hlongest.2 fun f hf hshort => ?_, htest ?_⟩
  · have h := hbehind (String.ofList f) hf.mem
    rw [String.toList_ofList] at h
    exact ⟨_, h hf hshort⟩
  · exact ⟨"m/a/y.go".toList, by decide +kernel⟩

/-- A source of a shorter directory comes first. The directory of a file at the root has no name,
    and slashes alone name no package. -/
theorem resolveGo_not_longest :
    let specifier := "example.com/m/a".toList
    let files := ["a/x.go", "m/a/y.go"]
    IsOfPackage files specifier "m/a/y.go".toList ∧
      (¬ ∃ p, resolveGo specifier files = some p ∧ IsOfLongest files specifier p) ∧
      (Path.directory "x.go".toList = [] ∧ resolveGo [] ["x.go"] = none) ∧
      Path.directory "/x.go".toList = ['/'] ∧ resolveGo ['/'] ["/x.go"] = none := by
  intro specifier files
  have hname : ∃ c ∈ specifier, c ≠ '/' := ⟨'e', by decide, by decide⟩
  have hfront : IsOfPackage files specifier "a/x.go".toList := by decide +kernel
  have hbehind : ∀ file ∈ files, IsOfLongest files specifier file.toList →
      goBefore file.toList "a/x.go".toList = false := by decide +kernel
  refine ⟨by decide +kernel, ?_, ⟨by decide, rfl⟩, by decide, rfl⟩
  rintro ⟨p, hp, hlongest⟩
  obtain ⟨q, hq, -, hfirst⟩ := exists_resolveGo hname ⟨_, hfront⟩
  obtain rfl := Option.some.inj (hp.symm.trans hq)
  have hlate := hbehind (String.ofList p) hlongest.isOfPackage.mem
  rw [String.toList_ofList, hfirst _ hfront] at hlate
  exact Bool.false_ne_true (hlate hlongest).symm

end CodeSurvey.Import
