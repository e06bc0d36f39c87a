import CodeSurvey.Import.Resolve
import CodeSurvey.Proofs.Path

/-!
Specifiers that spell a way from one file to another: up to a directory that both are in, and down
from there. Main statement: such a specifier resolves to the file that it leads to, whichever of the
common directories it goes through and whatever other files there are.
-/

namespace CodeSurvey.Import

open CodeSurvey.Path Text

variable {common up down : List (List Char)} {fromName toName : List Char} {files : List String}

/-- The components that go up so many directories; a single dot goes nowhere. -/
def climb (levels : Nat) : List (List Char) :=
  if levels = 0 then [['.']] else List.replicate levels ['.', '.']

/-- The specifier that goes up so many directories and from there down to a file. -/
def relativeSpecifier (levels : Nat) (below : List (List Char)) : List Char :=
  join ['/'] (climb levels ++ below)

example : relativeSpecifier 2 ["lib".toList, "a.js".toList] = "../../lib/a.js".toList := by decide

example : relativeSpecifier 0 ["a.js".toList] = "./a.js".toList := by decide

/-- The components are not empty, and no slash of either kind is in them. -/
theorem plain_of_mem_climb {levels : Nat} :
    ∀ c ∈ climb levels, IsComponent c ∧ '\\' ∉ c := by
  intro c hc
  unfold climb at hc
  split at hc
  · rw [List.mem_singleton.1 hc]
    decide
  · rw [List.eq_of_mem_replicate hc]
    decide

theorem head?_relativeSpecifier (levels : Nat) (below : List (List Char)) :
    (relativeSpecifier levels below).head? = some '.' := by
  have hclimb : ∃ dots more, climb levels = ('.' :: dots) :: more := by
    cases levels with
    | zero => exact ⟨[], [], rfl⟩
    | succ n => exact ⟨['.'], List.replicate n ['.', '.'], rfl⟩
  obtain ⟨dots, more, hclimb⟩ := hclimb
  rw [relativeSpecifier, hclimb, List.cons_append, ← List.singleton_append (l := dots),
    join_append_left]
  rfl

/-- Going up takes back the names of the directories below the common one. -/
theorem foldl_normaliseStep_climb (h : ∀ c ∈ up, IsEntryName c) (kept : List (List Char)) :
    (climb up.length).foldl (normaliseStep false) (up.reverse ++ kept) = kept := by
  by_cases hup : up = []
  · subst hup
    rfl
  · have hlevels : up.length ≠ 0 := fun hzero => hup (List.length_eq_zero_iff.1 hzero)
    rw [climb, if_neg hlevels, ← List.length_reverse]
    exact foldl_normaliseStep_dots false kept fun c hc => h c (List.mem_reverse.1 hc)

theorem firstExisting_of_mem {file : List Char} (h : String.ofList file ∈ files)
    (others : List (List Char)) : firstExisting files (file :: others) = some file := by
  rw [firstExisting, List.find?_cons_of_pos]
  exact List.contains_iff_mem.2 h

/-- So are the components of a way down, up and down again. -/
theorem plain_of_mem_way {dirs below : List (List Char)} (hdirs : ∀ c ∈ dirs, IsEntryName c)
    (hbelow : ∀ c ∈ below, IsEntryName c) (levels : Nat) :
    ∀ c ∈ dirs ++ (climb levels ++ below), IsComponent c ∧ '\\' ∉ c := by
  have hplain : ∀ c, IsEntryName c → IsComponent c ∧ '\\' ∉ c :=
    fun c hc => ⟨hc.isComponent, hc.no_backslash⟩
  exact List.forall_mem_append.2 ⟨fun c hc => hplain c (hdirs c hc), List.forall_mem_append.2
    ⟨plain_of_mem_climb, fun c hc => hplain c (hbelow c hc)⟩⟩

/-- Put below the directory of the file that it stands in, the specifier comes to the components of
    the file that it leads to. -/
theorem normalised_relativeSpecifier (hfrom : ∀ c ∈ common ++ up ++ [fromName], IsEntryName c)
    (hto : ∀ c ∈ common ++ (down ++ [toName]), IsEntryName c) :
    normalised (append (directory (join ['/'] (common ++ up ++ [fromName])))
      (relativeSpecifier up.length (down ++ [toName]))) =
        join ['/'] (common ++ (down ++ [toName])) := by
  obtain ⟨hdirs, hfromName⟩ := List.forall_mem_append.1 hfrom
  have hup := (List.forall_mem_append.1 hdirs).2
  have hbelow := (List.forall_mem_append.1 hto).2
  have hplain := plain_of_mem_way hdirs hbelow up.length
  -- the way as it is written, before anything is taken back
  have hway : append (directory (join ['/'] (common ++ up ++ [fromName])))
      (relativeSpecifier up.length (down ++ [toName])) =
        join ['/'] (common ++ up ++ (climb up.length ++ (down ++ [toName]))) := by
    have hname := hfromName fromName (List.mem_singleton_self _)
    have hdirs' := fun c hc => (hdirs c hc).isComponent
    rw [directory_join hdirs' hname.isComponent]
    exact append_join hdirs' (by simp) fun c hc => (hplain c (List.mem_append_right _ hc)).1
  have hkept : (common ++ up ++ (climb up.length ++ (down ++ [toName]))).foldl
      (normaliseStep false) [] = (common ++ (down ++ [toName])).reverse := by
    rw [List.foldl_append, foldl_normaliseStep_names false [] hdirs, List.append_nil,
      List.reverse_append, List.foldl_append, foldl_normaliseStep_climb hup,
      foldl_normaliseStep_names false _ hbelow, ← List.reverse_append]
  rw [hway, normalised, swap_join fun c hc => (hplain c hc).2]
  exact normalise_join (by simp) (fun c hc => (hplain c hc).1) (by simp) hkept
    fun c hc => (hto c hc).isComponent

/-- A specifier that spells a way to a file, through any directory that both files are in, resolves
    to that file. -/
theorem resolveScript_relativeSpecifier {fromFile toFile : List Char}
    (hfrom : Path.components fromFile = common ++ up ++ [fromName])
    (hto : Path.components toFile = common ++ (down ++ [toName]))
    (hfromNames : ∀ c ∈ Path.components fromFile, IsEntryName c)
    (htoNames : ∀ c ∈ Path.components toFile, IsEntryName c)
    (hfile : String.ofList toFile ∈ files) :
    resolveScript (relativeSpecifier up.length (down ++ [toName])) fromFile files =
      some toFile := by
  have hfromText : fromFile = join ['/'] (common ++ up ++ [fromName]) := by
    rw [← hfrom]
    exact (join_pieces '/' fromFile).symm
  have htoText : toFile = join ['/'] (common ++ (down ++ [toName])) := by
    rw [← hto]
    exact (join_pieces '/' toFile).symm
  rw [hfrom] at hfromNames
  rw [hto] at htoNames
  have hway := normalised_relativeSpecifier hfromNames htoNames
  rw [← hfromText, ← htoText] at hway
  rw [resolveScript, head?_relativeSpecifier, if_pos (beq_self_eq_true _), hway]
  exact firstExisting_of_mem hfile _

/-- Two files in sibling directories, the way through the project itself; files with longer names
    do not come in between. -/
theorem resolveScript_relativeSpecifier_siblings :
    resolveScript "../../src/web/math.js".toList "src/lib/a.js".toList
      ["src/web/math.js.js", "src/web/math.js/index.js", "src/web/math.js"] =
        some "src/web/math.js".toList := by
  have hfrom : Path.components "src/lib/a.js".toList =
      [] ++ ["src".toList, "lib".toList] ++ ["a.js".toList] := by decide
  have hto : Path.components "src/web/math.js".toList =
      [] ++ (["src".toList, "web".toList] ++ ["math.js".toList]) := by decide
  have hfile : String.ofList "src/web/math.js".toList ∈
      ["src/web/math.js.js", "src/web/math.js/index.js", "src/web/math.js"] := by decide
  have hspecifier : relativeSpecifier 2 (["src".toList, "web".toList] ++ ["math.js".toList]) =
      "../../src/web/math.js".toList := by decide
  rw [← hspecifier]
  exact resolveScript_relativeSpecifier hfrom hto (by decide) (by decide) hfile

end CodeSurvey.Import
