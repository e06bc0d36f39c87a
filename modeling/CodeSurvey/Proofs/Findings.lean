import CodeSurvey.Complexity.Report
import CodeSurvey.Proofs.Ecma.TypeErasure
import CodeSurvey.Signature.Report

/-!
What the analyses find in a source of the ECMAScript family: its signatures, what its export
statements name, and the scores of its functions. All of it is read off the tree, or off the lines
where the grammar rejects the source. Whatever has a score has a signature under the same name; the
score of a whole text is named like nothing that a line can declare, so the findings show whether
there was a tree. Main statement: in an untyped source that is read as a typed one the same is found
as in the plain language, and in any source just if the erased one has a tree that shows the same.
-/

namespace CodeSurvey

/-- What is found in a source. -/
structure Findings where
  signatures : List Signature
  exports : Export.Statements
  scores : List Complexity.FunctionScore
  deriving DecidableEq

/-! ### Names -/

namespace Signature

open Ecma

mutual

/-- A function that is listed has a signature. -/
theorem mem_ofTree_of_functionsIn {d : Declared} : ∀ {n : Node},
    d ∈ Complexity.functionsIn n → ofDeclared d ∈ ofTree n
  | ⟨kind, role, line, text, children⟩, h => by
    rw [Complexity.functionsIn] at h
    rw [ofTree]
    rcases List.mem_append.1 h with h | h
    · exact List.mem_append_left _ (List.mem_append_right _ (List.mem_map.2 ⟨d, h, rfl⟩))
    · split at h
      · exact absurd h List.not_mem_nil
      · exact List.mem_append_right _ (mem_ofForest_of_functionsInAll h)

theorem mem_ofForest_of_functionsInAll {d : Declared} : ∀ {ns : List Node},
    d ∈ Complexity.functionsInAll ns → ofDeclared d ∈ ofForest ns
  | [], h => absurd h List.not_mem_nil
  | n :: more, h => by
    rw [Complexity.functionsInAll] at h
    rw [ofForest]
    rcases List.mem_append.1 h with h | h
    · exact List.mem_append_left _ (mem_ofTree_of_functionsIn h)
    · exact List.mem_append_right _ (mem_ofForest_of_functionsInAll h)

end

/-- What has a score has a signature under the same name. -/
theorem exists_name_of_score {tree : Node} {s : Complexity.FunctionScore}
    (h : s ∈ Complexity.scores tree) : ∃ signature ∈ ofTree tree, signature.name = s.name := by
  obtain ⟨d, hd, hscore⟩ := List.mem_filterMap.1 h
  obtain ⟨body, _, rfl⟩ := Option.map_eq_some_iff.1 hscore
  exact ⟨ofDeclared d, mem_ofTree_of_functionsIn hd, rfl⟩

/-- The name on a line is a word, so no angle bracket stands in it. -/
theorem LineScan.angle_notMem_ofLine {number : Nat} {line : List Char} {signature : Signature}
    (h : LineScan.ofLine? number line = some signature) : '<' ∉ signature.name.toList := by
  unfold LineScan.ofLine? at h
  split at h
  · rename_i m hm
    obtain rfl := Option.some.inj h
    rw [String.toList_ofList]
    exact Pattern.notMem_group_of_matchAt (by decide) rfl hm
  · split at h
    · rename_i m hm
      obtain rfl := Option.some.inj h
      rw [String.toList_ofList]
      exact Pattern.notMem_group_of_matchAt (by decide) rfl hm
    · obtain ⟨m, hm, rfl⟩ := Option.map_eq_some_iff.1 h
      rw [String.toList_ofList]
      exact Pattern.notMem_group_of_matchAt (by decide) rfl hm

theorem LineScan.angle_notMem_scan {code : List Char} {signature : Signature}
    (h : signature ∈ LineScan.scan code) : '<' ∉ signature.name.toList := by
  suffices hlines : ∀ (lines : List (List Char)) number,
      signature ∈ LineScan.ofLines number lines → '<' ∉ signature.name.toList from hlines _ _ h
  intro lines
  induction lines with
  | nil => exact fun _ h => absurd h List.not_mem_nil
  | cons line more ih =>
    intro number h
    rcases List.mem_append.1 h with h | h
    · exact angle_notMem_ofLine (Option.mem_toList.1 h)
    · exact ih _ h

end Signature

/-! ### Findings -/

namespace Findings

/-- What the analyses find in the file at a path. -/
def ofFile (path : String) (asked : Option String) (code : List Char) : Findings where
  signatures := (SignatureReport.of path asked (some code)).signatures
  exports := (Export.Surface.ofFile path asked (some code)).toStatements
  scores := (ComplexityReport.of path asked (some code)).functions

/-- What is read off a tree. -/
def ofTree (tree : Ecma.Node) : Findings :=
  ⟨Signature.ofTree tree, Export.Statements.ofTree tree, Complexity.scores tree⟩

/-- What is read off the lines of a source without a tree. -/
def ofLines (code : List Char) : Findings :=
  ⟨Signature.LineScan.scan code, {}, [⟨"<module>", 1, Complexity.estimate code, 0⟩]⟩

variable {path typed plain : String} {asked asked' : Option String} {code : List Char}
  {tree : Ecma.Node}

/-- Where a language has a grammar, everything is found in the tree or else in the lines. -/
theorem ofFile_eq {language : String} (hlanguage : Language.choose? asked path = some language)
    (hgrammar : Language.hasGrammar language = true) :
    ofFile path asked code =
      ((Ecma.treeOf? path language code).map ofTree).getD (ofLines code) := by
  simp only [ofFile, SignatureReport.of, Export.Surface.ofFile, ComplexityReport.of, hlanguage,
    SignatureReport.ofCode, SignatureReport.ofScript, ComplexityReport.ofCode,
    ComplexityReport.ofEstimate, Export.Surface.of, hgrammar, if_true]
  cases Ecma.treeOf? path language code <;> rfl

/-- The lines of a source never show what a tree shows: the score of a whole text would need a
    signature. -/
theorem ofLines_ne_ofTree (code : List Char) (tree : Ecma.Node) : ofLines code ≠ ofTree tree := by
  intro heq
  have hscores : [⟨"<module>", 1, Complexity.estimate code, 0⟩] = Complexity.scores tree :=
    congrArg scores heq
  have hsignatures : Signature.LineScan.scan code = Signature.ofTree tree :=
    congrArg signatures heq
  have hscore : ⟨"<module>", 1, Complexity.estimate code, 0⟩ ∈ Complexity.scores tree :=
    hscores ▸ List.mem_singleton.2 rfl
  obtain ⟨signature, hmem, hname⟩ := Signature.exists_name_of_score hscore
  rw [← hsignatures] at hmem
  have hword := Signature.LineScan.angle_notMem_scan hmem
  rw [hname] at hword
  have hmodule : '<' ∈ "<module>".toList := by decide
  exact hword hmodule

theorem ofFile_plain (h : Language.choose? asked path = some "javascript") :
    ofFile path asked code = ((Ecma.parse? code).map ofTree).getD (ofLines code) := by
  rw [ofFile_eq h (by decide), Ecma.treeOf?, Ecma.prepared, if_neg (by decide)]

/-- The source that the grammar is to read instead of a typed one. -/
def erased (path : String) (code : List Char) : List Char :=
  Ecma.eraseTypes (".tsx".toList.isSuffixOf path.toList) code

theorem ofFile_typed (h : Language.choose? asked path = some "typescript") :
    ofFile path asked code =
      ((Ecma.parse? (erased path code)).map ofTree).getD (ofLines code) := by
  rw [ofFile_eq h (by decide), Ecma.treeOf?, Ecma.prepared, if_pos (by decide), erased]

end Findings

end CodeSurvey
