import CodeSurvey.Proofs.RepoMap.Greedy

/-!
Repository maps of the same files within two budgets. Main statement: the larger budget shows at
least as many files exactly when the files shown within the smaller one also fit into the larger one.
They need not: more room lets a section list more signatures.
-/

namespace CodeSurvey.RepoMap

variable {b b' : Int} {files : List FileDigest}

/-! ### The same sections within two budgets -/

/-- A file with few signatures has one section, whatever the limit. -/
theorem fileSection_of_few {d : FileDigest} (h : d.signatures.length ≤ 10) {limit : Int}
    (hlimit : 10 ≤ limit) : fileSection d limit = fileSection d 10 := by
  have hall : ∀ n : Int, 10 ≤ n → Graph.firstItems n d.signatures = d.signatures := by
    intro n hn
    rw [Graph.firstItems, if_neg (by omega), List.take_of_length_le (by omega)]
  have hrest : ∀ n : Int, 10 ≤ n → ¬ 0 < (d.signatures.length : Int) - n := by
    intro n hn
    omega
  simp only [fileSection, hall limit hlimit, hall 10 le_rfl, if_neg (hrest limit hlimit),
    if_neg (hrest 10 le_rfl)]

theorem ten_le_nextLimit (budget : Int) (sections : List (List Char)) :
    10 ≤ nextLimit budget sections := by
  rw [nextLimit]
  split <;> decide

theorem rendered_eq_of_few (b b' : Int) {digests : List FileDigest}
    (h : ∀ d ∈ digests, d.signatures.length ≤ 10) : rendered b digests = rendered b' digests := by
  induction digests using List.reverseRecOn with
  | nil => rfl
  | append_singleton digests d ih =>
    have hd : d.signatures.length ≤ 10 := h d (List.mem_append_right _ (List.mem_singleton_self d))
    rw [rendered_concat, rendered_concat, ih fun e he => h e (List.mem_append_left _ he),
      fileSection_of_few hd (ten_le_nextLimit b _), fileSection_of_few hd (ten_le_nextLimit b' _)]

/-- Up to 418 tokens there is never room for more than 10 signatures. -/
theorem nextLimit_of_le (h : b ≤ 418) (sections : List (List Char)) :
    nextLimit b sections = 10 := by
  have hheader : 11 ≤ (joined sections).length := (header_prefix_joined sections).length_le
  have hlimit : limit b ≤ 4.8 * 418 := by
    rw [limit]
    have hcast : (b : ℚ) ≤ 418 := by exact_mod_cast h
    linarith
  have hsize : (11 : ℚ) ≤ (joined sections).length := by exact_mod_cast hheader
  rw [nextLimit, if_pos (by norm_num at hlimit ⊢; linarith)]

theorem rendered_eq_of_le (h : b ≤ 418) (h' : b' ≤ 418) (digests : List FileDigest) :
    rendered b digests = rendered b' digests := by
  simp only [rendered, nextLimit_of_le h, nextLimit_of_le h']

/-! ### Two maps of the same files -/

/-- A map shows no fewer files than another one exactly if it has room for them. -/
theorem files_le_iff (b b' : Int) (files : List FileDigest) :
    (ofDigests b files).files ≤ (ofDigests b' files).files ↔
      (ofDigests b files).files ≤ 1 ∨
        fits b' (sizeOf b' ((ranked files).take (ofDigests b files).files)) = true := by
  constructor
  · intro hle
    refine or_iff_not_imp_left.2 fun htwo => ?_
    exact fits_anti (sizeOf_take_le b' _ hle) (fits_files (by omega))
  · intro h
    have hlength := files_le_length b files
    by_contra hlt
    rcases h with hfew | hfits
    · -- One file is always shown.
      have hfiles : ranked files ≠ [] := List.ne_nil_of_length_pos (by omega)
      have hone := (greedy_ofDigests b' files).one_le hfiles
      omega
    · have hnext := fits_anti (sizeOf_take_le b' (ranked files) (Nat.lt_of_not_le hlt)) hfits
      rw [not_fits_next (by omega)] at hnext
      exact Bool.false_ne_true hnext

/-- With the same sections a larger budget shows no fewer files. -/
theorem files_le_of_rendered_eq (h : b ≤ b')
    (hsame : rendered b ((ranked files).take (ofDigests b files).files) =
      rendered b' ((ranked files).take (ofDigests b files).files)) :
    (ofDigests b files).files ≤ (ofDigests b' files).files := by
  refine (files_le_iff b b' files).2 (or_iff_not_imp_left.2 fun htwo => ?_)
  have hfits : fits b (sizeOf b ((ranked files).take (ofDigests b files).files)) = true :=
    fits_files (by omega)
  rw [sizeOf, hsame, ← sizeOf] at hfits
  exact fits_mono h hfits

/-- The files that a map shows. -/
def shownFiles (budget : Int) (root : String) (read : String → Option (List Char))
    (paths : List String) : List FileDigest :=
  (ranked (digestsOf root read paths)).take (ofFiles budget root read paths).files

/-- The larger of two budgets shows no fewer files exactly if it has room for those of the smaller
    one. It has if their sections are the same within both, so if no file has more than 10 signatures
    or the budgets are small. -/
theorem files_mono_iff (h : b ≤ b') (hb : InRange b) (hb' : InRange b') (root : String)
    (read : String → Option (List Char)) (paths : List String) :
    checkBudget b = .ok () ∧ checkBudget b' = .ok () ∧
      ((ofFiles b root read paths).files ≤ (ofFiles b' root read paths).files ↔
        (ofFiles b root read paths).files ≤ 1 ∨
          ((joined (rendered b' (shownFiles b root read paths))).length : ℚ) ≤ limit b') ∧
      (rendered b (shownFiles b root read paths) = rendered b' (shownFiles b root read paths) →
        (ofFiles b root read paths).files ≤ (ofFiles b' root read paths).files) ∧
      ((∀ d ∈ shownFiles b root read paths, d.signatures.length ≤ 10) →
        (ofFiles b root read paths).files ≤ (ofFiles b' root read paths).files) ∧
      (b' ≤ 418 → (ofFiles b root read paths).files ≤ (ofFiles b' root read paths).files) := by
  simp only [shownFiles, ofFiles_eq]
  refine ⟨(checkBudget_eq_ok_iff b).2 hb, (checkBudget_eq_ok_iff b').2 hb', ?_,
    files_le_of_rendered_eq h, fun hfew => files_le_of_rendered_eq h (rendered_eq_of_few b b' hfew),
    fun hsmall => files_le_of_rendered_eq h (rendered_eq_of_le (h.trans hsmall) hsmall _)⟩
  rw [files_le_iff, fits_iff, sizeOf]

/-- With ten times the budget, the map of two small scripts shows no fewer of them. -/
theorem files_mono_iff_two_scripts : (15 : Int) ≤ 150 ∧ InRange 15 ∧ InRange 150 ∧
    checkBudget 15 = .ok () ∧ checkBudget 150 = .ok () ∧
    (∀ d ∈ shownFiles 15 "." twoScripts ["a.js", "b.js"], d.signatures.length ≤ 10) ∧
    (ofFiles 15 "." twoScripts ["a.js", "b.js"]).files ≤
      (ofFiles 150 "." twoScripts ["a.js", "b.js"]).files := by
  have hlow : InRange 15 := inRange_of_abs_lt (by decide)
  have hhigh : InRange 150 := inRange_of_abs_lt (by decide)
  have hall : ∀ d ∈ digestsOf "." twoScripts ["a.js", "b.js"], d.signatures.length ≤ 10 := by
    rw [digestsOf_twoScripts]
    decide
  have hfew : ∀ d ∈ shownFiles 15 "." twoScripts ["a.js", "b.js"], d.signatures.length ≤ 10 :=
    fun d hd => hall d ((ranked_perm _).mem_iff.1 (List.mem_of_mem_take hd))
  obtain ⟨hok, hok', -, -, hmono, -⟩ :=
    files_mono_iff (by decide) hlow hhigh "." twoScripts ["a.js", "b.js"]
  exact ⟨by decide, hlow, hhigh, hok, hok', hfew, hmono hfew⟩

/-! ### More room can show fewer files -/

/-- One separator fewer than there are pieces. -/
theorem length_join (sep : Char) (ps : List (List Char)) :
    (Text.join [sep] ps).length = (ps.map (·.length + 1)).sum - 1 := by
  induction ps with
  | nil => rfl
  | cons p more ih =>
    cases more with
    | nil => rfl
    | cons q more =>
      simp only [Text.join, List.length_append, List.length_cons, List.length_nil, ih,
        List.map_cons, List.sum_cons]
      omega

theorem length_signatureLine (s : Signature) : (signatureLine s).length =
    (kindMark s.kind).length + (if s.async then 6 else 0) + s.name.length +
      (cutList 40 s.params).length + (toString s.line).length + 5 := by
  have hspace : " ".length = 1 := by decide
  have hopen : "(".length = 1 := by decide
  have hclose : ") :".length = 3 := by decide
  have hmark : (if s.async then "async " else "").length = if s.async then 6 else 0 := by
    split <;> decide
  simp only [signatureLine, String.length_append, toString, hspace, hopen, hclose, hmark]
  omega

/-- The size of the section of a file that exports nothing. -/
theorem length_fileSection {d : FileDigest} (h : d.exports = []) (limit : Int) :
    (fileSection d limit).length = d.path.length + 4 +
      ((Graph.firstItems limit d.signatures).map fun s => (signatureLine s).length + 1).sum +
      if 0 < (d.signatures.length : Int) - limit then
        (toString ((d.signatures.length : Int) - limit)).length + 13 else 0 := by
  have hpath : "## ".length = 3 := by decide
  have hdots : "  ... +".length = 7 := by decide
  have hmore : " more".length = 5 := by decide
  have hnone : "".length = 0 := by decide
  have hempty : d.exports.isEmpty = true := by rw [h]; rfl
  rw [fileSection, length_join]
  generalize (d.signatures.length : Int) - limit = rest
  generalize Graph.firstItems limit d.signatures = listed
  by_cases hrest : 0 < rest <;>
    simp only [hempty, hrest, if_true, if_false, List.map_append, List.map_map, List.sum_append,
      Function.comp_def, String.length_toList, List.map_cons, List.map_nil, List.sum_cons,
      List.sum_nil, String.length_append, hpath, hdots, hmore, hnone, toString] <;>
    omega

/-- A class with a long name and ten methods, and a small script. -/
def longNames : String → Option (List Char)
  | "a.js" => some ("class ".toList ++ List.replicate 170 'A' ++ " \x7b ".toList ++
      (List.replicate 10 "m() \x7b\x7d ".toList).flatten ++ "\x7d".toList)
  | "b.js" => some "function f() \x7b\x7d".toList
  | _ => none

def longName : String := String.ofList (List.replicate 170 'A')

theorem length_longName : longName.length = 170 := String.length_ofList.trans List.length_replicate

def longClass : FileDigest :=
  ⟨"a.js", ⟨longName, .classDef, [], 1, false, false⟩ ::
    List.replicate 10 ⟨longName ++ ".m", .method, [], 1, false, false⟩, []⟩

def smallScript : FileDigest := ⟨"b.js", [⟨"f", .function, [], 1, false, false⟩], []⟩

theorem digestsOf_longNames :
    digestsOf "." longNames ["a.js", "b.js"] = [longClass, smallScript] := by
  decide +kernel

theorem ranked_longNames : ranked [longClass, smallScript] = [longClass, smallScript] :=
  List.mergeSort_of_pairwise (by simp [longClass, smallScript])

/-- The length of a line for something of a long or short name, without parameters, on line 1. -/
theorem length_plainLine (name : String) (kind : Signature.Kind) :
    (signatureLine ⟨name, kind, [], 1, false, false⟩).length =
      (kindMark kind).length + name.length + 6 := by
  have hparams : (cutList 40 []).length = 0 := by decide
  have hline : (toString 1).length = 1 := by decide
  simp only [length_signatureLine, hparams, hline, Bool.false_eq_true, if_false]
  omega

theorem length_line_class :
    (signatureLine ⟨longName, .classDef, [], 1, false, false⟩).length = 183 := by
  have hmark : (kindMark .classDef).length = 7 := by decide
  rw [length_plainLine, hmark, length_longName]

theorem length_line_method :
    (signatureLine ⟨longName ++ ".m", .method, [], 1, false, false⟩).length = 188 := by
  have hmark : (kindMark .method).length = 10 := by decide
  have hname : ".m".length = 2 := by decide
  rw [length_plainLine, hmark, String.length_append, length_longName, hname]

/-- The section of the class with room for the class itself and `n` more signatures. -/
theorem length_longClass (n : Nat) : (fileSection longClass (n + 1)).length =
    192 + 189 * min n 10 + if n < 10 then (toString (10 - n : Int)).length + 13 else 0 := by
  have hlisted : Graph.firstItems (n + 1) longClass.signatures =
      ⟨longName, .classDef, [], 1, false, false⟩ ::
        List.replicate (min n 10) ⟨longName ++ ".m", .method, [], 1, false, false⟩ := by
    rw [Graph.firstItems, if_neg (by omega), longClass, Int.toNat_natCast_add_one,
      List.take_succ_cons, List.take_replicate]
  have hpath : longClass.path.length = 4 := by decide
  have hcount : (longClass.signatures.length : Int) - (n + 1) = 10 - n := by
    have hall : longClass.signatures.length = 11 := rfl
    omega
  have hrest : 0 < (10 - n : Int) ↔ n < 10 := by omega
  rw [length_fileSection rfl, hlisted, hcount]
  simp only [List.map_cons, List.map_replicate, List.sum_cons, List.sum_replicate_nat,
    length_line_class, length_line_method, hpath, hrest]
  omega

theorem length_smallScript : (fileSection smallScript 10).length = 20 := by
  have hlisted : Graph.firstItems 10 smallScript.signatures =
      [⟨"f", .function, [], 1, false, false⟩] := rfl
  have hpath : smallScript.path.length = 4 := by decide
  have hcount : smallScript.signatures.length = 1 := rfl
  have hmark : (kindMark .function).length = 4 := by decide
  have hname : "f".length = 1 := by decide
  rw [length_fileSection rfl, hlisted]
  simp only [List.map_cons, List.map_nil, List.sum_cons, List.sum_nil, length_plainLine, hpath,
    hcount, hmark, hname]
  simp

/-- One more token shows one file fewer: the class lists its last method, and the small script no
    longer fits. And within a budget that no floating point number can say there is no map. -/
theorem files_not_mono : (418 : Int) ≤ 419 ∧
    (ofFiles 418 "." longNames ["a.js", "b.js"]).files = 2 ∧
    (ofFiles 419 "." longNames ["a.js", "b.js"]).files = 1 ∧
    checkBudget Double.wholeBound = .error .beyondRange := by
  have hheader : header.length = 11 := by decide
  have hshort : (fileSection longClass 10).length = 1907 := length_longClass 9
  have hlong : (fileSection longClass 30).length = 2082 := length_longClass 29
  have hten : signatureLimit 418 11 = 10 := by decide
  have hthirty : signatureLimit 419 11 = 30 := by decide
  have hsmall : signatureLimit 418 1919 = 10 ∧ signatureLimit 419 2094 = 10 := by decide
  have hfits : fits 418 1940 = true ∧ fits 419 2115 = false := by decide
  have hrange : ¬ InRange Double.wholeBound := by
    rw [InRange]
    omega
  simp only [ofFiles_eq, digestsOf_longNames, ofDigests, ranked_longNames]
  refine ⟨by decide, ?_, ?_, ?_⟩
  · simp [sectionsFrom, hheader, hten, hsmall, hshort, length_smallScript, hfits]
  · simp [sectionsFrom, hheader, hthirty, hsmall, hlong, length_smallScript, hfits]
  · rw [InRange, ← Double.isFinite_ofInt] at hrange
    rw [checkBudget, if_neg hrange]

end CodeSurvey.RepoMap
