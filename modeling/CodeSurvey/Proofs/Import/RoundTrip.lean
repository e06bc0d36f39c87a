import CodeSurvey.Proofs.Import.ScriptComments

/-!
Import lines read back. Main statement: a script of import lines is read back as its sources, each
once, if and only if none of them holds a double slash, cutting block comments out of the sources
loses none of them and no source opens a call that the next one closes.
-/

namespace CodeSurvey.Import

open Pattern Comment

variable {s source next last ending : List Char} {parts : List (List Char × List Char)}
  {sources : List (List Char)} {lines : List ImportLine}

/-- The source opens a call and the next one closes it. -/
def Crosses (source next : List Char) : Prop :=
  (∃ name ∈ callNames, OpensCall name source) ∧ next.head? = some ')'

/-- What it takes for sources to be read back. -/
structure ReadsBack (sources : List (List Char)) : Prop where
  noSlashes : ∀ source ∈ sources, ¬ ['/', '/'] <:+: source
  /-- Block comments cut out of the sources leave the same ones, each once. -/
  spared_eq : distinct (spared sources) = sources.eraseDups
  noCalls : ∀ source next, [source, next] <:+: spared sources → ¬ Crosses source next

/-! ### What the scan lists -/

theorem distinct_named (found : List (List Char)) : distinct (named found) = distinct found := by
  simp [distinct, named, List.filter_filter]

/-- Without calls across sources a script is read as its sources. -/
theorem ofScript_of_noCalls {code : List Char} (hcode : dropSlashed code = quoted parts last)
    (hparts : IsScript parts) (hlast : Unquoted last)
    (hcalls : ∀ source next, [source, next] <:+: parts.map (·.2) → ¬ Crosses source next) :
    ofScript code = distinct (parts.map (·.2)) := by
  have hnone : ∀ name ∈ callNames, firstGroups (callOf name) (quoted parts last) = [] := by
    intro name hname
    rw [firstGroups, List.map_eq_nil_iff]
    refine List.eq_nil_iff_forall_not_mem.2 fun m hm => ?_
    obtain ⟨ahead, gap, source, next, more, hsplit, hopens, hcloses⟩ :=
      exists_call_of_mem_findAll hname hparts hlast hm
    refine hcalls source next ⟨ahead.map (·.2), more.map (·.2), ?_⟩ ⟨⟨name, hname, hopens⟩, hcloses⟩
    rw [hsplit]
    simp
  have hrequire : firstGroups requireCall (quoted parts last) = [] := hnone _ (by decide)
  have himport : firstGroups importCall (quoted parts last) = [] := hnone _ (by decide)
  have hbare : firstGroups bareImport (quoted parts last) = [] := by
    rw [firstGroups, findAll_bareImport hparts hlast]
    rfl
  show distinct ([requireCall, fromClause, bareImport, importCall].flatMap
    (firstGroups · (dropSlashed code))) = _
  rw [hcode]
  simp only [List.flatMap_cons, List.flatMap_nil, hrequire, himport, hbare,
    firstGroups_fromClause hparts hlast, List.nil_append, List.append_nil, distinct_named]

theorem IsGap.not_plain {gap : List Char} (h : IsGap gap) : ¬ Plain gap := by
  obtain ⟨start, c, -, rfl⟩ := h.endsInFrom.ends
  exact fun hplain => absurd (hplain ' ' (by simp)).1 (by decide)

/-- A call across sources puts a text with blanks on the list. -/
theorem exists_mem_ofScript_of_call {code : List Char}
    (hcode : dropSlashed code = quoted parts last) (hparts : IsScript parts) (hlast : Unquoted last)
    (hcall : [source, next] <:+: parts.map (·.2)) (hcrosses : Crosses source next) :
    ∃ found ∈ ofScript code, ¬ Plain found := by
  obtain ⟨⟨name, hname, hopens⟩, hcloses⟩ := hcrosses
  obtain ⟨ahead, gap, gap', more, rfl⟩ : ∃ ahead gap gap' more,
      parts = ahead ++ (gap, source) :: (gap', next) :: more := by
    obtain ⟨front, behind, heq⟩ := hcall
    rw [List.append_assoc] at heq
    obtain ⟨ahead, tail, rfl, -, htail⟩ := List.map_eq_append_iff.1 heq.symm
    obtain ⟨⟨gap, _⟩, tail', rfl, rfl, htail'⟩ := List.map_eq_cons_iff.1 htail
    obtain ⟨⟨gap', _⟩, more, rfl, rfl, -⟩ := List.map_eq_cons_iff.1 htail'
    exact ⟨ahead, gap, gap', more, rfl⟩
  obtain ⟨m, hm⟩ := List.exists_mem_of_ne_nil _ (findAll_callOf_ne_nil hname hparts hopens hcloses)
  obtain ⟨_, _, _, next', _, hsplit, -, -⟩ := exists_call_of_mem_findAll hname hparts hlast hm
  have hgap : IsGap (m.group 1) := (hparts (m.group 1, next') (by rw [hsplit]; simp)).1
  have hpattern : callOf name ∈ [requireCall, fromClause, bareImport, importCall] := by
    rcases List.mem_cons.1 hname with rfl | hname
    · exact List.mem_cons_self ..
    · obtain rfl := List.mem_singleton.1 hname
      simp [importCall]
  refine ⟨m.group 1, (mem_distinct _ _).2 ⟨List.mem_flatMap.2 ⟨callOf name, hpattern, ?_⟩, ?_⟩,
    hgap.not_plain⟩
  · show m.group 1 ∈ firstGroups (callOf name) (dropSlashed code)
    rw [hcode]
    exact List.mem_map_of_mem hm
  · intro hempty
    exact hgap.not_plain (by rw [hempty]; simp [Plain])

/-- What is listed stands in the text that comments leave. -/
theorem infix_of_mem_ofScript {code : List Char} (h : s ∈ ofScript code) :
    s <:+: dropSlashed code := by
  obtain ⟨p, -, hp⟩ := List.mem_flatMap.1 ((mem_distinct _ _).1 h).1
  obtain ⟨m, hm, rfl⟩ := List.mem_map.1 hp
  exact group_infix_of_mem_findAll hm 1

/-- A source with a double slash is never listed. -/
theorem not_infix_of_mem_ofScript {code : List Char} (h : s ∈ ofScript code) :
    ¬ ['/', '/'] <:+: s := by
  intro hslashes
  have hin := hslashes.trans (infix_of_mem_ofScript h)
  rw [dropSlashed, dropKind_slashLine] at hin
  exact not_infix_withoutSlashLines _ hin

/-! ### Reading back -/

/-- A text of blanks imports nothing. -/
theorem ofScript_blank (h : Blank ending) : ofScript ending = [] := by
  have hslash : '/' ∉ ending := h.notMem rfl
  have hcode : dropSlashed ending = quoted [] ending := by
    rw [dropSlashed, dropKind_block, withoutBlocks_eq_self (Text.not_infix_of_notMem hslash),
      dropKind_slashLine, withoutSlashLines_eq_self (Text.not_infix_of_notMem hslash)]
    rfl
  exact ofScript_of_noCalls hcode (by simp [IsScript]) h.unquoted (by simp)

theorem readsBack_nil : ReadsBack [] where
  noSlashes := by simp
  spared_eq := rfl
  noCalls _ _ h := absurd h.length_le (Nat.not_succ_le_self 1)

/-- Sources without comment openers of which none ends in a parenthesis can be read back. -/
theorem ReadsBack.of_noOpeners (hsources : ∀ source ∈ sources, IsSource source)
    (h : ∀ source ∈ sources, ¬ ['/', '/'] <:+: source ∧ ¬ ['/', '*'] <:+: source ∧
      source.getLast? ≠ some '(') : ReadsBack sources := by
  by_cases hnil : sources = []
  · rw [hnil]
    exact readsBack_nil
  have hspared : spared sources = sources := by
    have hblocks : ¬ ['/', '*'] <:+: Text.join ['\n'] sources :=
      Text.not_infix_join (fun source hsource => (h source hsource).2.1) (by decide) (by decide)
    rw [spared, dropKind_block, withoutBlocks_eq_self hblocks,
      Text.pieces_join hnil fun source hsource => (hsources source hsource).notMem_lineFeed]
  refine ⟨fun source hsource => (h source hsource).1, ?_, fun source next hnext hcrosses => ?_⟩
  · have hnamed : sources.filter (· != []) = sources :=
      List.filter_eq_self.2 fun source hsource => by simpa using (hsources source hsource).ne_nil
    rw [hspared, distinct, hnamed]
  · rw [hspared] at hnext
    obtain ⟨⟨name, -, front, rfl, -⟩, -⟩ := hcrosses
    exact (h _ (hnext.subset (List.mem_cons_self ..))).2.2 List.getLast?_concat

/-- A script of import lines is read back if and only if its sources can be. -/
theorem ofScript_eq_sources_iff (lines : List ImportLine) (hending : Blank ending) :
    ofScript (scriptText lines ++ ending) = (lines.map (·.source)).eraseDups ↔
      ReadsBack (lines.map (·.source)) := by
  cases lines with
  | nil => exact iff_of_true ((ofScript_blank hending).trans List.eraseDups_nil.symm) readsBack_nil
  | cons line lines =>
    by_cases hslashes : ∀ other ∈ line :: lines, ¬ ['/', '/'] <:+: other.source
    · obtain ⟨parts, hparts, hsources, hcode⟩ := exists_quoted_dropSlashed line hending hslashes
      have hlast : Unquoted (';' :: ending) := List.forall_mem_cons.2 ⟨rfl, hending.unquoted⟩
      by_cases hcalls : ∀ source next,
          [source, next] <:+: spared ((line :: lines).map (·.source)) → ¬ Crosses source next
      · rw [ofScript_of_noCalls hcode hparts hlast (hsources ▸ hcalls), hsources]
        exact ⟨fun h => ⟨List.forall_mem_map.2 hslashes, h, hcalls⟩, ReadsBack.spared_eq⟩
      · -- what the call takes for its text holds a blank, so it is none of the sources
        refine iff_of_false (fun h => ?_) fun h => hcalls h.noCalls
        simp only [not_forall, not_not] at hcalls
        obtain ⟨source, next, hnext, hcrosses⟩ := hcalls
        obtain ⟨found, hfound, hplain⟩ :=
          exists_mem_ofScript_of_call hcode hparts hlast (hsources ▸ hnext) hcrosses
        rw [h, List.mem_eraseDups] at hfound
        obtain ⟨other, -, rfl⟩ := List.mem_map.1 hfound
        exact hplain other.isSource.plain
    · refine iff_of_false (fun h => hslashes fun other hother => ?_) fun h =>
        hslashes fun other hother => h.noSlashes _ (List.mem_map_of_mem hother)
      have hmem : other.source ∈ ofScript (scriptText (line :: lines) ++ ending) := by
        rw [h, List.mem_eraseDups]
        exact List.mem_map_of_mem hother
      exact not_infix_of_mem_ofScript hmem

/-- The second import of a source is not listed again. -/
theorem ofScript_eq_sources_repeated :
    let lines : List ImportLine := [⟨"a".toList, "./a".toList, by decide, by decide⟩,
      ⟨"b".toList, "../b.js".toList, by decide, by decide⟩,
      ⟨"again".toList, "./a".toList, by decide, by decide⟩]
    Blank ['\n'] ∧ ofScript (scriptText lines ++ ['\n']) = ["./a".toList, "../b.js".toList] := by
  intro lines
  have hreads : ReadsBack (lines.map (·.source)) :=
    .of_noOpeners (List.forall_mem_map.2 fun line _ => line.isSource) (by decide +kernel)
  refine ⟨by decide, ?_⟩
  rw [(ofScript_eq_sources_iff lines (by decide)).2 hreads]
  decide

/-- An address is cut off at its double slash; what stands between two sources that look like a
    call is listed. -/
theorem ofScript_ne_sources :
    let address : ImportLine := ⟨"a".toList, "https://x.org/y.js".toList, by decide, by decide⟩
    let opens : ImportLine := ⟨"a".toList, "require(".toList, by decide, by decide⟩
    let closes : ImportLine := ⟨"b".toList, ")".toList, by decide, by decide⟩
    ofScript (scriptText [address]) ≠ [address.source].eraseDups ∧
      ofScript (scriptText [opens, closes]) ≠ [opens.source, closes.source].eraseDups := by
  decide +kernel

end CodeSurvey.Import
