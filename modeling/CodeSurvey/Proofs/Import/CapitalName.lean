import CodeSurvey.Proofs.Import.Relative

/-!
Names of modules whose words begin with capital letters. A segment of the name stands for a
directory or a file that is written in small letters, with underscores between the words; taking the
capitals back to small letters, with an underscore in front of each but the first, reads it off the
name. Main statement: the name of a module resolves to its source file below `lib`.

        words       [my, app]   [accounts]   [user]
        name         MyApp    .  Accounts  .  User
        file    lib/ my_app   /  accounts  /  user .ex
-/

namespace CodeSurvey.Import

open Text

variable {word : List Char} {words : List (List Char)} {segments : List (List (List Char))}
  {c : Char} {before : Option Char} {files : List String}

/-- A small letter of ASCII or a digit. -/
def isSmall (c : Char) : Bool := c.isLower || c.isDigit

/-- A small letter with small letters and digits behind it. -/
def isWord : List Char → Bool
  | [] => false
  | c :: rest => c.isLower && rest.all isSmall

/-- The word with a capital letter. -/
def capitalised : List Char → List Char
  | [] => []
  | c :: rest => c.toUpper :: rest

/-- A segment as files have it: its words with underscores between them. -/
def segmentText (words : List (List Char)) : List Char := join ['_'] words

/-- A segment as names of modules have it: its words with capital letters. -/
def segmentName (words : List (List Char)) : List Char := words.flatMap capitalised

/-- The name of the module with these segments. -/
def elixirName (segments : List (List (List Char))) : List Char :=
  join ['.'] (segments.map segmentName)

/-- The source file of the module with these segments. -/
def libraryFile (segments : List (List (List Char))) : List Char :=
  "lib/".toList ++ join ['/'] (segments.map segmentText) ++ ".ex".toList

example : elixirName [["my".toList, "app".toList], ["user".toList]] = "MyApp.User".toList := by
  decide

/-! ### Letters -/

/-- What is decided for all characters of ASCII holds of these. -/
theorem ascii_of_isSmall (h : isSmall c = true) : c.toNat < 128 := by
  rcases Bool.or_eq_true_iff.1 h with hlower | hdigit
  · have hle : c.toNat ≤ 122 := of_decide_eq_true (Bool.and_eq_true_iff.1 hlower).2
    omega
  · have hle : c.toNat ≤ 57 := of_decide_eq_true (Bool.and_eq_true_iff.1 hdigit).2
    omega

theorem isSmall_facts (h : isSmall c = true) :
    c.isUpper = false ∧ c ≠ '.' ∧ lowerChar c = c := by
  have hall : ∀ n < 128, isSmall (Char.ofNat n) = true → (Char.ofNat n).isUpper = false ∧
      Char.ofNat n ≠ '.' ∧ lowerChar (Char.ofNat n) = Char.ofNat n := by decide
  have hchar := hall c.toNat (ascii_of_isSmall h)
  rw [Char.ofNat_toNat] at hchar
  exact hchar h

theorem isSmall_of_isLower (h : c.isLower = true) : isSmall c = true := by
  rw [isSmall, h, Bool.true_or]

theorem toUpper_facts (h : c.isLower = true) : c.toUpper.isUpper = true ∧ c.toUpper ≠ '.' ∧
    c.toUpper.toNat < 128 ∧ lowerChar c.toUpper = c := by
  have hall : ∀ n < 128, (Char.ofNat n).isLower = true → (Char.ofNat n).toUpper.isUpper = true ∧
      (Char.ofNat n).toUpper ≠ '.' ∧ (Char.ofNat n).toUpper.toNat < 128 ∧
        lowerChar (Char.ofNat n).toUpper = Char.ofNat n := by decide
  have hchar := hall c.toNat (ascii_of_isSmall (isSmall_of_isLower h))
  rw [Char.ofNat_toNat] at hchar
  exact hchar h

/-- Text of ASCII is made small letter by letter. -/
theorem lowerAfter_ascii {s : List Char} (h : ∀ c ∈ s, c.toNat < 128) :
    lowerAfter before s = s.map lowerChar := by
  induction s generalizing before with
  | nil => rfl
  | cons c rest ih =>
    obtain ⟨hc, hrest⟩ := List.forall_mem_cons.1 h
    have hdotted : (c.toNat == 0x130) = false := beq_false_of_ne (by omega)
    have hsigma : (c.toNat == 0x3A3) = false := beq_false_of_ne (by omega)
    simp [lowerAfter, hdotted, hsigma, ih hrest]

/-! ### Words -/

theorem exists_of_isWord (h : isWord word = true) :
    ∃ c rest, word = c :: rest ∧ c.isLower = true ∧ ∀ d ∈ rest, isSmall d = true := by
  match word, h with
  | c :: rest, h =>
    obtain ⟨hc, hrest⟩ := Bool.and_eq_true_iff.1 h
    exact ⟨c, rest, rfl, hc, List.all_eq_true.1 hrest⟩

theorem ascii_capitalised (h : isWord word = true) :
    ∀ c ∈ capitalised word, c.toNat < 128 ∧ c ≠ '.' := by
  obtain ⟨c, rest, rfl, hc, hrest⟩ := exists_of_isWord h
  obtain ⟨_, hdot, hascii, _⟩ := toUpper_facts hc
  refine List.forall_mem_cons.2 ⟨⟨hascii, hdot⟩, fun d hd => ?_⟩
  exact ⟨ascii_of_isSmall (hrest d hd), (isSmall_facts (hrest d hd)).2.1⟩

/-- Small letters give a word back. -/
theorem map_lowerChar_capitalised (h : isWord word = true) :
    (capitalised word).map lowerChar = word := by
  obtain ⟨c, rest, rfl, hc, hrest⟩ := exists_of_isWord h
  rw [capitalised, List.map_cons, (toUpper_facts hc).2.2.2,
    List.map_congr_left fun d hd => (isSmall_facts (hrest d hd)).2.2, List.map_id']

/-! ### Segments -/

/-- The capital letters with underscores in front. -/
def spaced (d : Char) : List Char := if d.isUpper then ['_', d] else [d]

/-- Only capital letters get underscores. -/
theorem flatMap_spaced_small {rest : List Char} (h : ∀ d ∈ rest, isSmall d = true) :
    rest.flatMap spaced = rest := by
  induction rest with
  | nil => rfl
  | cons d rest ih =>
    obtain ⟨hd, hrest⟩ := List.forall_mem_cons.1 h
    rw [List.flatMap_cons, ih hrest, spaced, (isSmall_facts hd).1]
    rfl

theorem flatMap_spaced_capitalised (h : isWord word = true) :
    (capitalised word).flatMap spaced = '_' :: capitalised word := by
  obtain ⟨c, rest, rfl, hc, hrest⟩ := exists_of_isWord h
  rw [capitalised, List.flatMap_cons, flatMap_spaced_small hrest, spaced, (toUpper_facts hc).1]
  rfl

/-- Each word behind the first one gets an underscore. -/
theorem flatMap_spaced_segmentName (h : ∀ w ∈ words, isWord w = true) :
    (segmentName words).flatMap spaced = words.flatMap fun w => '_' :: capitalised w := by
  rw [segmentName, List.flatMap_assoc]
  exact List.flatMap_congr fun w hw => flatMap_spaced_capitalised (h w hw)

/-- The text of a segment is read off its name. -/
theorem snakeCase_segmentName (hne : words ≠ []) (h : ∀ w ∈ words, isWord w = true) :
    snakeCase (segmentName words) = segmentText words := by
  obtain ⟨first, more, rfl⟩ := List.exists_cons_of_ne_nil hne
  obtain ⟨hfirst, hmore⟩ := List.forall_mem_cons.1 h
  obtain ⟨c, rest, rfl, hc, hrest⟩ := exists_of_isWord hfirst
  have hname : segmentName ((c :: rest) :: more) = c.toUpper :: (rest ++ segmentName more) := rfl
  have hspaced : c.toUpper :: (rest ++ segmentName more).flatMap spaced =
      capitalised (c :: rest) ++ more.flatMap fun w => '_' :: capitalised w := by
    rw [List.flatMap_append, flatMap_spaced_small hrest, flatMap_spaced_segmentName hmore]
    rfl
  have hascii : ∀ d ∈ capitalised (c :: rest) ++ more.flatMap (fun w => '_' :: capitalised w),
      d.toNat < 128 := by
    refine List.forall_mem_append.2 ⟨fun d hd => (ascii_capitalised hfirst d hd).1, fun d hd => ?_⟩
    obtain ⟨w, hw, hd⟩ := List.mem_flatMap.1 hd
    rcases List.mem_cons.1 hd with rfl | hd
    · decide
    · exact (ascii_capitalised (hmore w hw) d hd).1
  calc snakeCase (segmentName ((c :: rest) :: more))
      = lower (c.toUpper :: (rest ++ segmentName more).flatMap spaced) := by rw [hname]; rfl
    _ = (capitalised (c :: rest) ++ more.flatMap fun w => '_' :: capitalised w).map lowerChar := by
        rw [hspaced, lower, lowerAfter_ascii hascii]
    _ = c :: rest ++ more.flatMap ('_' :: ·) := by
        rw [List.map_append, map_lowerChar_capitalised hfirst, List.map_flatMap]
        congr 1
        refine List.flatMap_congr fun w hw => ?_
        rw [List.map_cons, map_lowerChar_capitalised (hmore w hw)]
        rfl
    _ = segmentText ((c :: rest) :: more) := (join_cons_eq_flatMap ['_'] (c :: rest) more).symm

theorem segmentName_ne_nil (hne : words ≠ []) (h : ∀ w ∈ words, isWord w = true) :
    segmentName words ≠ [] := by
  obtain ⟨first, more, rfl⟩ := List.exists_cons_of_ne_nil hne
  obtain ⟨c, rest, rfl, -, -⟩ := exists_of_isWord (h first (List.mem_cons_self ..))
  exact List.cons_ne_nil _ _

theorem dot_notMem_segmentName (h : ∀ w ∈ words, isWord w = true) : '.' ∉ segmentName words := by
  intro hdot
  obtain ⟨w, hw, hmem⟩ := List.mem_flatMap.1 hdot
  exact (ascii_capitalised (h w hw) '.' hmem).2 rfl

theorem segmentText_ne_nil (hne : words ≠ []) (h : ∀ w ∈ words, isWord w = true) :
    segmentText words ≠ [] := by
  obtain ⟨first, more, rfl⟩ := List.exists_cons_of_ne_nil hne
  obtain ⟨c, rest, rfl, -, -⟩ := exists_of_isWord (h first (List.mem_cons_self ..))
  rw [segmentText, join_cons_eq_flatMap]
  exact List.cons_ne_nil _ _

/-! ### Names -/

/-- The segments of the name of a module are read as the files have them. -/
theorem snakeCase_pieces_elixirName (hne : segments ≠ [])
    (h : ∀ s ∈ segments, s ≠ [] ∧ ∀ w ∈ s, isWord w = true) :
    ((pieces '.' (elixirName segments)).filter (· != [])).map snakeCase =
      segments.map segmentText := by
  have hdots : ∀ p ∈ segments.map segmentName, '.' ∉ p :=
    List.forall_mem_map.2 fun s hs => dot_notMem_segmentName (h s hs).2
  have hfull : ∀ p ∈ segments.map segmentName, (p != []) = true :=
    List.forall_mem_map.2 fun s hs => bne_iff_ne.2 (segmentName_ne_nil (h s hs).1 (h s hs).2)
  rw [elixirName, pieces_join (by simpa using hne) hdots, List.filter_eq_self.2 hfull,
    List.map_map]
  exact List.map_congr_left fun s hs => snakeCase_segmentName (h s hs).1 (h s hs).2

/-- The name of a module resolves to its source file, whatever other files there are. -/
theorem resolveElixir_capitalName (hne : segments ≠ [])
    (hsegments : ∀ s ∈ segments, s ≠ [] ∧ ∀ w ∈ s, isWord w = true)
    (hfile : String.ofList (libraryFile segments) ∈ files) :
    resolveElixir (elixirName segments) files = some (libraryFile segments) := by
  obtain ⟨first, more, rfl⟩ := List.exists_cons_of_ne_nil hne
  have hbase : join ['/'] ((first :: more).map segmentText) ≠ [] := by
    obtain ⟨hfirst, hwords⟩ := hsegments first (List.mem_cons_self ..)
    rw [List.map_cons, join_cons_eq_flatMap]
    exact List.append_ne_nil_of_left_ne_nil (segmentText_ne_nil hfirst hwords) _
  rw [resolveElixir, snakeCase_pieces_elixirName hne hsegments,
    List.filter_cons_of_pos (by simpa using hbase), List.flatMap_cons]
  exact firstExisting_of_mem hfile _

/-- Words of one letter, digits in front of capitals, and files that the other candidates name. -/
theorem resolveElixir_capitalName_digits :
    let segments := [["a".toList, "b2".toList, "c".toList], ["x9y".toList]]
    let files := ["x9y.ex", "lib/x9y.ex", "a_b2_c/x9y.ex", "lib/a_b2_c/x9y.ex"]
    segments ≠ [] ∧ (["x9y".toList] ≠ [] ∧ ∀ w ∈ ["x9y".toList], isWord w = true) ∧
      String.ofList (libraryFile segments) ∈ files ∧
      resolveElixir "AB2C.X9y".toList files = some "lib/a_b2_c/x9y.ex".toList := by
  intro segments files
  have hsegments : ∀ s ∈ segments, s ≠ [] ∧ ∀ w ∈ s, isWord w = true := by decide
  have hfile : String.ofList (libraryFile segments) ∈ files := by decide
  exact ⟨by decide, hsegments _ (by decide), hfile,
    resolveElixir_capitalName (by decide) hsegments hfile⟩

end CodeSurvey.Import
