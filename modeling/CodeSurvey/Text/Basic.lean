/-!
Text as a list of code points: blank characters, trimming, words, splitting at a separator and
joining again, line ends. Every length and every cut in this library counts code points. Main
statements: the pieces of a text hold no separator, and joined with it they are the text again.
-/

namespace CodeSurvey.Text

/-- The blank characters: white space of every script, the line and paragraph separators and the
    four information separators U+001C to U+001F. -/
def isBlank (c : Char) : Bool :=
  let n := c.toNat
  if n < 128 then n == 32 || (9 ≤ n && n ≤ 13) || (28 ≤ n && n ≤ 31)
  else n == 0x85 || n == 0xA0 || n == 0x1680 || (0x2000 ≤ n && n ≤ 0x200A) ||
    n == 0x2028 || n == 0x2029 || n == 0x202F || n == 0x205F || n == 0x3000

/-- Drops the blanks in front. -/
def trimLeft (s : List Char) : List Char := s.dropWhile isBlank

theorem trimLeft_trimLeft (s : List Char) : trimLeft (trimLeft s) = trimLeft s := by
  induction s with
  | nil => rfl
  | cons c rest ih => by_cases h : isBlank c <;> simp_all [trimLeft]

/-- Drops the blanks at the end. -/
def trimRight (s : List Char) : List Char := (s.reverse.dropWhile isBlank).reverse

/-- Drops the blanks at both ends. -/
def trim (s : List Char) : List Char := trimRight (trimLeft s)

/-- Trimming makes no text longer. -/
theorem length_trim_le (s : List Char) : (trim s).length ≤ s.length := by
  have hleft : (trimLeft s).length ≤ s.length := (List.dropWhile_sublist _).length_le
  have hright : (trim s).length ≤ (trimLeft s).length := by
    have hreverse : (trimLeft s).reverse.length = (trimLeft s).length := List.length_reverse
    rw [trim, trimRight, List.length_reverse, ← hreverse]
    exact (List.dropWhile_sublist _).length_le
  exact Nat.le_trans hright hleft

/-- Drops every `c` at the end. -/
def dropTrailing (c : Char) (s : List Char) : List Char :=
  (s.reverse.dropWhile (· == c)).reverse

/-- The pieces between the separators: one more than there are separators, empty ones included. -/
def pieces (sep : Char) : List Char → List (List Char)
  | [] => [[]]
  | c :: rest =>
    if c == sep then [] :: pieces sep rest
    else match pieces sep rest with
      | [] => [[c]]
      | piece :: more => (c :: piece) :: more

theorem pieces_ne_nil (sep : Char) (s : List Char) : pieces sep s ≠ [] := by
  cases s with
  | nil => simp [pieces]
  | cons c rest => by_cases h : c == sep <;> simp [pieces, h]; split <;> simp

theorem length_pieces (sep : Char) (s : List Char) :
    (pieces sep s).length = s.count sep + 1 := by
  induction s with
  | nil => rfl
  | cons c rest ih =>
    match hp : pieces sep rest with
    | [] => exact absurd hp (pieces_ne_nil sep rest)
    | p :: more => by_cases hc : c = sep <;> simp_all [pieces]

/-- No piece holds a separator. -/
theorem notMem_of_mem_pieces (sep : Char) {s p : List Char} (h : p ∈ pieces sep s) : sep ∉ p := by
  induction s generalizing p with
  | nil => simp_all [pieces]
  | cons c rest ih =>
    match hp : pieces sep rest with
    | [] => exact absurd hp (pieces_ne_nil sep rest)
    | q :: more => by_cases hc : c = sep <;> grind [pieces]

/-- A piece holds nothing but characters of the text. -/
theorem mem_of_mem_pieces {sep c : Char} {s p : List Char} (h : p ∈ pieces sep s) (hc : c ∈ p) :
    c ∈ s := by
  induction s generalizing p with
  | nil => simp_all [pieces]
  | cons d rest ih =>
    match hp : pieces sep rest with
    | [] => exact absurd hp (pieces_ne_nil sep rest)
    | q :: more => by_cases hd : d = sep <;> grind [pieces]

/-- A text without the separator is one piece. -/
theorem pieces_of_notMem {sep : Char} {s : List Char} (h : sep ∉ s) : pieces sep s = [s] := by
  induction s with
  | nil => rfl
  | cons c rest ih => grind [pieces]

/-- The pieces between the occurrences, found from the left, of a two-character separator. -/
def piecesPair (a b : Char) : List Char → List (List Char)
  | [] => [[]]
  | [c] => [[c]]
  | c :: d :: rest =>
    if c == a && d == b then [] :: piecesPair a b rest
    else match piecesPair a b (d :: rest) with
      | [] => [[c]]
      | piece :: more => (c :: piece) :: more

/-- The pieces between the first `limit` occurrences of a separator, after skipping `skip`
    characters that an occurrence has covered. -/
def splitFrom (sep : List Char) (limit skip : Nat) : List Char → List (List Char)
  | [] => [[]]
  | c :: rest =>
    match skip with
    | skip + 1 => splitFrom sep limit skip rest
    | 0 =>
      if 0 < limit && sep.isPrefixOf (c :: rest) then
        [] :: splitFrom sep (limit - 1) (sep.length - 1) rest
      else match splitFrom sep limit 0 rest with
        | [] => [[c]]
        | piece :: more => (c :: piece) :: more

/-- The pieces between the first `limit` occurrences of a separator, found from the left. -/
def splitFirst (sep : List Char) (limit : Nat) (s : List Char) : List (List Char) :=
  splitFrom sep limit 0 s

/-- The pieces between all occurrences of a separator, found from the left. -/
def splitAll (sep s : List Char) : List (List Char) := splitFrom sep s.length 0 s

/-- Joins the pieces with `sep` between any two. -/
def join (sep : List Char) : List (List Char) → List Char
  | [] => []
  | [piece] => piece
  | piece :: more => piece ++ sep ++ join sep more

theorem mem_join {sep : List Char} {c : Char} {ps : List (List Char)} (h : c ∈ join sep ps) :
    c ∈ sep ∨ ∃ p ∈ ps, c ∈ p := by
  fun_induction join sep ps <;> grind

/-- A piece joined at the end stands behind a separator. -/
theorem join_concat (sep : List Char) {ps : List (List Char)} (h : ps ≠ []) (p : List Char) :
    join sep (ps ++ [p]) = join sep ps ++ sep ++ p := by
  induction ps with
  | nil => exact absurd rfl h
  | cons q more ih =>
    cases more with
    | nil => rfl
    | cons r more =>
      have hmore := ih (List.cons_ne_nil r more)
      simp only [List.cons_append, join] at hmore ⊢
      simp only [hmore, List.append_assoc]

/-- A text is its pieces with the separators put back. -/
theorem join_pieces (sep : Char) (s : List Char) : join [sep] (pieces sep s) = s := by
  induction s with
  | nil => rfl
  | cons c rest ih =>
    match hp : pieces sep rest with
    | [] => exact absurd hp (pieces_ne_nil sep rest)
    | [p] | p :: q :: more =>
      rw [hp] at ih
      by_cases hc : c = sep <;> simp_all [pieces, join]

/-- The maximal runs of characters that are not blank; `current` is the run being read, last
    character first. -/
def wordsFrom (current : List Char) : List Char → List (List Char)
  | [] => if current.isEmpty then [] else [current.reverse]
  | c :: rest =>
    if isBlank c then
      if current.isEmpty then wordsFrom [] rest else current.reverse :: wordsFrom [] rest
    else wordsFrom (c :: current) rest

/-- The words of a text: its maximal runs of characters that are not blank. -/
def words (s : List Char) : List (List Char) := wordsFrom [] s

/-- Replaces each `a` by `b`. -/
def swap (a b : Char) (s : List Char) : List Char := s.map fun c => if c == a then b else c

theorem swap_of_notMem {a b : Char} {s : List Char} (h : a ∉ s) : swap a b s = s := by
  rw [swap, List.map_congr_left (g := id), List.map_id]
  intro c hc
  have hne : ¬ (c == a) = true := fun heq => h (eq_of_beq heq ▸ hc)
  rw [if_neg hne, id]

/-- Writes every line end as one line feed: a carriage return, with a line feed after it or
    alone, becomes a line feed. -/
def unifyLineEnds : List Char → List Char
  | [] => []
  | '\r' :: '\n' :: rest => '\n' :: unifyLineEnds rest
  | c :: rest => (if c == '\r' then '\n' else c) :: unifyLineEnds rest

theorem unifyLineEnds_no_return (s : List Char) : '\r' ∉ unifyLineEnds s := by
  fun_induction unifyLineEnds s <;> grind

theorem unifyLineEnds_of_notMem {s : List Char} (h : '\r' ∉ s) : unifyLineEnds s = s := by
  fun_induction unifyLineEnds s <;> grind

/-- The number of line feeds. -/
def lineFeeds (s : List Char) : Nat := s.count '\n'

theorem lineFeeds_append (s t : List Char) : lineFeeds (s ++ t) = lineFeeds s + lineFeeds t :=
  List.count_append

/-- `needle` stands somewhere in the text. -/
def hasInfix (needle : List Char) : List Char → Bool
  | [] => needle.isEmpty
  | c :: rest => needle.isPrefixOf (c :: rest) || hasInfix needle rest

theorem hasInfix_iff (needle s : List Char) : hasInfix needle s = true ↔ needle <:+: s := by
  induction s with
  | nil => simp [hasInfix, List.isEmpty_iff]
  | cons c rest ih => simp [hasInfix, ih, List.infix_cons_iff]

end CodeSurvey.Text
