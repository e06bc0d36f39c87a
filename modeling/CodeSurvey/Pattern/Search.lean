import CodeSurvey.Pattern.Basic

/-!
Searching a text with a pattern: the match at a given place, the first match, all matches from
left to right without overlap, and replacement. The search is structural in the text: a match is
taken where it begins and the characters it covers are then skipped. It is meant for patterns that
match no empty text.
-/

namespace CodeSurvey.Pattern

/-- A match: where it begins, how many characters it covers, the text ahead of it and what the
    groups read. -/
structure Match where
  start : Nat
  length : Nat
  source : List Char
  captures : List Capture

/-- The matched text. -/
def Match.text (m : Match) : List Char := m.source.take m.length

/-- What a group read, none when it took no part. -/
def Match.group? (m : Match) (number : Nat) : Option (List Char) :=
  (m.captures.find? (·.number == number)).map fun c => c.source.take c.length

/-- What a group read, empty when it took no part. -/
def Match.group (m : Match) (number : Nat) : List Char := (m.group? number).getD []

/-- The match that begins at a place. -/
def matchAt? (p : Pattern) (r : Reading) : Option Match :=
  run p r fun r' => some ⟨r.offset, r'.offset - r.offset, r.rest, r'.captures⟩

/-- The match at the start of a text. -/
def matchStart? (p : Pattern) (text : List Char) : Option Match := matchAt? p (.atStart text)

/-- The characters that match at the start of a text, none if it does not match there. -/
def leading (p : Pattern) (text : List Char) : List Char :=
  ((matchStart? p text).map Match.text).getD []

/-- The first match in the text ahead; `before` and `offset` say what lies behind. -/
def firstFrom (p : Pattern) (before : Option Char) (offset : Nat) : List Char → Option Match
  | [] => none
  | c :: rest =>
    match matchAt? p ⟨before, c :: rest, offset, []⟩ with
    | some m => some m
    | none => firstFrom p (some c) (offset + 1) rest

/-- The first match. -/
def first? (p : Pattern) (text : List Char) : Option Match := firstFrom p none 0 text

/-- The pattern matches somewhere in the text. -/
def occursIn (p : Pattern) (text : List Char) : Bool := (first? p text).isSome

/-- The matches in the text ahead, after skipping `skip` characters that a match has covered. -/
def matchesFrom (p : Pattern) (before : Option Char) (offset skip : Nat) :
    List Char → List Match
  | [] => []
  | c :: rest =>
    match skip with
    | skip + 1 => matchesFrom p (some c) (offset + 1) skip rest
    | 0 =>
      match matchAt? p ⟨before, c :: rest, offset, []⟩ with
      | some m => m :: matchesFrom p (some c) (offset + 1) (m.length - 1) rest
      | none => matchesFrom p (some c) (offset + 1) 0 rest

/-- All matches from left to right, none overlapping another. -/
def findAll (p : Pattern) (text : List Char) : List Match := matchesFrom p none 0 0 text

/-- Every match covers a character of its own. -/
theorem length_findAll_le (p : Pattern) (text : List Char) :
    (p.findAll text).length ≤ text.length := by
  suffices h : ∀ before offset skip,
      (matchesFrom p before offset skip text).length ≤ text.length from h ..
  induction text with
  | nil => intros; simp [matchesFrom]
  | cons c rest ih =>
    intro before offset skip
    cases skip with
    | succ n => rw [matchesFrom]; exact Nat.le_succ_of_le (ih ..)
    | zero =>
      rw [matchesFrom]
      split
      · simpa using ih ..
      · exact Nat.le_succ_of_le (ih ..)

/-- The text ahead with each match replaced, after dropping `skip` characters that a match has
    covered. -/
def replaceFrom (p : Pattern) (change : Match → List Char) (before : Option Char)
    (offset skip : Nat) : List Char → List Char
  | [] => []
  | c :: rest =>
    match skip with
    | skip + 1 => replaceFrom p change (some c) (offset + 1) skip rest
    | 0 =>
      match matchAt? p ⟨before, c :: rest, offset, []⟩ with
      | some m => change m ++ replaceFrom p change (some c) (offset + 1) (m.length - 1) rest
      | none => c :: replaceFrom p change (some c) (offset + 1) 0 rest

/-- The text with each match replaced. -/
def replace (p : Pattern) (change : Match → List Char) (text : List Char) : List Char :=
  replaceFrom p change none 0 0 text

end CodeSurvey.Pattern
