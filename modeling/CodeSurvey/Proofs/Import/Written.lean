import CodeSurvey.Import.Scan

/-!
Import lines as they are written: what is imported gets a name and comes from a source in quotes.
-/

namespace CodeSurvey.Import

/-- A text is tested on its own characters, not on all there are. -/
instance decidableForallMem (s : List Char) (p : Char → Prop) [DecidablePred p] :
    Decidable (∀ c ∈ s, p c) :=
  List.decidableBAll p s

/-- Nothing but blanks. -/
def Blank (s : List Char) : Prop := ∀ c ∈ s, Text.isBlank c = true

instance (s : List Char) : Decidable (Blank s) := List.decidableBAll _ s

theorem Blank.notMem {s : List Char} {c : Char} (h : Blank s) (hc : Text.isBlank c = false) :
    c ∉ s := by
  intro hmem
  rw [h c hmem] at hc
  exact Bool.false_ne_true hc.symm

/-- No blank and no quote stands in the text. -/
def Plain (s : List Char) : Prop := ∀ c ∈ s, Text.isBlank c = false ∧ isQuote c = false

instance (s : List Char) : Decidable (Plain s) := List.decidableBAll _ s

/-- The characters of a name open and close no comments. -/
structure IsName (name : List Char) : Prop where
  ne_nil : name ≠ []
  plain : Plain name
  noSlash : '/' ∉ name
  noStar : '*' ∉ name

instance (name : List Char) : Decidable (IsName name) :=
  decidable_of_iff (name ≠ [] ∧ Plain name ∧ '/' ∉ name ∧ '*' ∉ name)
    ⟨fun ⟨hne, hplain, hslash, hstar⟩ => ⟨hne, hplain, hslash, hstar⟩,
      fun h => ⟨h.ne_nil, h.plain, h.noSlash, h.noStar⟩⟩

/-- A source that stands in quotes on one line. -/
structure IsSource (source : List Char) : Prop where
  ne_nil : source ≠ []
  plain : Plain source

instance (source : List Char) : Decidable (IsSource source) :=
  decidable_of_iff (source ≠ [] ∧ Plain source)
    ⟨fun ⟨hne, hplain⟩ => ⟨hne, hplain⟩, fun h => ⟨h.ne_nil, h.plain⟩⟩

/-- A line that imports something from a source under a name. -/
structure ImportLine where
  name : List Char
  source : List Char
  isName : IsName name
  isSource : IsSource source

/-- What stands before the source and its quotes. -/
def ImportLine.front (name : List Char) : List Char := "import ".toList ++ name ++ " from ".toList

def ImportLine.text (line : ImportLine) : List Char :=
  front line.name ++ '\'' :: line.source ++ "';".toList

/-- A script of import lines. -/
def scriptText (lines : List ImportLine) : List Char :=
  Text.join ['\n'] (lines.map ImportLine.text)

end CodeSurvey.Import
