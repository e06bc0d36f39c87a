import CodeSurvey.Ecma.Token
import CodeSurvey.Ecma.Tree

/-!
The cursor of the grammar: a place in the source with the token that starts there. A production is
a function on the cursor that fails or answers and moves on; it never sees what lies behind.
-/

namespace CodeSurvey.Ecma

/-- A place at the start of a token. -/
structure Cursor where
  /-- The source from the token on. -/
  source : List Char
  line : Nat
  /-- A line ends between the token before and this one. -/
  fresh : Bool
  token : Token
  /-- The source behind the token. -/
  after : List Char

namespace Cursor

/-- The first place from `source` on where a token starts; `source` begins on `line`, perhaps with
    the first character of that line. -/
def seek (source : List Char) (line : Nat) (atLineStart : Bool := false) : Cursor :=
  let skipped := trivia atLineStart source
  let source := source.drop skipped.length
  let (token, after) := Token.first source
  { source, line := line + Text.lineFeeds skipped, fresh := skipped.any isLineEnd, token, after }

/-- The line on which the source behind the token begins. -/
def lineAfter (c : Cursor) : Nat :=
  match c.token with
  | .string s => c.line + Text.lineFeeds s.toList
  | _ => c.line

/-- The place of the next token. -/
def next (c : Cursor) : Cursor := seek c.after c.lineAfter

/-- The source between this place and a later one. -/
def textTo (c later : Cursor) : List Char :=
  c.source.take (c.source.length - later.source.length)

end Cursor

/-- A production: it fails, or reads some of the source and answers. -/
abbrev Production (α : Type) := StateT Cursor Option α

namespace Production

/-- The production with which nothing matches. -/
def fail {α : Type} : Production α := fun _ => none

/-- The token here. -/
def token : Production Token := do return (← get).token

/-- The token after the one here, and whether it is on the same line. -/
def peek : Production (Token × Bool) := do
  let later := (← get).next
  return (later.token, !later.fresh)

/-- Moves on to the next token. -/
def advance : Production Unit := modify Cursor.next

/-- Moves on to the first token of `source`, which begins on `line`. -/
def jump (source : List Char) (line : Nat) : Production Unit := set (Cursor.seek source line)

/-- Reads on only if a condition holds. -/
def require (condition : Bool) : Production Unit := if condition then pure () else fail

/-- The sign stands here. -/
def atSign (s : String) : Production Bool := do return (← token) == .sign s

/-- The word stands here. -/
def atWord (s : String) : Production Bool := do return (← token) == .word s

/-- Skips the sign, if it stands here, and says whether it did. -/
def skipSign (s : String) : Production Bool := do
  if ← atSign s then advance; return true
  else return false

/-- Skips the word, if it stands here, and says whether it did. -/
def skipWord (s : String) : Production Bool := do
  if ← atWord s then advance; return true
  else return false

/-- Reads the sign. -/
def sign (s : String) : Production Unit := do require (← skipSign s)

/-- Reads the word. -/
def word (s : String) : Production Unit := do require (← skipWord s)

/-- Repeats a step until it has no more to do; the characters ahead bound the number of steps. -/
def repeatFrom {σ : Type} (step : σ → Production (Option σ)) : List Char → σ → Production σ
  | [], s => pure s
  | _ :: fuel, s => do
    match ← step s with
    | some s => repeatFrom step fuel s
    | none => pure s

/-- Repeats a step that reads something each time until it has no more to do. -/
def iterate {σ : Type} (step : σ → Production (Option σ)) (start : σ) : Production σ := do
  repeatFrom step (← get).source start

/-- Items for as long as `more` says that one follows. -/
def manyWhile {α : Type} (more : Production Bool) (item : Production α) : Production (List α) := do
  let items ← iterate (fun items => do
    if ← more then return some ((← item) :: items) else return none) []
  return items.reverse

/-- Items with commas between them up to a closing sign, which is read too; a comma may stand
    after the last. -/
def listUntil {α : Type} (close : String) (item : Production α) : Production (List α) := do
  let items ← manyWhile (do return !(← atSign close)) do
    let a ← item
    if !(← skipSign ",") then require (← atSign close)
    return a
  sign close
  return items

/-- The end of a statement: a semicolon, or none before a closing brace, at the end of the source
    or where a new line begins. -/
def statementEnd : Production Unit := do
  if ← skipSign ";" then return
  let c ← get
  require (c.fresh || c.token == .sign "\x7d" || c.token == .stop)

end Production

end CodeSurvey.Ecma
