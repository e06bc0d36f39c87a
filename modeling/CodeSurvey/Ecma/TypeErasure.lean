import CodeSurvey.Pattern.Search

/-!
Erasing type syntax, so that typed sources can be read with the grammar of the untyped language.
Each step of `eraseTypes` removes one kind of type syntax wherever its pattern matches: type-only
imports, interfaces, aliases, enumerations, ambient declarations, generic parameters, annotations,
casts, non-null marks and class modifiers. A removed stretch leaves its line feeds behind, so what
follows it stays on its line; specifiers inside an import clause are the exception.
-/

namespace CodeSurvey.Ecma

open Pattern

/-- Removes every match but the text of the group `kept`, and puts the line feeds of the match
    after it. -/
def eraseKeepingLines (p : Pattern) (kept : Option Nat) (code : List Char) : List Char :=
  p.replace (fun m => (kept.elim [] m.group) ++ List.replicate (Text.lineFeeds m.text) '\n') code

/-- A single or double quote. -/
def isQuote (c : Char) : Bool := c == '\'' || c == '"'

/-- A blank at the start of a type or inside it. -/
private def gap : Pattern := many true 0 (among " \t")

/-- The start of a declaration: a line start, blanks and perhaps the word `export`. -/
private def exportedHead : Pattern :=
  seq [lineStart, blanks, maybe (seq [lit "export", blanks1])]

/-- A stretch up to the next closing brace, the braces included. -/
private def braced : Pattern := seq [lit "\x7b", others (· == '}'), lit "\x7d"]

/-- The characters a simple type is written with. -/
def isTypeChar (c : Char) : Bool := Text.isWordChar c || among "[]|&<>.,\t ?" c

/-- A simple type, as short as possible. -/
private def shortType : Pattern := many false 1 isTypeChar

namespace TypeErasure

/-- The statement `import type {..} from '..'`. -/
def typeImport : Pattern :=
  seq [lineStart, blanks, lit "import", blanks1, lit "type", blanks1, braced, blanks1, lit "from",
    blanks1, one isQuote, others isQuote, one isQuote, maybe (lit ";"), blanks, lineEnd]

/-- The braces of an import with the keyword in front. -/
def importClause : Pattern := seq [wordEdge, lit "import", blanks, braced]

/-- A specifier marked as a type inside import braces. -/
def typeSpecifier : Pattern :=
  seq [wordEdge, lit "type", blanks1, word, blanks, maybe (lit ","), blanks]

/-- An interface whose body holds no inner brace. -/
def interfaceDeclaration : Pattern :=
  seq [exportedHead, lit "interface", blanks1, word,
    maybe (seq [blanks1, lit "extends", blanks1, others (· == '{')]), blanks, braced]

/-- A type alias up to its semicolon. -/
def typeAlias : Pattern :=
  seq [exportedHead, lit "type", blanks1, word,
    maybe (seq [lit "<", others (· == '>'), lit ">"]), blanks, lit "=", blanks,
    others (· == ';'), lit ";"]

/-- An enumeration. -/
def enumDeclaration : Pattern :=
  seq [exportedHead, maybe (seq [lit "const", blanks1]), lit "enum", blanks1, word, blanks, braced]

/-- An ambient declaration, to the end of its first brace pair or its semicolon. -/
def ambientDeclaration : Pattern :=
  seq [lineStart, blanks, lit "declare", blanks1, others (among ";\x7b"), one (among ";\x7b"),
    others (· == '}'), maybe (lit "\x7d")]

/-- One parameter of a generic list: a capitalised name, perhaps with a bound. -/
private def genericParameter : Pattern :=
  seq [one (fun c => c.isUpper || c == '_'), many true 0 Text.isWordChar,
    maybe (seq [blanks1, lit "extends", blanks1, others (· == '>')]), blanks]

/-- A list of generic parameters in angle brackets. -/
def genericParameters : Pattern :=
  seq [lit "<", blanks, genericParameter, star (seq [lit ",", blanks, genericParameter]), lit ">"]

/-- The type after a parameter list; group 1 is the closing parenthesis. -/
def returnType : Pattern :=
  seq [group 1 (lit ")"), blanks, lit ":", blanks,
    oneOf [seq [lit "Promise", blanks, lit "<", others (· == '>'), lit ">"], shortType],
    ahead (seq [blanks, one (among "\x7b=>")])]

/-- A name with a question mark before its annotation or the next parameter; group 1 is the
    name. -/
def optionalMark : Pattern :=
  seq [group 1 word, lit "?", ahead (seq [blanks, one (among ",)=:")])]

/-- An annotated parameter; group 1 is its name. -/
def parameterType : Pattern :=
  seq [group 1 word, gap, lit ":", gap, shortType, ahead (one (among ",)="))]

/-- A cast with `as`. -/
def asCast : Pattern :=
  seq [wordEdge, lit "as", blanks1, oneOf [lit "const", shortType], ahead (one (among ",;)]\x7d"))]

/-- A name with a non-null mark; group 1 is the name. -/
def nonNull : Pattern := seq [group 1 word, lit "!", ahead (one (among ".["))]

/-- A cast in angle brackets. -/
def angleCast : Pattern :=
  seq [lit "<", word, lit ">", ahead (seq [blanks, one Text.isWordChar])]

/-- The word `readonly`. -/
def readonlyWord : Pattern := seq [wordEdge, lit "readonly", blanks1]

/-- A class modifier at the start of a line. -/
def accessModifier : Pattern :=
  seq [lineStart, blanks,
    oneOf [lit "public", lit "private", lit "protected", lit "override"], blanks1]

/-- The word `abstract`. -/
def abstractWord : Pattern := seq [wordEdge, lit "abstract", blanks1]

/-- The interfaces a class implements. -/
def implementsClause : Pattern :=
  seq [wordEdge, lit "implements", blanks1,
    many true 1 (fun c => Text.isWordChar c || Text.isBlank c || among ",<>" c),
    ahead (seq [blanks, lit "\x7b"])]

end TypeErasure

open TypeErasure

/-- Removes the specifiers marked as types from the braces of every import. -/
def eraseTypeSpecifiers (code : List Char) : List Char :=
  importClause.replace (fun m => typeSpecifier.replace (fun _ => []) m.text) code

/-- The steps after those on imports, each with the group whose text it keeps. -/
def typeSteps : List (Pattern × Option Nat) :=
  [(interfaceDeclaration, none), (typeAlias, none), (enumDeclaration, none),
    (ambientDeclaration, none), (genericParameters, none), (returnType, some 1),
    (optionalMark, some 1), (parameterType, some 1), (asCast, none), (nonNull, some 1)]

/-- The steps on modifiers, each with the group whose text it keeps. -/
def modifierSteps : List (Pattern × Option Nat) :=
  [(readonlyWord, none), (accessModifier, none), (abstractWord, none), (implementsClause, none)]

/-- Takes steps one after another. -/
def takeSteps (steps : List (Pattern × Option Nat)) (code : List Char) : List Char :=
  steps.foldl (fun code step => eraseKeepingLines step.1 step.2 code) code

/-- Removes type syntax. Casts in angle brackets stay when `markup` elements may occur, since they
    look alike. -/
def eraseTypes (markup : Bool) (code : List Char) : List Char :=
  let code := eraseTypeSpecifiers (eraseKeepingLines typeImport none code)
  let code := takeSteps typeSteps code
  let code := if markup then code else eraseKeepingLines angleCast none code
  takeSteps modifierSteps code

end CodeSurvey.Ecma
