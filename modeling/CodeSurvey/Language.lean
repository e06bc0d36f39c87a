import CodeSurvey.Path

/-!
Languages, told by file extension. A language is known by its tag; callers may name one by a tag
that no extension stands for.
-/

namespace CodeSurvey.Language

/-- The extensions of source files and the tag of the language of each. -/
def byExtension : List (String × String) := [
  (".js", "javascript"), (".cjs", "javascript"), (".mjs", "javascript"), (".jsx", "javascript"),
  (".ts", "typescript"), (".tsx", "typescript"), (".py", "python"), (".pyw", "python"),
  (".go", "go"), (".rs", "rust"), (".rb", "ruby"), (".rake", "ruby"), (".ex", "elixir"),
  (".exs", "elixir"), (".java", "java"), (".kt", "kotlin"), (".php", "php"), (".c", "c"),
  (".h", "c"), (".cpp", "cpp"), (".hpp", "cpp"), (".cc", "cpp"), (".cs", "c_sharp"),
  (".swift", "swift"), (".dart", "dart"), (".lua", "lua"), (".zig", "zig"), (".nim", "nim")]

/-- The language of a file name. -/
def ofFileName? (name : List Char) : Option String :=
  byExtension.lookup (String.ofList (Path.extension name))

/-- The language of the file at a path; a backslash separates components like a slash. -/
def ofPath? (path : String) : Option String :=
  ofFileName? (Path.fileName (Text.swap '\\' '/' path.toList))

/-- The languages with a grammar: they can be parsed, the typed one after erasing its types. -/
def hasGrammar (language : String) : Bool := language == "javascript" || language == "typescript"

/-- The language to use for a file: the one asked for, unless that is empty, else by its path. -/
def choose? (asked : Option String) (path : String) : Option String :=
  match asked with
  | some tag => if tag.isEmpty then ofPath? path else some tag
  | none => ofPath? path

end CodeSurvey.Language
