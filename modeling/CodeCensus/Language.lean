import CodeCensus.Text.Fold

/-!
# Language labels

The label under which a file is counted, found from the extension of its name.
-/

namespace CodeCensus.Language

/-- The label of a file whose extension is not in the table. -/
def other : String := "Other"

/-- The label of each known extension, in lower case and without its dot. -/
def table : List (String × String) :=
  [("ts", "TypeScript"), ("tsx", "TypeScript"),
    ("js", "JavaScript"), ("jsx", "JavaScript"), ("mjs", "JavaScript"), ("cjs", "JavaScript"),
    ("py", "Python"), ("rb", "Ruby"), ("java", "Java"), ("kt", "Kotlin"), ("go", "Go"),
    ("rs", "Rust"), ("c", "C"), ("cpp", "C++"), ("cc", "C++"), ("h", "C/C++ Header"),
    ("hpp", "C++ Header"), ("cs", "C#"), ("php", "PHP"), ("swift", "Swift"), ("scala", "Scala"),
    ("vue", "Vue"), ("svelte", "Svelte"), ("html", "HTML"), ("htm", "HTML"), ("css", "CSS"),
    ("scss", "SCSS"), ("sass", "Sass"), ("less", "Less"), ("json", "JSON"), ("yaml", "YAML"),
    ("yml", "YAML"), ("xml", "XML"), ("md", "Markdown"), ("sql", "SQL"), ("sh", "Shell"),
    ("bash", "Shell"), ("zsh", "Shell"), ("ps1", "PowerShell"), ("r", "R"), ("lua", "Lua"),
    ("dart", "Dart"), ("ex", "Elixir"), ("exs", "Elixir"), ("erl", "Erlang"), ("hs", "Haskell"),
    ("clj", "Clojure"), ("elm", "Elm"), ("graphql", "GraphQL"), ("gql", "GraphQL"),
    ("proto", "Protocol Buffers"), ("tf", "Terraform"), ("dockerfile", "Dockerfile")]

/-- The label of an extension, with or without its leading dots and whatever its case. -/
def ofExtension (extension : String) : String :=
  let bare := String.ofList (extension.toList.dropWhile (· == '.'))
  (table.lookup (Text.fold bare)).getD other

end CodeCensus.Language
