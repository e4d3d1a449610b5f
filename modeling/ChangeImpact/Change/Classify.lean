import ChangeImpact.Change.Basic
import ChangeImpact.Path

/-!
# Classification of paths

The category of a path is the first that applies of test, documentation, configuration and source.
The language follows from the file name or from its extension. A path is CI or build configuration
if one of a few tell-tale names stands in it.
-/

namespace ChangeImpact

open Text ChangeImpact.Path

/-- Extensions of source files. -/
def sourceExtensions : List String :=
  [".ts", ".tsx", ".js", ".jsx", ".py", ".go", ".rs", ".java", ".c", ".cpp", ".h", ".rb", ".php",
    ".swift", ".kt", ".scala", ".cs", ".vue", ".svelte"]

/-- Extensions of documents. -/
def docExtensions : List String := [".md", ".mdx", ".txt", ".rst"]

/-- Names of configuration files, in lower case. -/
def configFileNames : List String :=
  ["package.json", "tsconfig.json", "turbo.json", "dockerfile", "makefile", ".gitignore", ".npmrc",
    "pnpm-workspace.yaml", "pnpm-lock.yaml", "yarn.lock", "package-lock.json"]

/-- Beginnings of the names of other configuration files, in lower case. -/
def configNameLeads : List String :=
  [".eslintrc", ".prettierrc", "webpack.config.", "vite.config.", "jest.config.", "vitest.config.",
    "docker-compose.", ".env"]

/-- Folders that hold tests. -/
def testFolders : List String := ["__tests__", "test", "tests"]

/-- A test lies in a test folder, or its name says that it is one. -/
def isTestPath (path : String) : Bool :=
  let name := fileName path
  (folders path).any testFolders.contains || mentions ".test." name || mentions ".spec." name ||
    startsWith "test" name

/-- A document has a document's extension or lies in the documentation folder. -/
def isDocPath (path : String) : Bool :=
  docExtensions.contains (extension path) || startsWith "docs/" path || startsWith "doc/" path

/-- A configuration file has a known name, or lies in the folder of the hosting service. -/
def isConfigPath (path : String) : Bool :=
  let name := lowercase (fileName path)
  startsWith ".github/" path || configFileNames.contains name ||
    configNameLeads.any fun lead => startsWith lead name

/-- The category of a path; backslashes count as slashes. -/
def categorize (path : String) : FileCategory :=
  let path := forwardSlashes path
  if isTestPath path then .test
  else if isDocPath path then .doc
  else if isConfigPath path then .config
  else if sourceExtensions.contains (extension path) then .source
  else .other

/-- Languages by extension. -/
def languageOfExtension : List (String × String) :=
  [(".ts", "typescript"), (".tsx", "typescript"), (".js", "javascript"), (".jsx", "javascript"),
    (".mjs", "javascript"), (".cjs", "javascript"), (".py", "python"), (".go", "go"),
    (".rs", "rust"), (".java", "java"), (".c", "c"), (".cpp", "cpp"), (".h", "c"),
    (".hpp", "cpp"), (".rb", "ruby"), (".php", "php"), (".swift", "swift"), (".kt", "kotlin"),
    (".scala", "scala"), (".cs", "csharp"), (".vue", "vue"), (".svelte", "svelte"),
    (".md", "markdown"), (".mdx", "markdown"), (".json", "json"), (".yaml", "yaml"),
    (".yml", "yaml"), (".toml", "toml"), (".xml", "xml"), (".html", "html"), (".css", "css"),
    (".scss", "scss"), (".less", "less"), (".sql", "sql"), (".sh", "shell"), (".bash", "shell"),
    (".zsh", "shell"), (".dockerfile", "dockerfile"), (".graphql", "graphql"),
    (".gql", "graphql"), (".proto", "protobuf"), (".txt", "text"), (".rst", "restructuredtext")]

/-- The language of a file, `unknown` if neither its name nor its extension tells. -/
def detectLanguage (path : String) : String :=
  let name := lowercase (fileName (forwardSlashes path))
  if name = "dockerfile" then "dockerfile"
  else if name = "makefile" then "makefile"
  else (languageOfExtension.lookup (extension name)).getD "unknown"

/-- Whether a name stands in a path when case is ignored; the name is in lower case. -/
def mentionsFolded (name path : String) : Bool := contains name.toList (path.toList.map foldCase)

/-- Whether a path ends with a text, or does so before a newline at its very end. -/
def endsWithLine (ending path : String) : Bool :=
  let back := path.toList.reverse
  ending.toList.reverse.isPrefixOf back ||
    match back with
    | '\n' :: rest => ending.toList.reverse.isPrefixOf rest
    | _ => false

/-- Whether a path looks like configuration of the build or of continuous integration. -/
def isBuildConfig (path : String) : Bool :=
  startsWith ".github/" path || mentionsFolded "dockerfile" path ||
    mentionsFolded "docker-compose" path || mentions "webpack.config" path ||
    mentions "vite.config" path || mentions "rollup.config" path ||
    mentions "esbuild.config" path || endsWithLine "turbo.json" path ||
    mentions ".gitlab-ci" path || mentionsFolded "jenkinsfile" path || mentions ".circleci/" path

end ChangeImpact
