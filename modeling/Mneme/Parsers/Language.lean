/-
The languages of the parse worker: their names on the wire and the mapping
from file names to languages.
-/

import Mneme.Common.Path
import Mneme.Library.Json

namespace Mneme.Parsers

open Common

inductive Language where
  | typeScript
  | tsx
  | javaScript
  | jsx
  | python
  | rust
  | go
  | java
  | c
  | cpp
  | cSharp
  | ruby
  | php
  | bash
  | json
  | lua
  | toml
  | yaml
  | markdown
  | swift
  | kotlin
  | scala
  | vue
  | svelte
  | solidity
  | julia
  | zig
  | haskell
deriving DecidableEq, Repr

namespace Language

/-- `Language::ALL`, in declaration order. -/
def all : List Language :=
  [.typeScript, .tsx, .javaScript, .jsx, .python, .rust, .go, .java, .c, .cpp, .cSharp, .ruby,
    .php, .bash, .json, .lua, .toml, .yaml, .markdown, .swift, .kotlin, .scala, .vue, .svelte,
    .solidity, .julia, .zig, .haskell]

/-- The identifier of the variant in the source. -/
def variant : Language → String
  | .typeScript => "TypeScript"
  | .tsx => "Tsx"
  | .javaScript => "JavaScript"
  | .jsx => "Jsx"
  | .python => "Python"
  | .rust => "Rust"
  | .go => "Go"
  | .java => "Java"
  | .c => "C"
  | .cpp => "Cpp"
  | .cSharp => "CSharp"
  | .ruby => "Ruby"
  | .php => "Php"
  | .bash => "Bash"
  | .json => "Json"
  | .lua => "Lua"
  | .toml => "Toml"
  | .yaml => "Yaml"
  | .markdown => "Markdown"
  | .swift => "Swift"
  | .kotlin => "Kotlin"
  | .scala => "Scala"
  | .vue => "Vue"
  | .svelte => "Svelte"
  | .solidity => "Solidity"
  | .julia => "Julia"
  | .zig => "Zig"
  | .haskell => "Haskell"

def asStr : Language → String
  | .typeScript => "typescript"
  | .tsx => "tsx"
  | .javaScript => "javascript"
  | .jsx => "jsx"
  | .python => "python"
  | .rust => "rust"
  | .go => "go"
  | .java => "java"
  | .c => "c"
  | .cpp => "cpp"
  | .cSharp => "csharp"
  | .ruby => "ruby"
  | .php => "php"
  | .bash => "bash"
  | .json => "json"
  | .lua => "lua"
  | .toml => "toml"
  | .yaml => "yaml"
  | .markdown => "markdown"
  | .swift => "swift"
  | .kotlin => "kotlin"
  | .scala => "scala"
  | .vue => "vue"
  | .svelte => "svelte"
  | .solidity => "solidity"
  | .julia => "julia"
  | .zig => "zig"
  | .haskell => "haskell"

/-- In the default build a grammar is compiled in for every language but
Vue. -/
def isEnabled : Language → Bool
  | .vue => false
  | _ => true

/-- `rename_all = "kebab-case"`: a hyphen before each capital but the first. -/
def kebabCase (identifier : String) : String :=
  match identifier.toList with
  | [] => ""
  | first :: rest =>
      String.ofList (first.toLower ::
        rest.flatMap (fun char => if char.isUpper then ['-', char.toLower] else [char]))

def serdeName (language : Language) : String :=
  kebabCase language.variant

def ofSerdeName (name : String) : Option Language :=
  all.find? (fun language => language.serdeName = name)

/-- A unit variant is read from its name, or from an object with that one
member and `null` in it. -/
def ofJson : Json → Option Language
  | .string name => ofSerdeName name
  | .object [(name, .null)] => ofSerdeName name
  | _ => none

def stripDot (ext : String) : String :=
  match ext.toList with
  | '.' :: rest => String.ofList rest
  | _ => ext

def fromExtension (ext : String) : Option Language :=
  match toAsciiLowercase (stripDot ext) with
  | "ts" | "mts" | "cts" => some .typeScript
  | "tsx" => some .tsx
  | "js" | "mjs" | "cjs" => some .javaScript
  | "jsx" => some .jsx
  | "py" | "pyi" | "pyw" => some .python
  | "rs" => some .rust
  | "go" => some .go
  | "java" => some .java
  | "c" | "h" => some .c
  | "cpp" | "cc" | "cxx" | "hpp" | "hh" | "hxx" => some .cpp
  | "cs" => some .cSharp
  | "rb" | "rake" => some .ruby
  | "php" | "phtml" => some .php
  | "sh" | "bash" | "zsh" => some .bash
  | "json" | "jsonc" => some .json
  | "lua" | "luau" => some .lua
  | "toml" => some .toml
  | "yml" | "yaml" => some .yaml
  | "md" | "mdx" | "markdown" => some .markdown
  | "swift" => some .swift
  | "kt" | "kts" => some .kotlin
  | "scala" | "sc" | "sbt" => some .scala
  | "vue" => some .vue
  | "svelte" => some .svelte
  | "sol" => some .solidity
  | "jl" => some .julia
  | "zig" => some .zig
  | "hs" | "lhs" => some .haskell
  | _ => none

/-- The file names that are recognised whatever their extension. -/
def specialFilename (name : String) : Option Language :=
  match toAsciiLowercase name with
  | "dockerfile" | ".bashrc" | ".bash_profile" | ".zshrc" | "makefile" => some .bash
  | "cargo.toml" | "pyproject.toml" => some .toml
  | "package.json" | "tsconfig.json" => some .json
  | _ => none

def fromFilename (path : Path) : Option Language :=
  match (fileName path).bind specialFilename with
  | some language => some language
  | none => (extension path).bind fromExtension

end Language

end Mneme.Parsers
