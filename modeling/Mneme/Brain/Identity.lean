/-
The identity kernel of the brain: stack, name and summary from the files of a
project.  Files are read strictly; white space is that of Unicode.
-/

import Mneme.Common.Identity

namespace Mneme.Brain.Identity

open Common Common.Skills Common.Identity

def PROBES : List JsProbe :=
  [⟨"electron", "electron", .framework⟩, ⟨"react", "react", .framework⟩,
    ⟨"next", "next.js", .framework⟩, ⟨"vue", "vue", .framework⟩,
    ⟨"svelte", "svelte", .framework⟩, ⟨"solid-js", "solid", .framework⟩,
    ⟨"@tauri-apps/api", "tauri", .framework⟩, ⟨"vite", "vite", .buildTool⟩,
    ⟨"webpack", "webpack", .buildTool⟩, ⟨"esbuild", "esbuild", .buildTool⟩,
    ⟨"turbo", "turborepo", .buildTool⟩, ⟨"typescript", "typescript", .language⟩,
    ⟨"tailwindcss", "tailwind", .tooling⟩, ⟨"zustand", "zustand", .tooling⟩,
    ⟨"vitest", "vitest", .tooling⟩, ⟨"jest", "jest", .tooling⟩,
    ⟨"playwright", "playwright", .tooling⟩]

/-! ### The stack -/

def isMark (char : Char) : Bool :=
  char = '^' || char = '~'

/-- The version of a dependency, where it is a string. -/
def versionOf : Json → Option Chars
  | .string text => some (text.toList.dropWhile isMark)
  | _ => none

def detectJsFramework (deps : Json) (out : List Technology) : List Technology :=
  PROBES.foldl
    (fun out probe =>
      match member deps probe.dep with
      | none => out
      | some value => pushUnique out (probe.technology (versionOf value)))
    out

/-- The value of `package.json`, where it can be read and parsed. -/
def package (fromStr : Chars → Option Json) (root : Project) : Option Json :=
  (root.readStrict "package.json").bind fromStr

def detectNode (fromStr : Chars → Option Json) (root : Project) (out : List Technology) :
    List Technology :=
  if root.has "package.json" then
    let out := out ++ [⟨"node", none, "package.json", .runtime⟩]
    match package fromStr root with
    | none => out
    | some value =>
        let out := ((member value "dependencies").map (detectJsFramework · out)).getD out
        ((member value "devDependencies").map (detectJsFramework · out)).getD out
  else out

/-- The lines of `str::lines`: no empty line after the last line feed. -/
def lines (text : Chars) : List Chars :=
  endedLines text ++ (lastLine text).filter (· ≠ [])

/-- What follows `go ` in the first line that begins with it. -/
def goVersion : List Chars → Option Chars
  | [] => none
  | line :: rest =>
      let line := trimBoth isWhitespace line
      if "go ".toList.isPrefixOf line then some (trimBoth isWhitespace (line.drop 3))
      else goVersion rest

def readGoModVersion (root : Project) : Option Chars :=
  (root.readStrict "go.mod").bind (fun text => goVersion (lines text))

/-- A name that is not UTF-8 is passed over. -/
def dirContainsSuffix (root : Project) (ending : String) : Bool :=
  root.entries.any fun entry => (entry.strict.map ending.toList.isSuffixOf).getD false

def detectStack (fromStr : Chars → Option Json) (root : Project) : List Technology :=
  let out := detectNode fromStr root []
  let out := appendNew (root.hasAny ["bun.lockb", "bunfig.toml"])
    ⟨"bun", none, "bun.lockb", .runtime⟩ out
  let out := append (root.hasAny ["deno.json", "deno.jsonc"])
    ⟨"deno", none, "deno.json", .runtime⟩ out
  let out := detectCargo root (root.readStrict "Cargo.toml") out
  let out := append (root.has "requirements.txt")
    ⟨"python", none, "requirements.txt", .language⟩ out
  let out := appendNew (root.has "pyproject.toml")
    ⟨"python", none, "pyproject.toml", .language⟩ out
  let out := append (root.has "go.mod") ⟨"go", readGoModVersion root, "go.mod", .language⟩ out
  let out := append (root.has "Gemfile") ⟨"ruby", none, "Gemfile", .language⟩ out
  let out := append (root.has "pom.xml") ⟨"java", none, "pom.xml", .language⟩ out
  let out := append (root.hasAny ["build.gradle", "build.gradle.kts"])
    ⟨"gradle", none, "build.gradle", .buildTool⟩ out
  let out := append (root.has "composer.json") ⟨"php", none, "composer.json", .language⟩ out
  append (dirContainsSuffix root ".csproj" || dirContainsSuffix root ".sln")
    ⟨"dotnet", none, ".csproj", .runtime⟩ out

/-! ### The name -/

def isQuote (char : Char) : Bool :=
  char = '"' || char = '\''

/-- The name on a line of a `[package]` section. -/
def nameValue (line : Chars) : Option Chars :=
  if "name".toList.isPrefixOf line then
    let rest := ((line.drop 4).dropWhile isWhitespace).dropWhile (· = '=')
    let name := trimBoth isQuote (trimBoth isWhitespace rest)
    if name = [] then none else some name
  else none

def extractCargoPackageName (text : Chars) : Option Chars :=
  packageName nameValue false ((lines text).map (trimBoth isWhitespace))

/-- The name in `package.json`: a string that is not empty. -/
def packageJsonName (value : Json) : Option Chars :=
  match member value "name" with
  | some (.string text) => if text = "" then none else some text.toList
  | _ => none

def inferProjectName (fromStr : Chars → Option Json) (root : Project) : Chars :=
  ((package fromStr root).bind packageJsonName).getD
    (((root.readStrict "Cargo.toml").bind extractCargoPackageName).getD
      (((fileName root.path).map String.toList).getD "project".toList))

/-! ### The summary -/

def MAX : Nat := 500

def clamp (buf : Chars) : Chars :=
  if MAX < buf.length then buf.take MAX ++ ['…'] else buf

def firstNonHeadingParagraph (text : Chars) : Chars :=
  clamp (gather [] false ((lines text).map (trimBoth isWhitespace)))

/-- The first of the candidates that is there, even when it cannot be read. -/
def readmeText (root : Project) : Chars :=
  ((["README.md", "Readme.md", "readme.md"].find? root.has).bind root.readStrict).getD []

def readDomainSummary (root : Project) : Chars :=
  firstNonHeadingParagraph (readmeText root)

end Mneme.Brain.Identity
