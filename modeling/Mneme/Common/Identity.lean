/-
The identity of a project, as far as the brain and the tools share it.

A project is told by a few files at its root.  The technologies are appended one
after the other; the name and the summary are read line by line, with the lines
and the white space each side knows.
-/

import Mathlib.Data.List.Infix
import Mneme.Common.Path
import Mneme.Common.Skills
import Mneme.Library.Json

namespace Mneme.Common.Identity

open Skills

/-! ### What is on disk -/

/-- The bytes of a file or of a name: a text, or what a lenient decoder makes of
bytes that are none. -/
inductive Octets where
  | text (chars : Chars)
  | invalid (lenient : Chars)

def Octets.strict : Octets → Option Chars
  | .text chars => some chars
  | .invalid _ => none

def Octets.lenient : Octets → Chars
  | .text chars => chars
  | .invalid chars => chars

/-- The root of a project.  A file may be absent, there but unreadable, or read. -/
structure Project where
  path : String
  file : String → Option (Option Octets)
  entries : List Octets

namespace Project

def has (project : Project) (name : String) : Bool :=
  (project.file name).isSome

def hasAny (project : Project) (names : List String) : Bool :=
  names.any project.has

/-- A read that refuses what is not UTF-8. -/
def readStrict (project : Project) (name : String) : Option Chars :=
  (project.file name).join.bind Octets.strict

/-- A read that replaces what is not UTF-8. -/
def readLenient (project : Project) (name : String) : Option Chars :=
  (project.file name).join.map Octets.lenient

end Project

/-! ### Technologies -/

inductive TechCategory where
  | language
  | runtime
  | framework
  | buildTool
  | tooling
deriving DecidableEq

structure Technology where
  name : String
  version : Option Chars
  marker : String
  category : TechCategory
deriving DecidableEq

def pushUnique (out : List Technology) (tech : Technology) : List Technology :=
  if tech.name ∈ out.map Technology.name then out else out ++ [tech]

variable {out : List Technology}

theorem pushUnique_known {tech : Technology}
    (known : tech.name ∈ out.map Technology.name) : pushUnique out tech = out :=
  if_pos known

theorem pushUnique_fresh {tech : Technology}
    (fresh : tech.name ∉ out.map Technology.name) : pushUnique out tech = out ++ [tech] :=
  if_neg fresh

/-- A technology shown by a marker. -/
def append (present : Bool) (tech : Technology) (out : List Technology) : List Technology :=
  if present then out ++ [tech] else out

def appendNew (present : Bool) (tech : Technology) (out : List Technology) : List Technology :=
  if present then pushUnique out tech else out

def mentions (text : Option Chars) (word : String) : Bool :=
  (text.map (fun text => decide (word.toList <:+: text))).getD false

/-- What a Cargo manifest shows, by the text a side reads from it. -/
def detectCargo (root : Project) (text : Option Chars) (out : List Technology) :
    List Technology :=
  if root.has "Cargo.toml" then
    let out := out ++ [⟨"rust", none, "Cargo.toml", .language⟩]
    let out := appendNew (mentions text "tauri") ⟨"tauri", none, "Cargo.toml", .framework⟩ out
    appendNew (mentions text "tokio") ⟨"tokio", none, "Cargo.toml", .framework⟩ out
  else out

/-- A dependency whose presence shows a technology. -/
structure JsProbe where
  dep : String
  name : String
  category : TechCategory

def JsProbe.technology (probe : JsProbe) (version : Option Chars) : Technology :=
  { name := probe.name, version, marker := "package.json", category := probe.category }

/-- The value of a member, in an object that has it. -/
def member (value : Json) (name : String) : Option Json :=
  match value with
  | .object fields => fields.lookup name
  | _ => none

/-! ### Lines -/

def stripReturn (line : Chars) : Chars :=
  if line.getLast? = some '\r' then line.dropLast else line

/-- The lines that a line feed ends, and what follows the last of them. -/
def endedLines (text : Chars) : List Chars :=
  (text.splitOn '\n').dropLast.map stripReturn

def lastLine (text : Chars) : List Chars :=
  (text.splitOn '\n').getLast?.toList

/-! ### The first paragraph -/

def opensBlock (line : Chars) : Bool :=
  "<".toList.isPrefixOf line && !"</".toList.isPrefixOf line

def closesBlock (line : Chars) : Bool :=
  "</".toList.isPrefixOf line ||
    (line.getLast? = some '>' && decide ("</".toList <:+: line))

/-- Headings, rules and lines with nothing but a badge. -/
def isSkipped (line : Chars) : Bool :=
  "#".toList.isPrefixOf line || "---".toList.isPrefixOf line ||
    ("![".toList.isPrefixOf line || "[!".toList.isPrefixOf line) ||
    ("[".toList.isPrefixOf line && line.getLast? = some ')' &&
      !decide (". ".toList <:+: line))

def joinLine (buf line : Chars) : Chars :=
  if buf = [] then line else buf ++ ' ' :: line

/-- The loop over the trimmed lines, with the text gathered so far and whether the
scan is inside a block. -/
def gather (buf : Chars) (inside : Bool) : List Chars → Chars
  | [] => buf
  | line :: rest =>
      if inside || opensBlock line then gather buf (!closesBlock line) rest
      else if line = [] then
        if buf = [] then gather buf false rest else buf
      else if isSkipped line then gather buf false rest
      else gather (joinLine buf line) false rest

/-! ### The name in a Cargo manifest -/

/-- The first value in the lines of a `[package]` section. -/
def packageName (value : Chars → Option Chars) (inPackage : Bool) : List Chars → Option Chars
  | [] => none
  | line :: rest =>
      if "[".toList.isPrefixOf line then packageName value (line = "[package]".toList) rest
      else if inPackage then (value line).or (packageName value inPackage rest)
      else packageName value inPackage rest

end Mneme.Common.Identity
