/-
The skill matcher of the command line: its reader of headers, its tokens and its
search for a codeword.
-/

import Mneme.Common.Skills

namespace Mneme.Cli.SkillMatcher

open Common Common.Skills

def byteOrderMark : Char :=
  '\uFEFF'

def stripMark : Chars → Chars
  | first :: rest => if first = byteOrderMark then rest else first :: rest
  | [] => []

def fence : Chars :=
  ['-', '-', '-']

/-- What stands before the first fence at the start of a line.  A match of the
fence contains no line feed, so no other match hides it. -/
def beforeFence (lineStart : Bool) : Chars → Option Chars
  | [] => none
  | char :: rest =>
      if lineStart && fence.isPrefixOf (char :: rest) then some []
      else (beforeFence (char = '\n') rest).map (char :: ·)

def sliceFrontmatter (text : Chars) : Option Chars :=
  let body := stripMark text
  if (fence ++ ['\n']).isPrefixOf body then beforeFence true (body.drop 4)
  else if (fence ++ ['\r', '\n']).isPrefixOf body then beforeFence true (body.drop 5)
  else none

def isKeyChar (char : Char) : Bool :=
  isAsciiAlphanumeric char || char = '_' || char = '-'

/-- A line outside a block. -/
def readTopLine (entries : List (Chars × YamlValue)) (line : Chars) : Header :=
  let raw := line.rdropWhile (fun char => char = '\r' || char = '\t' || char = ' ')
  let trimmed := trimBoth isWhitespace raw
  if trimmed = [] ∨ trimmed.head? = some '#' then { entries }
  else if (raw.head?.map isWhitespace).getD false then { entries }
  else
    match raw.span (· ≠ ':') with
    | (_, []) => { entries }
    | (key, _ :: rest) =>
        if key.all isKeyChar && key ≠ [] then
          readValue isWhitespace entries key (trimBoth isWhitespace rest)
        else { entries }

/-- One line of `parse_tiny_yaml`. -/
def readLine (header : Header) (line : Chars) : Header :=
  match header.reading with
  | .top => readTopLine header.entries line
  | .block key isArray collected =>
      if trimBoth isWhitespace line = [] then header
      else if !(line.head?.map isWhitespace).getD false then readTopLine header.closed line
      else
        let inner := line.dropWhile isWhitespace
        -- The folded lines before the first item are dropped.
        let items := if isArray then collected else []
        if ['-', ' '].isPrefixOf inner then
          let item := stripYamlScalar isWhitespace (inner.drop 2)
          { header with reading := .block key true (items ++ [item]) }
        else if inner = ['-'] then
          { header with reading := .block key true (items ++ [[]]) }
        else if !isArray then
          { header with reading := .block key false (collected ++ [inner]) }
        else readTopLine header.closed line

def valueAsScalar : YamlValue → Chars
  | .scalar text => trimBoth isWhitespace text
  | .array items => List.intercalate [' '] items

def parseSkillFile (lower : Lowercase) (text : Chars) : Option ParsedSkill :=
  (sliceFrontmatter text).bind (fun block =>
    skillOf isWhitespace lower valueAsScalar (readHeader readLine block))

def isTokenChar (char : Char) : Bool :=
  isAsciiAlphanumeric char || char = '_' || char = '+' || char = '.' || char = '-'

def tokenize (loweredTask : Chars) : List Chars :=
  keptTokens (loweredTask.splitOnP (fun char => !isTokenChar char))

def boundary (char : Option Char) : Bool :=
  !(char.map isLowerAlphanumeric).getD false

/-- The search for one codeword, by the character before and how much of the last
match is left to skip. -/
def findCodeword (codeword : Chars) (previous : Option Char) (skip : Nat) : Chars → Bool
  | [] => false
  | char :: rest =>
      match skip with
      | skip + 1 => findCodeword codeword (some char) skip rest
      | 0 =>
          if codeword.isPrefixOf (char :: rest) then
            boundary previous && boundary ((char :: rest).drop codeword.length).head? ||
              findCodeword codeword (some char) (codeword.length - 1) rest
          else findCodeword codeword (some char) 0 rest

def codewordHit (loweredTask : Chars) : Option Chars :=
  codewords.find? (fun codeword => findCodeword codeword none 0 loweredTask)

def skillMatcher (lower : Lowercase) : Matcher :=
  { lower
    space := isWhitespace
    parse := parseSkillFile lower
    tokenize
    codewordHit }

end Mneme.Cli.SkillMatcher
