/-
Text operations of the standard library, on the characters of a string.
-/

import Mathlib.Data.List.Basic

namespace Mneme.Common

/-- The Unicode property White_Space. -/
def isWhitespace (char : Char) : Bool :=
  (9 ≤ char.toNat && char.toNat ≤ 13) || char.toNat = 0x20 || char.toNat = 0x85 ||
    char.toNat = 0xA0 || char.toNat = 0x1680 || (0x2000 ≤ char.toNat && char.toNat ≤ 0x200A) ||
    char.toNat = 0x2028 || char.toNat = 0x2029 || char.toNat = 0x202F || char.toNat = 0x205F ||
    char.toNat = 0x3000

/-- Drop the characters at both ends that satisfy a test. -/
def trimMatches (test : Char → Bool) (text : String) : String :=
  String.ofList (((text.toList.dropWhile test).reverse.dropWhile test).reverse)

def trim (text : String) : String :=
  trimMatches isWhitespace text

/-- The first of the lines of a text, without its line ending. -/
def firstLine (text : String) : Option String :=
  match text.toList with
  | [] => none
  | chars =>
      let line := chars.takeWhile (fun char => char ≠ '\n')
      -- A carriage return belongs to the ending only where a newline follows.
      if line.length < chars.length ∧ line.getLast? = some '\r' then
        some (String.ofList line.dropLast)
      else some (String.ofList line)

example : trim " a b\t\n" = "a b" := by decide

end Mneme.Common
