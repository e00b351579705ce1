/-!
# Cutting lists of characters

Cutting at the first place where something stands, and at every place where a character stands.
-/

namespace StackDepth

namespace Text

/-- The parts between the characters that satisfy `p`; there is always at least one part. -/
def splitWith (p : Char → Bool) : List Char → List (List Char)
  | [] => [[]]
  | c :: cs =>
      if p c then [] :: splitWith p cs
      else
        match splitWith p cs with
        | [] => [[c]]
        | part :: parts => (c :: part) :: parts

/-- The parts between the occurrences of a character. -/
def splitOn (sep : Char) (cs : List Char) : List (List Char) := splitWith (· == sep) cs

/-- What stands before and after the first character that satisfies `p`. -/
def cutWith? (p : Char → Bool) : List Char → Option (List Char × List Char)
  | [] => none
  | c :: cs =>
      if p c then some ([], cs)
      else (cutWith? p cs).map fun (before, after) => (c :: before, after)

/-- Drops the first occurrence of two equal characters `c` in a row and all that follows. -/
def beforeDouble (c : Char) : List Char → List Char
  | [] => []
  | d :: cs => if d == c && cs.head? == some c then [] else d :: beforeDouble c cs

/-- The lines of a text; the last one is empty if the text ends with a line feed. -/
def lines (s : String) : List (List Char) := splitOn '\n' s.toList

/-- Texts joined by a separator. -/
def joinWith (sep : String) : List String → String
  | [] => ""
  | s :: rest => rest.foldl (fun acc t => acc ++ sep ++ t) s

/-- Texts one after the other, each followed by a line feed. -/
def unlines (ls : List String) : String := ls.foldl (fun acc l => acc ++ l ++ "\n") ""

end Text

end StackDepth
