/-!
Lines of a text.

`lines` splits at newlines; a carriage return before a newline belongs to the line ending, and a
text that ends in a newline has no empty last line. `normalizeNewlines` writes every line ending
as one newline.
-/

namespace SkillMarket.Text

/-- The lines of a text, without their endings. -/
def lines : List Char → List (List Char)
  | [] => []
  | '\n' :: rest => [] :: lines rest
  | '\r' :: '\n' :: rest => [] :: lines rest
  | c :: rest =>
    match lines rest with
    | [] => [[c]]
    | line :: more => (c :: line) :: more

/-- Puts lines together with newlines between them. -/
def joinLines (ls : List (List Char)) : List Char := ['\n'].intercalate ls

/-- Writes a carriage return, alone or before a newline, as a newline. -/
def normalizeNewlines : List Char → List Char
  | [] => []
  | '\r' :: '\n' :: rest => '\n' :: normalizeNewlines rest
  | '\r' :: rest => '\n' :: normalizeNewlines rest
  | c :: rest => c :: normalizeNewlines rest

/-- The number of newlines. -/
def countNewlines (cs : List Char) : Nat := cs.count '\n'

/-- The parts between the occurrences of a character. -/
def splitAll (sep : Char) : List Char → List (List Char)
  | [] => [[]]
  | c :: rest =>
    if c = sep then [] :: splitAll sep rest
    else match splitAll sep rest with
      | [] => [[c]]
      | part :: parts => (c :: part) :: parts

/-- Splits at the first occurrence of a character, which belongs to neither part. -/
def splitOnce (sep : Char) (cs : List Char) : Option (List Char × List Char) :=
  match cs.dropWhile (· ≠ sep) with
  | [] => none
  | _ :: after => some (cs.takeWhile (· ≠ sep), after)

end SkillMarket.Text
