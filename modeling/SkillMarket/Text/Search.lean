/-!
Looking for phrases and patterns in a text.

A pattern is a list of tests, one for each character of a match.
-/

namespace SkillMarket.Text

/-- The phrase stands somewhere in the text. -/
def occurs (phrase : List Char) : List Char → Bool
  | [] => phrase.isEmpty
  | c :: rest => phrase.isPrefixOf (c :: rest) || occurs phrase rest

/-- Some tail of the text satisfies the test. -/
def someTail (test : List Char → Bool) : List Char → Bool
  | [] => test []
  | c :: rest => test (c :: rest) || someTail test rest

theorem occurs_eq_someTail (phrase cs : List Char) :
    occurs phrase cs = someTail phrase.isPrefixOf cs := by
  induction cs with
  | nil => cases phrase <;> simp [occurs, someTail]
  | cons c rest ih => simp [occurs, someTail, ih]

/-! ## Patterns -/

/-- Tests for the characters of a match, in order. -/
abbrev Pattern := List (Char → Bool)

/-- The text begins with a match. -/
def Pattern.begins : Pattern → List Char → Bool
  | [], _ => true
  | _ :: _, [] => false
  | test :: tests, c :: rest => test c && Pattern.begins tests rest

/-- The pattern has a match somewhere in the text. -/
def Pattern.occurs (p : Pattern) (cs : List Char) : Bool := someTail p.begins cs

/-- The pattern of a phrase in lower-case letters of ASCII, written in any case. -/
def anyCase (phrase : List Char) : Pattern :=
  phrase.map fun c d => d == c || d == c.toUpper || (c == 's' && d == '\u017F') ||
    (c == 'k' && d == '\u212A')

/-! ## Counting matches -/

/-- The number of matches, where `length?` is the length of the match that a text begins with. The
search goes on after each match; `pass` characters still belong to the match before. -/
def countMatches (length? : List Char → Option Nat) (pass : Nat) : List Char → Nat
  | [] => 0
  | c :: rest =>
    match pass with
    | pass + 1 => countMatches length? pass rest
    | 0 =>
      match length? (c :: rest) with
      | some (n + 1) => countMatches length? n rest + 1
      | _ => countMatches length? 0 rest

end SkillMarket.Text
