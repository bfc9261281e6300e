/-!
Places in a YAML text.

A text is prepared first: it must hold printable characters only, and line endings become single
characters. A cursor is the text that is left with the place where it begins.
-/

namespace SkillMarket.Yaml

/-! ## Characters -/

/-- The characters that a text may hold. -/
def isPrintable (c : Char) : Bool :=
  let n := c.toNat
  n == 0x9 || n == 0xA || n == 0xD || (0x20 ≤ n && n ≤ 0x7E) || n == 0x85 ||
    (0xA0 ≤ n && n ≤ 0xD7FF) || (0xE000 ≤ n && n ≤ 0xFFFD) || 0x10000 ≤ n

/-- The characters that end a line of a prepared text. -/
def isBreak (c : Char) : Bool := c == '\n' || c == '\u2028' || c == '\u2029'

def isBlank (c : Char) : Bool := c == ' ' || c == '\t'

/-- The characters of names: anchors, directives and tag handles. -/
def isNameChar (c : Char) : Bool := c.isAlphanum || c == '_' || c == '-'

/-- The text begins with a blank or a break, or is at its end. -/
def atBlank : List Char → Bool
  | [] => true
  | c :: _ => isBlank c || isBreak c

/-- The text begins with a break or is at its end. -/
def atBreak : List Char → Bool
  | [] => true
  | c :: _ => isBreak c

/-- The text begins with the mark of a document's start or end. -/
def atDocumentMark : List Char → Bool
  | '-' :: '-' :: '-' :: rest => atBlank rest
  | '.' :: '.' :: '.' :: rest => atBlank rest
  | _ => false

/-! ## Preparing a text -/

/-- Writes the line endings of two characters, and those that stand for a newline, as newlines. -/
def unifyBreaks : List Char → List Char
  | [] => []
  | '\r' :: '\n' :: rest => '\n' :: unifyBreaks rest
  | '\r' :: rest => '\n' :: unifyBreaks rest
  | '\u0085' :: rest => '\n' :: unifyBreaks rest
  | c :: rest => c :: unifyBreaks rest

/-- The text to be read, if all its characters are allowed. -/
def prepare? (text : List Char) : Option (List Char) :=
  if text.all isPrintable then some (unifyBreaks text) else none

/-! ## Cursors -/

/-- A line and a column, with the number of bytes in front of it on the line. -/
structure Place where
  line : Nat
  column : Nat
  bytes : Nat
deriving DecidableEq, Repr

/-- Goes past a character of the line. -/
def Place.right (p : Place) (c : Char) : Place := ⟨p.line, p.column + 1, p.bytes + c.utf8Size⟩

/-- Goes past a break. -/
def Place.down (p : Place) : Place := ⟨p.line + 1, 0, 0⟩

/-- The text that is left, and where it begins. -/
structure Cursor where
  place : Place
  rest : List Char
deriving DecidableEq, Repr

/-- The start of a text. -/
def Cursor.start (text : List Char) : Cursor := ⟨⟨0, 0, 0⟩, text⟩

/-- Goes past characters of one line. -/
def Cursor.skip (c : Cursor) (n : Nat) : Cursor :=
  ⟨(c.rest.take n).foldl .right c.place, c.rest.drop n⟩

/-- Takes the characters of one line that satisfy a test. -/
def Cursor.takeWhile (c : Cursor) (test : Char → Bool) : List Char × Cursor :=
  let taken := c.rest.takeWhile test
  (taken, c.skip taken.length)

/-- Goes past the characters of one line that satisfy a test. -/
def Cursor.skipWhile (c : Cursor) (test : Char → Bool) : Cursor := (c.takeWhile test).2

/-- Goes past a break, if there is one. -/
def Cursor.skipBreak (c : Cursor) : Cursor :=
  match c.rest with
  | b :: rest => if isBreak b then ⟨c.place.down, rest⟩ else c
  | [] => c

/-- Goes past a comment, if there is one. -/
def Cursor.skipComment (c : Cursor) : Cursor :=
  match c.rest with
  | '#' :: _ => c.skipWhile (!isBreak ·)
  | _ => c

/-- Goes past blanks and a comment to the end of the line, and past that, if nothing else is on
the line. -/
def Cursor.endLine? (c : Cursor) : Option Cursor :=
  let c := (c.skipWhile isBlank).skipComment
  if atBreak c.rest then some c.skipBreak else none

end SkillMarket.Yaml
