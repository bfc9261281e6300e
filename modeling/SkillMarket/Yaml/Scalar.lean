import SkillMarket.Yaml.Cursor

/-!
Scalars in the flow of a text: plain ones, and ones in quotes.

The blanks and breaks between two words form a gap. A gap without a break stands for its blanks; a
single newline stands for a space, further ones for themselves.
-/

namespace SkillMarket.Yaml

/-! ## Gaps -/

/-- What has been read of a gap, the last character first: blanks alone, or a break, which may be
hidden by an escape, with further breaks. -/
inductive Gap where
  | blanks (cs : List Char)
  | broken (first : Option Char) (more : List Char)
deriving DecidableEq, Repr

def Gap.none : Gap := .blanks []

def Gap.isBroken : Gap → Bool
  | broken .. => true
  | blanks _ => false

/-- Blanks beside a break do not count. -/
def Gap.addBlank (c : Char) : Gap → Gap
  | blanks cs => blanks (c :: cs)
  | gap => gap

def Gap.addBreak (c : Char) : Gap → Gap
  | blanks _ => broken (some c) []
  | broken first more => broken first (c :: more)

/-- What a gap stands for. -/
def Gap.text : Gap → List Char
  | blanks cs => cs.reverse
  | broken (some '\n') [] => [' ']
  | broken (some '\n') more => more.reverse
  | broken (some c) more => c :: more.reverse
  | broken .none more => more.reverse

/-! ## Plain scalars -/

/-- Where a plain scalar stands: inside brackets or not, and the least column of its further
lines. -/
structure Setting where
  inFlow : Bool
  margin : Nat
deriving DecidableEq, Repr

/-- A scalar that has been read: its text, whether a line ending was read after it, and what is
left. -/
structure PlainRead where
  text : List Char
  endsLine : Bool
  next : Cursor
deriving DecidableEq, Repr

/-- The characters that may not follow a colon inside brackets. -/
def isFlowOpener (c : Char) : Bool := c == ',' || c == '?' || c == '[' || c == ']' ||
  c == '\x7b' || c == '\x7d'

/-- The characters that end a plain scalar inside brackets. -/
def isFlowEnd (c : Char) : Bool := c == ',' || c == '[' || c == ']' || c == '\x7b' || c == '\x7d'

/-- A word of a plain scalar may not begin here. -/
def endsBefore (s : Setting) (place : Place) (cs : List Char) : Bool :=
  cs.head? == some '#' || (place.column == 0 && atDocumentMark cs) ||
    (!s.inFlow && place.column < s.margin)

/-- A plain scalar ends before a colon that ends a word, and inside brackets before a bracket or a
comma. -/
def endsAt (s : Setting) (c : Char) (rest : List Char) : Bool :=
  (c == ':' && atBlank rest) || (s.inFlow && isFlowEnd c)

/-- Inside brackets a colon may not stand directly before a bracket or a comma. -/
def isMisplacedColon (s : Setting) (c : Char) (rest : List Char) : Bool :=
  s.inFlow && c == ':' && rest.head?.any isFlowOpener

/-- Reads a plain scalar, with the gap read so far. -/
def readPlain (s : Setting) (gap : Gap) (place : Place) : List Char → Option PlainRead
  | [] => some ⟨[], gap.isBroken, ⟨place, []⟩⟩
  | c :: rest =>
    if isBreak c then readPlain s (gap.addBreak c) place.down rest
    else if isBlank c then
      if gap.isBroken && place.column < s.margin && c == '\t' then none
      else readPlain s (gap.addBlank c) (place.right c) rest
    else if gap ≠ .none && endsBefore s place (c :: rest) then
      some ⟨[], gap.isBroken, ⟨place, c :: rest⟩⟩
    else if isMisplacedColon s c rest then none
    else if endsAt s c rest then some ⟨[], gap.isBroken, ⟨place, c :: rest⟩⟩
    else
      (readPlain s .none (place.right c) rest).map fun r =>
        { r with text := gap.text ++ c :: r.text }

/-! ## Scalars in single quotes -/

/-- Reads a scalar in single quotes after the opening one, with the gap read so far. Two quotes
stand for one. -/
def readSingle (gap : Gap) (place : Place) : List Char → Option (List Char × Cursor)
  | [] => none
  | '\'' :: '\'' :: rest =>
    (readSingle .none ((place.right '\'').right '\'') rest).map fun r =>
      (gap.text ++ '\'' :: r.1, r.2)
  | '\'' :: rest => some (gap.text, ⟨place.right '\'', rest⟩)
  | c :: rest =>
    if isBreak c then readSingle (gap.addBreak c) place.down rest
    else if isBlank c then readSingle (gap.addBlank c) (place.right c) rest
    else if place.column == 0 && atDocumentMark (c :: rest) then none
    else (readSingle .none (place.right c) rest).map fun r => (gap.text ++ c :: r.1, r.2)

/-! ## Scalars in double quotes -/

/-- The value of a hexadecimal digit. -/
def hexDigit? (c : Char) : Option Nat :=
  if c.isDigit then some (c.toNat - 48)
  else if 'a' ≤ c && c ≤ 'f' then some (c.toNat - 87)
  else if 'A' ≤ c && c ≤ 'F' then some (c.toNat - 55)
  else none

/-- The value of hexadecimal digits. -/
def hexValue? (digits : List Char) : Option Nat :=
  digits.foldl (fun n d => do return (← n) * 16 + (← hexDigit? d)) (some 0)

/-- The characters of the escapes that are a single letter. -/
def letterEscapes : List (Char × Char) :=
  [('0', '\x00'), ('a', '\x07'), ('b', '\x08'), ('t', '\t'), ('\t', '\t'), ('n', '\n'),
    ('v', '\x0b'), ('f', '\x0c'), ('r', '\r'), ('e', '\x1b'), (' ', ' '), ('"', '"'), ('/', '/'),
    ('\\', '\\'), ('N', '\u0085'), ('_', '\u00a0'), ('L', '\u2028'), ('P', '\u2029')]

/-- The letters of the escapes with digits, and the numbers of digits. -/
def digitEscapes : List (Char × Nat) := [('x', 2), ('u', 4), ('U', 8)]

/-- The character of a code point that is one. -/
def charOf? (n : Nat) : Option Char :=
  if n < 0xD800 || (0xDFFF < n && n ≤ 0x10FFFF) then some (Char.ofNat n) else none

/-- The character that an escape stands for, and the number of characters after the backslash. -/
def readEscape? : List Char → Option (Char × Nat)
  | [] => none
  | c :: rest =>
    match letterEscapes.lookup c with
    | some e => some (e, 1)
    | none => do
      let n ← digitEscapes.lookup c
      let digits := rest.take n
      if digits.length < n then none
      return (← charOf? (← hexValue? digits), n + 1)

/-- Reads a scalar in double quotes after the opening one, with the gap read so far and a number of
characters to be passed over. -/
def readDouble (gap : Gap) (pass : Nat) (place : Place) : List Char → Option (List Char × Cursor)
  | [] => none
  | c :: rest =>
    match pass with
    | pass + 1 => readDouble gap pass (place.right c) rest
    | 0 =>
      if isBreak c then readDouble (gap.addBreak c) 0 place.down rest
      else if isBlank c then readDouble (gap.addBlank c) 0 (place.right c) rest
      else if place.column == 0 && atDocumentMark (c :: rest) then none
      else if c == '"' then some (gap.text, ⟨place.right c, rest⟩)
      else if c == '\\' then
        match rest with
        | [] => none
        | b :: rest' =>
          if isBreak b then
            (readDouble (.broken none []) 0 place.down rest').map
              fun r => (gap.text ++ r.1, r.2)
          else do
            let (e, n) ← readEscape? (b :: rest')
            let r ← readDouble .none n (place.right c) (b :: rest')
            return (gap.text ++ e :: r.1, r.2)
      else (readDouble .none 0 (place.right c) rest).map fun r => (gap.text ++ c :: r.1, r.2)

end SkillMarket.Yaml
