import SkillMarket.Yaml.Cursor

/-!
Block scalars: a header, and lines that are indented alike.

Breaks are kept, or folded: a newline between two lines that do not begin with a blank stands for a
space. What becomes of the breaks at the end is said in the header.
-/

namespace SkillMarket.Yaml

/-- Breaks are kept or folded. -/
inductive BlockStyle where
  | literal
  | folded
deriving DecidableEq, Repr

/-- What becomes of the breaks at the end: none is kept, one, or all. -/
inductive Chomping where
  | strip
  | clip
  | keep
deriving DecidableEq, Repr

/-- What the header of a block scalar says; an indentation of zero is to be found out. -/
structure BlockHeader where
  chomping : Chomping
  indentation : Nat
deriving DecidableEq, Repr

/-! ## Headers -/

def chomping? (c : Char) : Option Chomping :=
  if c = '+' then some .keep else if c = '-' then some .strip else none

/-- An indentation is a digit, but not zero. -/
def indentation? (c : Char) : Option Nat :=
  if c.isDigit && c ≠ '0' then some (c.toNat - 48) else none

/-- Reads the header: a sign and a digit in either order, each of which may be missing. -/
def readHeader (c : Cursor) : Option (BlockHeader × Cursor) :=
  match c.rest with
  | a :: rest =>
    match chomping? a with
    | some chomping =>
      match rest with
      | b :: _ =>
        if b.isDigit then (indentation? b).map fun n => (⟨chomping, n⟩, c.skip 2)
        else some (⟨chomping, 0⟩, c.skip 1)
      | [] => some (⟨chomping, 0⟩, c.skip 1)
    | none =>
      if a.isDigit then do
        let n ← indentation? a
        match rest.head?.bind chomping? with
        | some chomping => return (⟨chomping, n⟩, c.skip 2)
        | none => return (⟨.clip, n⟩, c.skip 1)
      else some (⟨.clip, 0⟩, c)
  | [] => some (⟨.clip, 0⟩, c)

/-! ## Lines -/

/-- The breaks of empty lines, the greatest column reached on them, and where the next line
begins. -/
structure EmptyLines where
  breaks : List Char
  widest : Nat
  next : Cursor
deriving DecidableEq, Repr

/-- Passes over the indentation, no further than given, and over empty lines. An indentation of
zero sets no bound. A tab may not stand in the indentation. -/
def readEmptyLines (indentation : Nat) (place : Place) : List Char → Option EmptyLines
  | [] => some ⟨[], place.column, ⟨place, []⟩⟩
  | c :: rest =>
    let inside := indentation == 0 || place.column < indentation
    if inside && c == ' ' then readEmptyLines indentation (place.right c) rest
    else if inside && c == '\t' then none
    else if isBreak c then
      (readEmptyLines indentation place.down rest).map fun r =>
        { r with breaks := c :: r.breaks, widest := max r.widest place.column }
    else some ⟨[], place.column, ⟨place, c :: rest⟩⟩

/-- What stands before the next line: the break of the line before, whether that line begins with a
blank, and the breaks of empty lines. -/
structure Between where
  lineBreak : List Char
  afterBlank : Bool
  breaks : List Char
deriving DecidableEq, Repr

/-- What stands in the text for the breaks before a line. -/
def Between.text (style : BlockStyle) (b : Between) (beforeBlank : Bool) : List Char :=
  if style = .folded && b.lineBreak.head? == some '\n' && !b.afterBlank && !beforeBlank then
    (if b.breaks.isEmpty then [' '] else []) ++ b.breaks
  else b.lineBreak ++ b.breaks

/-- What stands in the text for the breaks at the end. -/
def Between.tail (chomping : Chomping) (b : Between) : List Char :=
  match chomping with
  | .strip => []
  | .clip => b.lineBreak
  | .keep => b.lineBreak ++ b.breaks

/-- Reads the lines that begin at the indentation. The number of rounds is at most the number of
lines. -/
def readBlockLines (style : BlockStyle) (chomping : Chomping) (indentation : Nat) :
    Nat → Between → Cursor → Option (List Char × Cursor)
  | 0, _, _ => none
  | rounds + 1, between, c =>
    if c.place.column ≠ indentation || c.rest.isEmpty then some (between.tail chomping, c)
    else do
      let blank := c.rest.head?.any isBlank
      let (line, c) := c.takeWhile (!isBreak ·)
      let lines ← readEmptyLines indentation c.skipBreak.place c.skipBreak.rest
      let r ← readBlockLines style chomping indentation rounds
        ⟨c.rest.take 1, blank, lines.breaks⟩ lines.next
      return (between.text style blank ++ line ++ r.1, r.2)

/-- Reads a block scalar after its indicator, inside a block whose content begins at the margin.
The size is that of the text. -/
def readBlock (style : BlockStyle) (margin size : Nat) (c : Cursor) :
    Option (List Char × Cursor) := do
  let (header, c) ← readHeader c
  let c ← c.endLine?
  let given := if header.indentation = 0 then 0 else margin - 1 + header.indentation
  let lines ← readEmptyLines given c.place c.rest
  let indentation := if given = 0 then max lines.widest (max margin 1) else given
  readBlockLines style header.chomping indentation (size + 1) ⟨[], false, lines.breaks⟩ lines.next

end SkillMarket.Yaml
