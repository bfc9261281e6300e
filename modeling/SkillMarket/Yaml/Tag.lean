import SkillMarket.Yaml.Scalar

/-!
Properties of nodes, and directives: anchors, tags and their handles, versions.
-/

namespace SkillMarket.Yaml

/-! ## Anchors -/

/-- The characters that may stand directly after the name of an anchor. -/
def endsAnchor : List Char → Bool
  | [] => true
  | c :: _ => isBlank c || isBreak c || "?:,]\x7d%@\x60".toList.contains c

/-- Reads the name of an anchor or alias, after its indicator. -/
def readAnchor (c : Cursor) : Option (String × Cursor) :=
  let (name, c) := c.takeWhile isNameChar
  if name.isEmpty || !endsAnchor c.rest then none else some (String.ofList name, c)

/-! ## Tags -/

/-- A tag as it is written: a handle, which stands for the start of a tag, and the rest of it. No
handle stands for nothing. -/
structure TagText where
  handle : String
  suffix : List UInt8
deriving DecidableEq, Repr

/-- The characters of a tag that stand for themselves, besides those of names. -/
def tagChars : List Char := ";/?:@&=+$.!~*'()".toList

/-- The characters that may also stand in a tag that is written in full. -/
def fullTagChars : List Char := ",[]".toList

/-- The number of bytes of a sequence with this first byte. -/
def sequenceLength? (b : Nat) : Option Nat :=
  if b < 0x80 then some 1
  else if b / 0x20 = 6 then some 2
  else if b / 0x10 = 14 then some 3
  else if b / 8 = 30 then some 4
  else none

/-- Reads the bytes of a tag, some of which are written as two digits after a percent sign: first
those that belong to a sequence begun before, of which so many are due. -/
def readTagBytes (full : Bool) (due : Nat) (pass : Nat) (place : Place) :
    List Char → Option (List UInt8 × Cursor)
  | [] => if due = 0 then some ([], ⟨place, []⟩) else none
  | c :: rest =>
    match pass with
    | pass + 1 => readTagBytes full due pass (place.right c) rest
    | 0 =>
      if c = '%' then do
        let digits := rest.take 2
        if digits.length < 2 then none
        let byte ← hexValue? digits
        let left ← if due = 0 then (sequenceLength? byte).map (· - 1)
          else if byte / 0x40 = 2 then some (due - 1) else none
        let r ← readTagBytes full left 2 (place.right c) rest
        return (byte.toUInt8 :: r.1, r.2)
      else if due ≠ 0 then none
      else if isNameChar c || tagChars.contains c || (full && fullTagChars.contains c) then
        (readTagBytes full 0 0 (place.right c) rest).map fun r => (c.toNat.toUInt8 :: r.1, r.2)
      else some ([], ⟨place, c :: rest⟩)

/-- Reads a tag with at least one byte, after bytes that were read before. -/
def readTagRest (full : Bool) (start : List UInt8) (c : Cursor) : Option (List UInt8 × Cursor) := do
  let (bytes, c) ← readTagBytes full 0 0 c.place c.rest
  return (start ++ bytes, c)

/-- Reads what may be a handle, after its exclamation mark: a name, and whether it ends in an
exclamation mark, too. -/
def readHandle (c : Cursor) : List Char × Bool × Cursor :=
  let (name, c) := c.takeWhile isNameChar
  match c.rest with
  | '!' :: _ => (name, true, c.skip 1)
  | _ => (name, false, c)

def asciiBytes (cs : List Char) : List UInt8 := cs.map (·.toNat.toUInt8)

/-- The tag that is an exclamation mark alone. -/
def bareTag : List UInt8 := [33]

/-- A tag, and each part of it, ends before its first zero byte. -/
def untilZero (bytes : List UInt8) : List UInt8 := bytes.takeWhile (· ≠ 0)

/-- Reads a tag after its exclamation mark: in full, in angle brackets, or with a handle. -/
def readTag (inFlow : Bool) (c : Cursor) : Option (TagText × Cursor) := do
  let (tag, c) ←
    match c.rest with
    | '<' :: _ =>
      match readTagRest true [] (c.skip 1) with
      | some (b :: bytes, c) =>
        if c.rest.head? = some '>' then some (⟨"", untilZero (b :: bytes)⟩, c.skip 1) else none
      | _ => none
    | _ =>
      match readHandle c with
      | (name, true, c) =>
        match readTagRest false [] c with
        | some (b :: bytes, c) =>
          some (⟨String.ofList ('!' :: name ++ ['!']), untilZero (b :: bytes)⟩, c)
        | _ => none
      | (name, false, c) =>
        (readTagRest false (asciiBytes name) c).map fun (bytes, c) =>
          let suffix := untilZero bytes
          (if suffix.isEmpty then ⟨"", bareTag⟩ else ⟨"!", suffix⟩, c)
  if atBlank c.rest || (inFlow && c.rest.head? == some ',') then return (tag, c) else none

/-! ## Directives -/

/-- A directive of a document. -/
inductive Directive where
  | version (major minor : Nat)
  | tag (handle : String) (start : List UInt8)
deriving DecidableEq, Repr

/-- The greatest number of digits of a version. -/
def maxVersionDigits : Nat := 9

/-- Reads a number of a version. -/
def readVersionNumber (c : Cursor) : Option (Nat × Cursor) :=
  let (digits, c) := c.takeWhile Char.isDigit
  if digits.isEmpty || digits.length > maxVersionDigits then none
  else some (digits.foldl (fun n d => n * 10 + (d.toNat - 48)) 0, c)

/-- Reads a version: two numbers and a point between them. -/
def readVersion (c : Cursor) : Option (Directive × Cursor) := do
  let (major, c) ← readVersionNumber (c.skipWhile isBlank)
  if c.rest.head? ≠ some '.' then none
  let (minor, c) ← readVersionNumber (c.skip 1)
  return (.version major minor, c)

/-- Reads a handle and what it stands for. -/
def readTagDirective (c : Cursor) : Option (Directive × Cursor) := do
  let c := c.skipWhile isBlank
  if c.rest.head? ≠ some '!' then none
  let (name, closed, c) := readHandle (c.skip 1)
  if !closed && !name.isEmpty then none
  let handle := String.ofList ('!' :: name ++ if closed then ['!'] else [])
  if !c.rest.head?.any isBlank then none
  let (bytes, c) ← readTagRest true [] (c.skipWhile isBlank)
  if bytes.isEmpty || !atBlank c.rest then none
  return (.tag handle (untilZero bytes), c)

/-- Reads a directive after its percent sign, with its line. -/
def readDirective (c : Cursor) : Option (Directive × Cursor) := do
  let (name, c) := c.takeWhile isNameChar
  if name.isEmpty || !atBlank c.rest then none
  let (directive, c) ←
    if name = "YAML".toList then readVersion c
    else if name = "TAG".toList then readTagDirective c
    else none
  return (directive, ← c.endLine?)

end SkillMarket.Yaml
