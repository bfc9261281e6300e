import SkillMarket.Yaml.BlockScalar
import SkillMarket.Yaml.Tag

/-!
Tokens of a YAML text.

Columns become tokens, too: a block collection opens where its first key or dash stands further to
the right than the collection around it, and closes where a line begins further to the left. A key
that has no indicator is recognised by the colon after it, so a lexer keeps, for each bracket level,
where a key may have begun, and puts the tokens for it there afterwards.
-/

namespace SkillMarket.Yaml

/-- A token. -/
inductive Token where
  | directive (d : Directive)
  | documentStart
  | documentEnd
  | sequenceStart
  | mappingStart
  | blockEnd
  | flowSequenceStart
  | flowSequenceEnd
  | flowMappingStart
  | flowMappingEnd
  | dash
  | comma
  | key
  | value
  | anchor (name : String)
  | alias (name : String)
  | tag (t : TagText)
  | scalar (isPlain : Bool) (text : List Char)
deriving DecidableEq, Repr

/-! ## Lexers -/

/-- A place where a key may have begun: its number among the tokens. At the margin of a block
mapping nothing but a key may begin. -/
structure PossibleKey where
  number : Nat
  place : Place
  required : Bool
deriving DecidableEq, Repr

/-- A lexer: what is left of the text, the margins of the open block collections (the least column
of what lies inside), whether a key may begin here, the possible keys of the open bracket levels
and of the block around them, and the tokens, the last one first. -/
structure Lexer where
  cursor : Cursor
  margins : List Nat
  keyAllowed : Bool
  possible : Option PossibleKey
  outer : List (Option PossibleKey)
  tokens : List Token
  count : Nat
deriving Repr

def Lexer.start (text : List Char) : Lexer := ⟨.start text, [], true, none, [], [], 0⟩

/-- Inside brackets. -/
def Lexer.inFlow (l : Lexer) : Bool := !l.outer.isEmpty

/-- The least column of what lies in the innermost block collection. -/
def Lexer.margin (l : Lexer) : Nat := l.margins.headD 0

def Lexer.column (l : Lexer) : Nat := l.cursor.place.column

def Lexer.add (l : Lexer) (t : Token) : Lexer :=
  { l with tokens := t :: l.tokens, count := l.count + 1 }

/-- Puts a token in front of the tokens from a number on. -/
def Lexer.insert (l : Lexer) (number : Nat) (t : Token) : Lexer :=
  let later := l.count - number
  { l with tokens := l.tokens.take later ++ t :: l.tokens.drop later, count := l.count + 1 }

/-- Goes past characters. -/
def Lexer.skip (l : Lexer) (n : Nat) : Lexer := { l with cursor := l.cursor.skip n }

/-! ## Block collections -/

/-- Opens a block collection at a column, if the column lies inside the one around it: puts its
token in front of those from a number on. -/
def Lexer.openBlock (l : Lexer) (column number : Nat) (t : Token) : Lexer :=
  if !l.inFlow && l.margin ≤ column then
    { l.insert number t with margins := (column + 1) :: l.margins }
  else l

/-- Closes the block collections whose margin is greater than the bound. -/
def Lexer.closeBlocks (l : Lexer) (bound : Nat) : Lexer :=
  if l.inFlow then l
  else
    let closed := l.margins.takeWhile (bound < ·)
    { l with
      margins := l.margins.dropWhile (bound < ·)
      tokens := closed.map (fun _ => .blockEnd) ++ l.tokens
      count := l.count + closed.length }

/-! ## Possible keys -/

/-- Gives up the possible key of this level, unless it is required. -/
def Lexer.giveUpKey (l : Lexer) : Option Lexer :=
  match l.possible with
  | some ⟨_, _, true⟩ => none
  | _ => some { l with possible := none }

/-- Takes note that a key may begin here. -/
def Lexer.noteKey (l : Lexer) : Option Lexer :=
  if l.keyAllowed then
    l.giveUpKey.map fun l =>
      { l with possible := some ⟨l.count, l.cursor.place, !l.inFlow && l.margin == l.column + 1⟩ }
  else some l

/-- The greatest number of bytes of a key without an indicator. -/
def maxKeyLength : Nat := 1024

/-- The key cannot end here: it would go over a line or be too long. -/
def PossibleKey.isStale (k : PossibleKey) (here : Place) : Bool :=
  k.place.line < here.line || k.place.bytes + maxKeyLength < here.bytes

/-- Gives up a key that is stale, unless it is required. -/
def dropStaleKey (here : Place) : Option PossibleKey → Option (Option PossibleKey)
  | none => some none
  | some k => if !k.isStale here then some (some k) else if k.required then none else some none

/-- Gives up the stale keys of all levels. -/
def Lexer.dropStaleKeys (l : Lexer) : Option Lexer := do
  let here := l.cursor.place
  return { l with
    possible := ← dropStaleKey here l.possible
    outer := ← l.outer.mapM (dropStaleKey here) }

/-! ## Between tokens -/

/-- Where the next token begins, and whether a key may begin there: blanks, comments, breaks and a
byte-order mark at the start of a line are passed over. In a block a key may begin on a new line,
and a tab may not stand before one. -/
def skipGap (inFlow : Bool) (inComment keyAllowed : Bool) (place : Place) :
    List Char → Cursor × Bool
  | [] => (⟨place, []⟩, keyAllowed)
  | c :: rest =>
    if isBreak c then skipGap inFlow false (keyAllowed || !inFlow) place.down rest
    else if inComment || c == '#' then skipGap inFlow true keyAllowed (place.right c) rest
    else if c == ' ' || (c == '\t' && (inFlow || !keyAllowed)) ||
        (c == '\uFEFF' && place.column == 0) then
      skipGap inFlow false keyAllowed (place.right c) rest
    else (⟨place, c :: rest⟩, keyAllowed)

def Lexer.skipGap (l : Lexer) : Lexer :=
  let (cursor, keyAllowed) :=
    Yaml.skipGap l.inFlow false l.keyAllowed l.cursor.place l.cursor.rest
  { l with cursor := cursor, keyAllowed := keyAllowed }

/-! ## Taking tokens -/

/-- Takes a token that stands for a part of the document: it closes all blocks. -/
def Lexer.takeMark (l : Lexer) (t : Token) (next : Cursor) : Option Lexer :=
  (l.closeBlocks 0).giveUpKey.map fun l =>
    { (l.add t) with cursor := next, keyAllowed := false }

/-- Takes an opening bracket. -/
def Lexer.takeOpening (l : Lexer) (t : Token) : Option Lexer :=
  l.noteKey.map fun l =>
    { (l.add t).skip 1 with possible := none, outer := l.possible :: l.outer, keyAllowed := true }

/-- Takes a closing bracket. -/
def Lexer.takeClosing (l : Lexer) (t : Token) : Option Lexer :=
  l.giveUpKey.map fun l =>
    { (l.add t).skip 1 with
      possible := l.outer.headD l.possible
      outer := l.outer.tail
      keyAllowed := false }

/-- Takes a comma. -/
def Lexer.takeComma (l : Lexer) : Option Lexer :=
  l.giveUpKey.map fun l => { (l.add .comma).skip 1 with keyAllowed := true }

/-- Takes the dash of a sequence, which may open it. -/
def Lexer.takeDash (l : Lexer) : Option Lexer :=
  if !l.inFlow && !l.keyAllowed then none
  else
    (l.openBlock l.column l.count .sequenceStart).giveUpKey.map fun l =>
      { (l.add .dash).skip 1 with keyAllowed := true }

/-- Takes the indicator of a key, which may open a mapping. -/
def Lexer.takeKey (l : Lexer) : Option Lexer :=
  if !l.inFlow && !l.keyAllowed then none
  else
    (l.openBlock l.column l.count .mappingStart).giveUpKey.map fun l =>
      { (l.add .key).skip 1 with keyAllowed := !l.inFlow }

/-- Takes the colon before a value. If a key may have begun before, it has. -/
def Lexer.takeValue (l : Lexer) : Option Lexer :=
  match l.possible with
  | some k =>
    let l := (l.insert k.number .key).openBlock k.place.column k.number .mappingStart
    some { (l.add .value).skip 1 with possible := none, keyAllowed := false }
  | none =>
    if !l.inFlow && !l.keyAllowed then none
    else
      let l := l.openBlock l.column l.count .mappingStart
      some { (l.add .value).skip 1 with keyAllowed := !l.inFlow }

/-- Takes a token that may begin a key, with what is left after it. -/
def Lexer.takeNode (l : Lexer) (read : Option (Token × Cursor)) : Option Lexer := do
  let l ← l.noteKey
  let (t, next) ← read
  return { l.add t with cursor := next, keyAllowed := false }

/-- Takes a plain scalar. A key may begin after it if it was ended by a line ending. -/
def Lexer.takePlain (l : Lexer) : Option Lexer := do
  let l ← l.noteKey
  let r ← readPlain ⟨l.inFlow, l.margin⟩ .none l.cursor.place l.cursor.rest
  return { l.add (.scalar true r.text) with cursor := r.next, keyAllowed := r.endsLine }

/-- Takes a block scalar. -/
def Lexer.takeBlock (l : Lexer) (style : BlockStyle) (size : Nat) : Option Lexer := do
  let l ← l.giveUpKey
  let (text, next) ← readBlock style l.margin size (l.cursor.skip 1)
  return { l.add (.scalar false text) with cursor := next, keyAllowed := true }

/-- The characters that stand for themselves wherever a token begins with them. -/
def isIndicator (c : Char) : Bool := "-?:,[]\x7b\x7d#&*!|>'\"%@\x60".toList.contains c

/-- A plain scalar may begin with this character. -/
def beginsPlain (inFlow : Bool) (c : Char) (rest : List Char) : Bool :=
  !(isBlank c || isBreak c || isIndicator c) || (c == '-' && !rest.head?.any isBlank) ||
    (!inFlow && (c == '?' || c == ':') && !atBlank rest)

/-- Takes the token that begins with a character. -/
def Lexer.take (l : Lexer) (size : Nat) (c : Char) (rest : List Char) : Option Lexer :=
  let after := l.cursor.skip 1
  if l.column == 0 && c == '%' then do
    let (d, next) ← readDirective after
    l.takeMark (.directive d) next
  else if l.column == 0 && atDocumentMark (c :: rest) then
    l.takeMark (if c == '-' then .documentStart else .documentEnd) (l.cursor.skip 3)
  else if c == '[' then l.takeOpening .flowSequenceStart
  else if c == '\x7b' then l.takeOpening .flowMappingStart
  else if c == ']' then l.takeClosing .flowSequenceEnd
  else if c == '\x7d' then l.takeClosing .flowMappingEnd
  else if c == ',' then l.takeComma
  else if c == '-' && atBlank rest then l.takeDash
  else if c == '?' && (l.inFlow || atBlank rest) then l.takeKey
  else if c == ':' && (l.inFlow || atBlank rest) then l.takeValue
  else if c == '*' then l.takeNode ((readAnchor after).map fun r => (.alias r.1, r.2))
  else if c == '&' then l.takeNode ((readAnchor after).map fun r => (.anchor r.1, r.2))
  else if c == '!' then l.takeNode ((readTag l.inFlow after).map fun r => (.tag r.1, r.2))
  else if c == '|' && !l.inFlow then l.takeBlock .literal size
  else if c == '>' && !l.inFlow then l.takeBlock .folded size
  else if c == '\'' then
    l.takeNode ((readSingle .none after.place rest).map fun r => (.scalar false r.1, r.2))
  else if c == '"' then
    l.takeNode ((readDouble .none 0 after.place rest).map fun r => (.scalar false r.1, r.2))
  else if beginsPlain l.inFlow c rest then l.takePlain
  else none

/-- Ends at the end of the text: closes all blocks. -/
def Lexer.finish (l : Lexer) : Option Lexer := (l.closeBlocks 0).giveUpKey

/-- Takes all tokens. Each round takes a character at least, so that one round more than the size
of the text is enough. -/
def Lexer.run (size : Nat) : Nat → Lexer → Option Lexer
  | 0, _ => none
  | rounds + 1, l => do
    let l ← l.skipGap.dropStaleKeys
    let l := l.closeBlocks (l.column + 1)
    match l.cursor.rest with
    | [] => l.finish
    | c :: rest => Lexer.run size rounds (← l.take size c rest)

/-- The tokens of a prepared text. -/
def Token.ofText? (text : List Char) : Option (List Token) :=
  ((Lexer.start text).run text.length (text.length + 1)).map (·.tokens.reverse)

end SkillMarket.Yaml
