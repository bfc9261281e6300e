import SkillMarket.Toml.Scalar

/-!
Reading TOML documents.

A document is a list of lines: headers, pairs of a key and a value, comments. Each pair goes into
the table of the last header. Values and keys nest less than eighty deep.
-/

namespace SkillMarket.Toml

/-- The depth that is too deep. -/
def depthLimit : Nat := 80

/-! ## Between tokens -/

def skipBlanks (cs : List Char) : List Char := cs.dropWhile isBlank

/-- Passes over blanks, newlines and comments. -/
def skipTrivia (inComment : Bool) : List Char → List Char
  | [] => []
  | c :: rest =>
    if c = '\n' then skipTrivia false rest
    else if inComment || c = '#' then skipTrivia true rest
    else if isBlank c then skipTrivia false rest
    else c :: rest

/-- Passes over blanks and a comment to the end of the line, and past that. -/
def endLine? (cs : List Char) : Option (List Char) :=
  match skipBlanks cs with
  | [] => some []
  | '\n' :: rest => some rest
  | '#' :: rest => some (rest.dropWhile (· ≠ '\n')).tail
  | _ => none

/-! ## Keys -/

/-- The characters of a key without quotes. -/
def isBare (c : Char) : Bool := c.isAlphanum || c == '_' || c == '-'

/-- Reads one name of a key. -/
def readName : List Char → Option (String × List Char)
  | '"' :: rest => (readBasic 0 rest).map fun r => (String.ofList r.1, r.2)
  | '\'' :: rest => (readLiteral rest).map fun r => (String.ofList r.1, r.2)
  | cs =>
    let bare := cs.takeWhile isBare
    if bare.isEmpty then none else some (String.ofList bare, cs.drop bare.length)

/-- Reads the names of a key with points between them. -/
def readNames : Nat → List Char → Option (List String × List Char)
  | 0, _ => none
  | rounds + 1, cs => do
    let (name, cs) ← readName (skipBlanks cs)
    match skipBlanks cs with
    | '.' :: rest =>
      let (names, rest) ← readNames rounds rest
      return (name :: names, rest)
    | rest => return ([name], rest)

/-- A key: the names that lead to a table, and the name in it. -/
structure Key where
  path : List String
  name : String
deriving DecidableEq, Repr

/-- Reads a key. -/
def readKey (cs : List Char) : Option (Key × List Char) := do
  let (names, rest) ← readNames (depthLimit - 1) cs
  return (⟨names.dropLast, ← names.getLast?⟩, rest)

/-! ## Values -/

/-- Reads a key, an equals sign and a value. -/
def readPair (value : List Char → Option (Value × List Char)) (cs : List Char) :
    Option ((Key × Value) × List Char) := do
  let (key, cs) ← readKey cs
  let (v, cs) ← value (skipBlanks (← readMark '=' cs))
  return ((key, v), cs)

/-- Reads the items of an array, after those read so far (the last one first), and its closing
bracket. A comma may stand before the bracket. -/
def readItems (value : List Char → Option (Value × List Char)) :
    Nat → List Value → List Char → Option (List Value × List Char)
  | 0, _, _ => none
  | rounds + 1, read, cs =>
    match skipTrivia false cs with
    | ']' :: rest => some (read.reverse, rest)
    | cs => do
      let (v, cs) ← value cs
      match skipTrivia false cs with
      | ',' :: rest => readItems value rounds (v :: read) rest
      | ']' :: rest => return ((v :: read).reverse, rest)
      | _ => none

/-- Reads the members of a table in braces, in addition to those read so far, and its closing
brace. -/
def readMembers (value : List Char → Option (Value × List Char)) :
    Nat → Table → List Char → Option (Table × List Char)
  | 0, _, _ => none
  | rounds + 1, t, cs => do
    let ((key, v), cs) ← readPair value cs
    let t ← t.addDotted key.name v key.path
    match skipBlanks cs with
    | ',' :: rest => readMembers value rounds t rest
    | '\x7d' :: rest => return (t, rest)
    | _ => none

/-- Reads a value, given a reader for the values inside it, unless it may hold none. -/
def readWith (rounds : Nat) (inner : Option (List Char → Option (Value × List Char)))
    (cs : List Char) : Option (Value × List Char) :=
  match cs with
  | '[' :: rest => do
    let (items, rest) ← readItems (← inner) rounds [] rest
    return (.array items, rest)
  | '\x7b' :: rest => do
    let value ← inner
    match skipBlanks rest with
    | '\x7d' :: rest => return (.table .braces [], rest)
    | rest =>
      let (members, rest) ← readMembers value rounds [] rest
      return (.table .braces members, rest)
  | cs => readScalar cs

/-- Reads a value in which arrays and tables nest at most `depth` deep. -/
def readValue (rounds : Nat) : Nat → List Char → Option (Value × List Char)
  | 0 => readWith rounds none
  | depth + 1 => readWith rounds (some (readValue rounds depth))

/-! ## Documents -/

/-- A document so far, and the path of the table that pairs go into. -/
structure Draft where
  root : Table
  current : List String
deriving Inhabited

/-- Reads a header after its first bracket. -/
def readHeader (d : Draft) (cs : List Char) : Option (Draft × List Char) :=
  match cs with
  | '[' :: rest => do
    let (key, rest) ← readKey rest
    let rest ← readMark ']' (← readMark ']' rest)
    return (⟨← d.root.alterAt (·.openItem key.name) key.path, key.path ++ [key.name]⟩, rest)
  | rest => do
    let (key, rest) ← readKey rest
    let rest ← readMark ']' rest
    return (⟨← d.root.alterAt (·.openTable key.name) key.path, key.path ++ [key.name]⟩, rest)

/-- Reads a header or a pair. -/
def readEntry (rounds : Nat) (d : Draft) (cs : List Char) : Option (Draft × List Char) :=
  match cs with
  | '[' :: rest => readHeader d rest
  | cs => do
    let ((key, v), rest) ← readPair (readValue rounds (depthLimit - 1)) cs
    return ({ d with root := ← d.root.alterAt (·.addDotted key.name v key.path) d.current }, rest)

/-- Reads the entries of a document, each on its own lines. -/
def readEntries (size : Nat) : Nat → Draft → List Char → Option Table
  | 0, _, _ => none
  | rounds + 1, d, cs =>
    match skipTrivia false cs with
    | [] => some d.root
    | cs => do
      let (d, rest) ← readEntry size d cs
      readEntries size rounds d (← endLine? rest)

/-- Reads a document. -/
def parse? (text : List Char) : Option Table := do
  let cs ← prepare? text
  readEntries (cs.length + 1) (cs.length + 1) ⟨[], []⟩ cs

end SkillMarket.Toml
