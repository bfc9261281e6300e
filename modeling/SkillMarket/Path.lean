import SkillMarket.Text.Lines

/-!
Paths as texts.

A path is taken apart into a root, names and `..`; repeated slashes, a slash at the end and `.` do
not count, but for `.` at the start. Nothing is ever normalised: what `parent?` gives is the start
of the text it is given.
-/

namespace SkillMarket.Path

/-- A part of a path. -/
inductive Part where
  | root
  | here
  | up
  | name (text : String)
deriving DecidableEq, Repr

/-- The text starts at the root. -/
def isAbsolute (path : String) : Bool := path.toList.head? == some '/'

def endsInSlash (path : String) : Bool := path.toList.getLast? == some '/'

/-- Goes on from a path with another one. An absolute path starts anew; else one slash stands
between the two. -/
def join (base path : String) : String :=
  if isAbsolute path then path
  else if base = "" || endsInSlash base then base ++ path
  else base ++ "/" ++ path

/-! ## Parts -/

/-- The root or the `.` at the start of a path. -/
def start : List Char → List Char
  | '/' :: _ => ['/']
  | ['.'] => ['.']
  | '.' :: '/' :: _ => ['.']
  | _ => []

/-- The texts between the slashes after the start. -/
def pieces (cs : List Char) : List (List Char) :=
  Text.splitAll '/' (cs.drop (start cs).length)

/-- Pieces that count. -/
def counts (piece : List Char) : Bool := piece ≠ [] && piece ≠ ['.']

def Part.ofPiece (piece : List Char) : Part :=
  if piece = ['.', '.'] then .up else .name (String.ofList piece)

/-- The parts of a path, in order. -/
def parts (path : String) : List Part :=
  (match start path.toList with
    | ['/'] => [.root]
    | ['.'] => [.here]
    | _ => []) ++
  ((pieces path.toList).filter counts).map Part.ofPiece

/-- Two texts for the same path. -/
def same (a b : String) : Bool := parts a == parts b

/-- The path without its last part. -/
def parent? (path : String) : Option String :=
  let cs := path.toList
  match (pieces cs).reverse.dropWhile (!counts ·) with
  | [] => if start cs = ['.'] then some "" else none
  | _ :: before =>
    let kept := (before.dropWhile (!counts ·)).reverse
    some (String.ofList (start cs ++ ['/'].intercalate kept))

/-- The last part, if it is a name. -/
def fileName? (path : String) : Option String :=
  match (parts path).getLast? with
  | some (.name text) => some text
  | _ => none

/-- The path with another last name, or with one more if it does not end in a name. -/
def withFileName (path name : String) : String :=
  join (if (fileName? path).isSome then (parent? path).getD "" else path) name

/-! ## Absolute paths -/

/-- The text of a part inside a path. -/
def Part.text : Part → String
  | .root => "/"
  | .here => "."
  | .up => ".."
  | .name text => text

/-- The path seen from the root, for a reader in the directory `current`. A slash at the end stays,
and the empty path has no such form. -/
def absolute? (current path : String) : Option String :=
  if path = "" then none
  else
    let all := (parts path).filter (· ≠ .here)
    let twoSlashes := match path.toList with
      | '/' :: '/' :: '/' :: _ => false
      | '/' :: '/' :: _ => true
      | _ => false
    let base := if twoSlashes then "//" else if isAbsolute path then "/" else current
    let full := (all.filter (· ≠ .root)).foldl (fun p part => join p part.text) base
    some (if endsInSlash path then join full "" else full)

end SkillMarket.Path
