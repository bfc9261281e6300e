import SkillMarket.Text.Blank
import SkillMarket.Text.Lines
import SkillMarket.Yaml.Mapping

/-!
Front matter: what a document says about itself between two `---` lines at its start.

The block is read as a YAML mapping. If it is none that can be used, each of its lines is read on
its own, as a key and a value with a colon between them.
-/

namespace SkillMarket.Skill

/-- The name and the description that a document gives itself. -/
structure FrontMatter where
  name : Option String
  description : Option String
deriving DecidableEq, Repr

def FrontMatter.empty : FrontMatter := ⟨none, none⟩

/-! ## The block -/

/-- A line of three dashes, with or without blanks around them. -/
def isFence (line : List Char) : Bool := Text.trim line == ['-', '-', '-']

/-- The lines between a first line that is a fence and the next fence, if there are any. -/
def blockLines? : List (List Char) → Option (List (List Char))
  | [] => none
  | first :: rest =>
    let inside := rest.takeWhile (!isFence ·)
    if isFence first && !inside.isEmpty && inside.length < rest.length then some inside else none

/-- The text of the front matter. -/
def block? (text : List Char) : Option (List Char) :=
  (blockLines? (Text.lines text)).map Text.joinLines

/-! ## Reading it as a mapping -/

/-- The value of a key that stands at most once in a mapping; it must be a scalar. -/
def field? (key : String) (entries : List Yaml.Entry) : Option (Option String) :=
  match entries.filter (·.key = key) with
  | [] => some none
  | [⟨_, some s⟩] => s.optional?.map (·.map String.ofList)
  | _ => none

def FrontMatter.ofEntries? (entries : List Yaml.Entry) : Option FrontMatter := do
  return ⟨← field? "name" entries, ← field? "description" entries⟩

/-! ## Reading its lines -/

/-- The front matter after a line: the last line with a key counts. -/
def FrontMatter.readLine (f : FrontMatter) (line : List Char) : FrontMatter :=
  match Text.splitOnce ':' line with
  | none => f
  | some (key, value) =>
    let value := String.ofList (Text.trim value)
    if Text.trim key = "name".toList then { f with name := some value }
    else if Text.trim key = "description".toList then { f with description := some value }
    else f

def FrontMatter.ofLines (lines : List (List Char)) : FrontMatter := lines.foldl readLine empty

/-! ## Reading it from a document -/

/-- The front matter in a block. -/
def FrontMatter.ofBlock (block : List Char) : FrontMatter :=
  ((Yaml.Entry.ofText? block).bind ofEntries?).getD (ofLines (Text.lines block))

/-- The front matter of a document. -/
def FrontMatter.ofText (text : List Char) : FrontMatter :=
  match block? text with
  | some block => ofBlock block
  | none => empty

end SkillMarket.Skill
