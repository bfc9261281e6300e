import SkillMarket.FileTree.Access
import SkillMarket.Skill.Rubric

/-!
The document of a skill: a `SKILL.md`, named by its own path or by that of its directory.
-/

namespace SkillMarket.Skill

/-- The name of the document in a skill's directory. -/
def documentName : String := "SKILL.md"

/-- A document with its line endings unified. -/
structure Document where
  path : String
  content : List Char
  frontMatter : FrontMatter
deriving DecidableEq, Repr

/-- Why a document cannot be loaded. -/
inductive DocumentError where
  | missing (path : String)
  | unreadable (path : String) (error : FileError)
deriving DecidableEq, Repr

def DocumentError.message : DocumentError → String
  | missing path => s!"{path} not found"
  | unreadable path _ => s!"Failed to read {path}"

/-- What lies behind a failure. -/
def DocumentError.causes : DocumentError → List String
  | missing _ => []
  | unreadable _ error => [error.message]

/-- The document that a path stands for: the one in a directory, or the path itself. -/
def documentPath (t : FileTree) (here : Location) (path : String) : String :=
  if t.isDirectory here path then Path.join path documentName else path

/-- The document with a text. -/
def Document.ofText (path text : String) : Document :=
  let content := Text.normalizeNewlines text.toList
  ⟨path, content, .ofText content⟩

/-- Loads the document that a path stands for. -/
def Document.load (t : FileTree) (here : Location) (path : String) :
    Except DocumentError Document :=
  let path := documentPath t here path
  if !t.reaches here path then .error (.missing path)
  else
    match t.readText here path with
    | .error e => .error (.unreadable path e)
    | .ok text => .ok (.ofText path text)

/-- The report on a document. -/
def Document.report (d : Document) : Report := .ofText d.content

end SkillMarket.Skill
