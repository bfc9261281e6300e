import SkillMarket.FileTree.Walk

/-!
Reading and changing a tree through paths.
-/

namespace SkillMarket.FileTree

/-! ## Reading -/

/-- What a path leads to, through links. -/
def stat (t : FileTree) (current : Location) (path : String) :
    Except FileError (Location × Node) :=
  match t.locate current .follow path with
  | .error e => .error e
  | .ok ⟨_, none⟩ => .error .notFound
  | .ok ⟨loc, some node⟩ => .ok (loc, node)

/-- The path leads to something. -/
def reaches (t : FileTree) (current : Location) (path : String) : Bool :=
  (t.stat current path).isOk

/-- The path leads to a directory. -/
def isDirectory (t : FileTree) (current : Location) (path : String) : Bool :=
  match t.stat current path with
  | .ok (_, .directory) => true
  | _ => false

/-- A file that a path leads to: its location and its bytes. -/
def openFile (t : FileTree) (current : Location) (path : String) :
    Except FileError (Location × ByteArray) :=
  match t.stat current path with
  | .error e => .error e
  | .ok (loc, .file _ content) => .ok (loc, content)
  | .ok (_, _) => .error .isDirectory

/-- The text of a file: where it is, and what its bytes encode. -/
def openText (t : FileTree) (current : Location) (path : String) :
    Except FileError (Location × String) :=
  match t.openFile current path with
  | .error e => .error e
  | .ok (loc, content) =>
    match Text.decode? content with
    | some text => .ok (loc, text)
    | none => .error .notText

/-- The text of a file. -/
def readText (t : FileTree) (current : Location) (path : String) : Except FileError String :=
  (t.openText current path).map (·.2)

/-- The names in a directory, with their nodes. -/
def list (t : FileTree) (current : Location) (path : String) :
    Except FileError (List (String × Node)) :=
  match t.stat current path with
  | .error e => .error e
  | .ok (loc, .directory) => .ok (t.children loc)
  | .ok (_, _) => .error .notDirectory

/-- The permissions that a directory is given. -/
def directoryMode : Nat := 0o755

/-- The permissions of what a path leads to. -/
def mode (t : FileTree) (current : Location) (path : String) : Except FileError Nat :=
  match t.stat current path with
  | .error e => .error e
  | .ok (_, .file mode _) => .ok mode
  | .ok (_, _) => .ok directoryMode

/-! ## Changing one target -/

/-- The permissions of a new file. -/
def newMode : Nat := 0o644

/-- The tree after a change, unless the change is refused. -/
def allow (t : FileTree) (change : Change) (after : FileTree) : Except FileError FileTree :=
  match t.access.refuses change with
  | some e => .error e
  | none => .ok after

/-- Writes a file at a target: a new one, or over the bytes of one that is there. -/
def writeAt (t : FileTree) (content : ByteArray) : Target → Except FileError FileTree
  | ⟨loc, none⟩ => t.allow (.create loc) (t.put loc (.file newMode content))
  | ⟨loc, some (.file mode _)⟩ => t.allow (.overwrite loc) (t.put loc (.file mode content))
  | ⟨_, some _⟩ => .error .isDirectory

/-- Sets the permissions of a file. Those of directories are not kept. -/
def setModeAt (t : FileTree) (mode : Nat) : Target → Except FileError FileTree
  | ⟨_, none⟩ => .error .notFound
  | ⟨loc, some (.file _ content)⟩ => t.allow (.setMode loc) (t.put loc (.file mode content))
  | ⟨loc, some _⟩ => t.allow (.setMode loc) t

/-- Takes a file or link away. -/
def removeAt (t : FileTree) : Target → Except FileError FileTree
  | ⟨_, none⟩ => .error .notFound
  | ⟨_, some .directory⟩ => .error .isDirectory
  | ⟨loc, some _⟩ => t.allow (.remove loc) (t.erase loc)

/-- Moves a file or link to another target, over a file or link that is there. -/
def renameAt (t : FileTree) : Target → Target → Except FileError FileTree
  | ⟨_, none⟩, _ => .error .notFound
  | ⟨_, some .directory⟩, _ => .error .notDirectory
  | _, ⟨_, some .directory⟩ => .error .isDirectory
  | ⟨source, some node⟩, ⟨target, _⟩ =>
    t.allow (.move source target) ((t.erase source).put target node)

/-! ## Changing through paths -/

/-- Writes the file that a path leads to. -/
def write (t : FileTree) (current : Location) (path : String) (content : ByteArray) :
    Except FileError FileTree := do
  t.writeAt content (← t.locate current .create path)

/-- Sets the permissions of the file that a path leads to. -/
def setMode (t : FileTree) (current : Location) (path : String) (mode : Nat) :
    Except FileError FileTree := do
  t.setModeAt mode (← t.locate current .follow path)

/-- Takes the file or link away that a path names. -/
def remove (t : FileTree) (current : Location) (path : String) : Except FileError FileTree := do
  t.removeAt (← t.locate current .keep path)

/-- Moves the file or link that a path names to another path. -/
def rename (t : FileTree) (current : Location) (source target : String) :
    Except FileError FileTree := do
  t.renameAt (← t.locate current .keep source) (← t.locate current .keep target)

end SkillMarket.FileTree
