import SkillMarket.FileTree.Basic
import SkillMarket.Path

/-!
Following a path through a tree.

A path is followed name by name from a directory. A link is replaced by the names of its target,
forty times at most. The last name may lead to nothing, for those who want to create it.

What a path leads to has one path from the root that passes no link. It is found by following the
path with the path from the root to each step, which can be too long for the system.
-/

namespace SkillMarket

namespace FileTree

/-- What a path that ends in a link means: the target of the link, the link itself, or the target,
which is to be created if it is missing. -/
inductive Ending where
  | follow
  | keep
  | create
deriving DecidableEq, Repr

/-- Where a path leads, and what stands there. -/
structure Target where
  location : Location
  node : Option Node
deriving DecidableEq

/-- The names of a path, in order. A slash at the end gives an empty last name, which asks for a
directory. -/
def steps (path : String) : List String :=
  let names := (Text.splitAll '/' path.toList).filter (· ≠ [])
  names.map String.ofList ++ if Path.endsInSlash path then [""] else []

/-- The greatest number of bytes of a name. -/
def maxName : Nat := 255

/-- The number of bytes at which a path is too long. -/
def maxPath : Nat := 4096

/-- The greatest number of links on the way. -/
def maxLinks : Nat := 40

/-- Follows names from a location, with so many links allowed. -/
def walk (t : FileTree) (ending : Ending) (links : Nat) (loc : Location) (names : List String) :
    Except FileError Target :=
  match names with
  | [] => .ok ⟨loc, t.get? loc⟩
  | name :: rest =>
    if t.get? loc ≠ some .directory then .error .notDirectory
    else if name = "" || name = "." then walk t ending links loc rest
    else if name = ".." then
      if t.get? loc.dropLast = some .directory then walk t ending links loc.dropLast rest
      else .error .notDirectory
    else if ending = .create && rest = [""] then .error .isDirectory
    else if name.utf8ByteSize > maxName then .error .nameTooLong
    else
      let next := loc ++ [name]
      match t.get? next with
      | none => if rest = [] then .ok ⟨next, none⟩ else .error .notFound
      | some (.link target) =>
        if rest = [] && ending = .keep then .ok ⟨next, some (.link target)⟩
        else match links with
          | 0 => .error .tooManyLinks
          | links + 1 =>
            walk t ending links (if Path.isAbsolute target then [] else loc) (steps target ++ rest)
      | some _ => walk t ending links next rest
termination_by (links, names.length)

/-- Follows a path from a directory. -/
def locate (t : FileTree) (current : Location) (ending : Ending) (path : String) :
    Except FileError Target :=
  if path.toList.contains '\x00' then .error .nulInPath
  else if path = "" then .error .notFound
  else if path.utf8ByteSize ≥ maxPath then .error .nameTooLong
  else walk t ending maxLinks (if Path.isAbsolute path then [] else current) (steps path)

/-! ## Paths from the root -/

/-- The path of a location, from the root. -/
def fullPath (loc : Location) : String := "/" ++ "/".intercalate loc

/-- Follows names from a location to where they lead, over so many links at most, with the path
from the root to every step on the way. -/
def resolve (t : FileTree) (links : Nat) (loc : Location) (names : List String) :
    Except FileError Location :=
  match names with
  | [] => .ok loc
  | name :: rest =>
    if t.get? loc ≠ some .directory then .error .notDirectory
    else if name = "" || name = "." then resolve t links loc rest
    else if name = ".." then
      if t.get? loc.dropLast = some .directory then resolve t links loc.dropLast rest
      else .error .notDirectory
    else
      let next := loc ++ [name]
      if name.utf8ByteSize > maxName || (fullPath next).utf8ByteSize ≥ maxPath then
        .error .nameTooLong
      else
        match t.get? next with
        | none => .error .notFound
        | some (.link target) =>
          match links with
          | 0 => .error .tooManyLinks
          | links + 1 =>
            resolve t links (if Path.isAbsolute target then [] else loc) (steps target ++ rest)
        | some _ => resolve t links next rest
termination_by (links, names.length)

/-- The path from the root to what a path leads to, which passes no link. -/
def canonicalize (t : FileTree) (current : Location) (path : String) : Except FileError String :=
  if path.toList.contains '\x00' then .error .nulInPath
  else if path = "" then .error .notFound
  else (t.resolve maxLinks (if Path.isAbsolute path then [] else current) (steps path)).map fullPath

end FileTree

end SkillMarket
