import SkillMarket.Json.Value
import SkillMarket.Text.Search

/-!
Where a plugin's package lives.
-/

namespace SkillMarket.Marketplace

/-- A directory below the repository root, or anything that is not one. -/
inductive Source where
  | directory (path : String)
  | remote
deriving DecidableEq, Repr

/-- The texts that a remote address starts with. -/
def remoteStarts : List String := ["http", "git@"]

/-- A text that names a remote address: it starts like one or has a scheme. -/
def isRemote (source : String) : Bool :=
  remoteStarts.any (fun s => s.toList.isPrefixOf source.toList) ||
    Text.occurs "://".toList source.toList

/-- The source that a value declares. What is not a text is remote. -/
def Source.ofValue (value : Option Json.Value) : Source :=
  match value.bind Json.Value.asString? with
  | some path => if isRemote path then .remote else .directory path
  | none => .remote

def Source.isDirectory : Source → Bool
  | .directory _ => true
  | .remote => false

end SkillMarket.Marketplace
