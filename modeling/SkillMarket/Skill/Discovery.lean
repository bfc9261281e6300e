import SkillMarket.FileTree.Access

/-!
Finding skills: the directories directly below a root that are neither hidden nor excluded, in the
order of their names.
-/

namespace SkillMarket.Skill

/-- Names in the order of their bytes, which is that of their characters. -/
def nameBefore (a b : String) : Bool := a ≤ b

/-- A name that holds no skill. -/
def isExcluded (exclude : List String) (name : String) : Bool :=
  name.toList.head? == some '.' || exclude.contains name

/-- The names of the skills among the children of a directory. -/
def skillNames (exclude : List String) (children : List (String × Node)) : List String :=
  ((children.filter fun (name, node) => node = .directory && !isExcluded exclude name).map
    Prod.fst).mergeSort nameBefore

/-- The root of the skills cannot be listed. -/
structure DiscoveryError where
  root : String
  error : FileError
deriving DecidableEq, Repr

def DiscoveryError.message (e : DiscoveryError) : String :=
  s!"Failed to read skills root: {e.root}"

/-- The paths of the skills below a root. -/
def discover (t : FileTree) (here : Location) (root : String) (exclude : List String) :
    Except DiscoveryError (List String) :=
  match t.list here root with
  | .error e => .error ⟨root, e⟩
  | .ok children => .ok ((skillNames exclude children).map (Path.join root))

end SkillMarket.Skill
