import SkillMarket.Text.Utf8

/-!
File trees.

A tree says what stands at each location: a directory, a file with its permissions and bytes, or a
symbolic link with its target. The root directory is always there. A tree also says which changes
the system refuses.
-/

namespace SkillMarket

/-- Why an operation on files fails. -/
inductive FileError where
  | notPermitted
  | notFound
  | permissionDenied
  | notDirectory
  | isDirectory
  | nameTooLong
  | tooManyLinks
  | notText
  | nulInPath
deriving DecidableEq, Repr

def FileError.message : FileError → String
  | notPermitted => "Operation not permitted (os error 1)"
  | notFound => "No such file or directory (os error 2)"
  | permissionDenied => "Permission denied (os error 13)"
  | notDirectory => "Not a directory (os error 20)"
  | isDirectory => "Is a directory (os error 21)"
  | nameTooLong => "File name too long (os error 36)"
  | tooManyLinks => "Too many levels of symbolic links (os error 40)"
  | notText => "stream did not contain valid UTF-8"
  | nulInPath => "file name contained an unexpected NUL byte"

/-- A place in a tree: the names that lead to it from the root. -/
abbrev Location := List String

/-- What stands at a location. -/
inductive Node where
  | directory
  | file (mode : Nat) (content : ByteArray)
  | link (target : String)

/-- Files are the same if their bytes are. -/
instance : DecidableEq Node
  | .directory, .directory => isTrue rfl
  | .file m c, .file m' c' =>
    decidable_of_iff (m = m' ∧ c.data = c'.data) (by cases c; cases c'; simp)
  | .link s, .link s' => decidable_of_iff (s = s') (by simp)
  | .directory, .file _ _ | .directory, .link _ | .file _ _, .directory => isFalse nofun
  | .file _ _, .link _ | .link _, .directory | .link _, .file _ _ => isFalse nofun

/-- A change of what stands at a location. -/
inductive Change where
  | create (loc : Location)
  | overwrite (loc : Location)
  | setMode (loc : Location)
  | remove (loc : Location)
  | move (source target : Location)
deriving DecidableEq

/-- Which changes the system refuses, and why. What it lets be created it lets be removed. -/
structure Access where
  refuses : Change → Option FileError
  removable : ∀ loc, refuses (.create loc) = none → refuses (.remove loc) = none

/-- Nothing is refused. -/
def Access.full : Access := ⟨fun _ => none, fun _ _ => rfl⟩

/-- A file tree: its nodes by location, and what may be changed. No location is there twice. -/
structure FileTree where
  nodes : List (Location × Node)
  distinct : (nodes.map Prod.fst).Nodup
  access : Access := .full

namespace FileTree

/-- The tree that holds the root directory alone. -/
def empty : FileTree := { nodes := [], distinct := List.nodup_nil }

/-! ## Looking up and changing one location -/

/-- The node of a location in a list of nodes. -/
def find? (loc : Location) : List (Location × Node) → Option Node
  | [] => none
  | (l, n) :: rest => if l = loc then some n else find? loc rest

/-- What stands at a location. -/
def get? (t : FileTree) (loc : Location) : Option Node :=
  if loc = [] then some .directory else find? loc t.nodes

/-- Replaces the node of a location, or adds it at the end. -/
def replace (loc : Location) (node : Node) : List (Location × Node) → List (Location × Node)
  | [] => [(loc, node)]
  | (l, n) :: rest => if l = loc then (l, node) :: rest else (l, n) :: replace loc node rest

theorem mem_locations_replace {loc other : Location} {node : Node} {ns : List (Location × Node)}
    (h : other ∈ (replace loc node ns).map Prod.fst) : other = loc ∨ other ∈ ns.map Prod.fst := by
  induction ns with
  | nil => exact .inl (by simpa [replace] using h)
  | cons m ns ih =>
    obtain ⟨l, n⟩ := m
    by_cases hl : l = loc
    · exact .inr (by simpa [replace, hl] using h)
    · simp only [replace, hl, if_false, List.map_cons, List.mem_cons] at h ⊢
      rcases h with h | h
      · exact .inr (.inl h)
      · exact (ih h).imp_right .inr

theorem nodup_replace (loc : Location) (node : Node) {ns : List (Location × Node)}
    (h : (ns.map Prod.fst).Nodup) : ((replace loc node ns).map Prod.fst).Nodup := by
  induction ns with
  | nil => simp [replace]
  | cons m ns ih =>
    obtain ⟨l, n⟩ := m
    by_cases hl : l = loc
    · simpa [replace, hl] using h
    · simp only [replace, hl, if_false, List.map_cons, List.nodup_cons] at h ⊢
      exact ⟨fun hm => (mem_locations_replace hm).elim hl h.1, ih h.2⟩

/-- Puts a node at a location. -/
def put (t : FileTree) (loc : Location) (node : Node) : FileTree :=
  { t with nodes := replace loc node t.nodes, distinct := nodup_replace loc node t.distinct }

/-- Keeps the locations that satisfy a test. -/
def keep (t : FileTree) (test : Location → Bool) : FileTree :=
  { t with
    nodes := t.nodes.filter (test ·.1)
    distinct := t.distinct.sublist (List.filter_sublist.map _) }

/-- Takes away the node of a location. -/
def erase (t : FileTree) (loc : Location) : FileTree := t.keep (· ≠ loc)

/-- The tree of a list of nodes. Of two nodes of one location the later one counts. -/
def ofNodes (nodes : List (Location × Node)) : FileTree :=
  nodes.foldl (fun t n => t.put n.1 n.2) empty

theorem find?_replace (loc other : Location) (node : Node) (ns : List (Location × Node)) :
    find? other (replace loc node ns) = if loc = other then some node else find? other ns := by
  induction ns with
  | nil => simp [replace, find?]
  | cons m ns ih =>
    obtain ⟨l, n⟩ := m
    by_cases h : l = loc
    · subst h; by_cases ho : l = other <;> simp [replace, find?, ho]
    · by_cases ho : l = other
      · subst ho; simp [replace, find?, h, Ne.symm h]
      · simp [replace, find?, h, ho, ih]

theorem find?_filter_ne (loc other : Location) (ns : List (Location × Node)) :
    find? other (ns.filter (·.1 ≠ loc)) = if loc = other then none else find? other ns := by
  induction ns with
  | nil => simp [find?]
  | cons m ns ih =>
    obtain ⟨l, n⟩ := m
    by_cases h : l = loc
    · subst h; by_cases ho : l = other <;> simp_all [find?]
    · by_cases ho : l = other <;> simp_all [find?, Ne.symm]

theorem get?_put (t : FileTree) {loc : Location} (h : loc ≠ []) (other : Location) (node : Node) :
    (t.put loc node).get? other = if loc = other then some node else t.get? other := by
  by_cases ho : other = []
  · subst ho; simp [get?, h]
  · simp [get?, put, ho, find?_replace]

theorem get?_erase (t : FileTree) {loc : Location} (h : loc ≠ []) (other : Location) :
    (t.erase loc).get? other = if loc = other then none else t.get? other := by
  by_cases ho : other = []
  · subst ho; simp [get?, h]
  · simp only [get?, erase, keep, ho, if_false, find?_filter_ne]

/-! ## Directories -/

/-- The names directly below a location, with their nodes. -/
def children (t : FileTree) (loc : Location) : List (String × Node) :=
  t.nodes.filterMap fun (l, n) =>
    match l.getLast? with
    | some name => if l.dropLast = loc then some (name, n) else none
    | none => none

end FileTree

end SkillMarket
