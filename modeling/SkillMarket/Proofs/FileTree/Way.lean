import SkillMarket.Proofs.FileTree.AbsolutePath
import SkillMarket.Proofs.FileTree.Passes

/-!
# The last name of a path

A path to a file ends in a name, which stands in a directory that the path leads to before. The path
with another last name leads into the same directory, through the same links: so a file is written
beside the one that a path leads to, whatever the text of the path looks like.
-/

namespace SkillMarket.FileTree

variable {t other : FileTree} {ending : Ending} {here dir loc : Location} {path name : String}
  {left : Nat}

/-! ## The way to the last name -/

/-- A path that ends in a name: the directory in which it stands, and how many links are left when
the path has come there. -/
structure Way (t : FileTree) (here : Location) (path : String) (left : Nat) (dir : Location)
    (name : String) : Prop where
  isPath : IsPath path
  noSlash : Path.endsInSlash path = false
  isProper : IsProper name
  directory : t.get? dir = some .directory
  passes : ∃ front, names path = front ++ [name] ∧
    Passes t maxLinks (start here path) front left dir

/-- A name that leads to a file is one that a directory can hold. -/
theorem placed_of_leads_file {links : Nat} {target : Target}
    (h : Leads t ending links dir [name] target) {mode : Nat} {content : ByteArray}
    (hfile : target.node = some (.file mode content)) : Placed t dir name := by
  have directory := h.directory (by simp)
  have notHere (node : Option Node) (hnode : node = some .directory) :
      node ≠ some (.file mode content) := by simp [hnode]
  cases h with
  | stay _ _ more =>
      cases more
      exact absurd hfile (notHere _ directory)
  | up _ above more =>
      cases more
      exact absurd hfile (notHere _ above)
  | missing _ isName _ => exact ⟨directory, isName⟩
  | kept _ isName _ _ => exact ⟨directory, isName⟩
  | followed _ isName _ _ _ _ => exact ⟨directory, isName⟩
  | entered _ isName _ _ _ _ => exact ⟨directory, isName⟩

/-- A path that ends in a name which leads to a file. -/
structure FileWay (t : FileTree) (here : Location) (path : String) (left : Nat) (dir : Location)
    (name : String) (loc : Location) (mode : Nat) (content : ByteArray) : Prop
    extends Way t here path left dir name where
  placed : Placed t dir name
  leads : Leads t .follow left dir [name] ⟨loc, some (.file mode content)⟩

/-- A path to a file has its way to a last name. -/
theorem exists_fileWay_of_stat {mode : Nat} {content : ByteArray}
    (h : t.stat here path = .ok (loc, .file mode content)) :
    ∃ left dir name, FileWay t here path left dir name loc mode content := by
  obtain ⟨isPath, leads⟩ := locate_eq_ok_iff.mp (stat_eq_ok_iff.mp h)
  obtain ⟨front, name, hsteps⟩ :=
    (List.eq_nil_or_concat' (steps path)).resolve_left (steps_ne_nil isPath.nonempty)
  rw [hsteps] at leads
  obtain ⟨left, dir, passes, last⟩ := leads.exists_passes
  have placed := placed_of_leads_file last rfl
  obtain ⟨nonempty, notHere, notUp, -⟩ := placed.isName
  have noSlash : Path.endsInSlash path = false := by
    rw [← Bool.not_eq_true]
    intro slash
    rw [steps_eq, if_pos slash, List.append_singleton_inj] at hsteps
    exact nonempty hsteps.2.symm
  rw [steps_eq_names noSlash] at hsteps
  have mem : name ∈ names path := by simp [hsteps]
  exact ⟨left, dir, name, ⟨isPath, noSlash, ⟨isPiece_of_mem_names mem, notHere, notUp⟩,
    placed.directory, front, hsteps, passes⟩, placed, last⟩

/-- The name stands for the file itself, or for a link. -/
theorem FileWay.location_eq {mode : Nat} {content : ByteArray}
    (h : FileWay t here path left dir name loc mode content) :
    loc = dir ++ [name] ∨ ∃ text, t.get? (dir ++ [name]) = some (.link text) := by
  rcases h.placed.location_of_leads h.leads with target | ⟨-, link⟩
  · exact .inl (Target.mk.inj target).1
  · exact .inr link

theorem FileWay.not_directory {mode : Nat} {content : ByteArray}
    (h : FileWay t here path left dir name loc mode content) :
    t.get? (dir ++ [name]) ≠ some .directory := by
  rcases h.location_eq with rfl | ⟨text, link⟩
  · rw [← h.leads.node_eq]
    simp
  · simp [link]

namespace Way

/-- From the directory on, the last name decides. -/
theorem locate_eq (h : Way t here path left dir name) (hextends : Extends other t) :
    other.locate here ending path = other.walk ending left dir [name] := by
  obtain ⟨front, hnames, passes⟩ := h.passes
  obtain ⟨noNul, nonempty, short⟩ := h.isPath
  rw [locate, if_neg (by rw [noNul]; decide), if_neg nonempty, if_neg (by omega),
    steps_eq_names h.noSlash, hnames]
  exact (passes.extend hextends).walk_append h.isProper.nonempty

end Way

/-- The path leads to what has come to stand at its last name, if that is a file. -/
theorem FileWay.stat_of_elsewhere {mode mode' : Nat} {content content' : ByteArray}
    (h : FileWay t here path left dir name loc mode content)
    (hfile : other.get? (dir ++ [name]) = some (.file mode' content'))
    (elsewhere : ∀ l, l ≠ dir ++ [name] → other.get? l = t.get? l) :
    other.stat here path = .ok (dir ++ [name], .file mode' content') := by
  obtain ⟨front, hnames, passes⟩ := h.passes
  have passes' := passes.of_elsewhere h.directory h.leads rfl h.not_directory elsewhere
  have placed : Placed other dir name := by
    refine ⟨?_, h.placed.isName⟩
    rw [elsewhere dir (by simp), h.directory]
  have leads : Leads other .follow left dir [name] ⟨dir ++ [name], other.get? (dir ++ [name])⟩ :=
    placed.leads (by simp [hfile])
  rw [stat_eq_ok_iff, locate_eq_ok_iff, steps_eq_names h.noSlash, hnames, ← hfile]
  exact ⟨h.isPath, leads_of_walk
    ((passes'.walk_append h.isProper.nonempty).trans (walk_of_leads leads))⟩

namespace Way

/-! ## Another last name -/

/-- The last part of the path is the name. -/
theorem exists_parts_eq (h : Way t here path left dir name) :
    ∃ before, Path.parts path = before ++ [.name name] := by
  obtain ⟨front, hnames, -⟩ := h.passes
  have counted := filter_steps h.noSlash
  have stays : [name].filter (· ≠ ".") = [name] := by simp [h.isProper.notHere]
  rw [steps_eq_names h.noSlash, hnames, List.filter_append, stays, eq_comm,
    List.map_eq_append_iff] at counted
  obtain ⟨pieces, last, hpieces, -, hlast⟩ := counted
  obtain ⟨piece, rfl, rfl⟩ := List.map_eq_singleton_iff.mp hlast
  have notUp : piece ≠ ['.', '.'] := by
    rintro rfl
    exact h.isProper.notUp rfl
  refine ⟨Path.leading path.toList ++ pieces.map Path.Part.ofPiece, ?_⟩
  rw [Path.parts_eq, Path.inner, hpieces, List.map_append, List.append_assoc, List.map_singleton,
    Path.Part.ofPiece, if_neg notUp]

/-- The path is called by its last name, and is the same path as the name in the parent. -/
theorem exists_parent (h : Way t here path left dir name) :
    Path.fileName? path = some name ∧ ∃ parent, Path.parent? path = some parent ∧
      Path.parts (Path.join parent name) = Path.parts path := by
  obtain ⟨before, hparts⟩ := h.exists_parts_eq
  obtain ⟨parent, hparent, hbefore⟩ := Path.exists_parent?_eq hparts
  refine ⟨?_, parent, hparent, ?_⟩
  · rw [Path.fileName?_eq_some_iff, hparts, List.getLast?_concat]
  · rw [h.isProper.isOne.parts_join, hbefore, hparts]

/-- A path with another last name has the names of the first one before it, up to dots, and starts
in the same place. -/
structure Sibling (path name other sibling : String) : Prop where
  names : ∃ front back, names path = front ++ [name] ∧ names sibling = back ++ [other] ∧
    back.filter (· ≠ ".") = front.filter (· ≠ ".")
  isAbsolute_eq : Path.isAbsolute sibling = Path.isAbsolute path
  noSlash : Path.endsInSlash sibling = false
  noNul : '\x00' ∉ sibling.toList

theorem sibling (h : Way t here path left dir name) {other : String} (proper : IsProper other)
    (noNul : '\x00' ∉ other.toList) : Sibling path name other (Path.withFileName path other) := by
  obtain ⟨front, hnames, -⟩ := h.passes
  obtain ⟨called, parent, hparent, hparts⟩ := h.exists_parent
  have written : Path.withFileName path other = Path.join parent other := by
    rw [Path.withFileName, called, hparent]
    rfl
  -- the path is the same as the one that is put together again
  have named := h.isProper.names_join parent
  have pieces := filter_counts_eq hparts
  rw [written]
  constructor
  · refine ⟨front, names parent, hnames, proper.names_join parent, ?_⟩
    have again := filter_steps (h.isProper.noSlash_join parent)
    rw [pieces, ← filter_steps h.noSlash, steps_eq_names h.noSlash,
      steps_eq_names (h.isProper.noSlash_join parent), named, hnames, List.filter_append,
      List.filter_append] at again
    exact List.append_cancel_right again
  · have start : Path.isAbsolute (Path.join parent name) = Path.isAbsolute path := by
      rw [Path.isAbsolute_eq, Path.isAbsolute_eq, (Path.parts_eq_parts_iff.mp hparts).1]
    rw [← start]
    by_cases empty : parent = ""
    · rw [empty, Path.join_empty, Path.join_empty, proper.relative, h.isProper.relative]
    · rw [proper.isAbsolute_join empty, h.isProper.isAbsolute_join empty]
  · exact proper.noSlash_join parent
  · have before : '\x00' ∉ (Path.join parent name).toList := by
      rw [mem_toList_iff (by decide) (by decide), pieces,
        ← mem_toList_iff (by decide) (by decide)]
      simpa using h.isPath.noNul
    rw [notMem_toList_iff (by decide), named, List.forall_mem_append] at before
    rw [notMem_toList_iff (by decide), proper.names_join, List.forall_mem_append]
    exact ⟨before.1, by simpa using noNul⟩

/-- **The path with another last name leads into the same directory**, unless it is too long. -/
theorem locate_withFileName (h : Way t here path left dir name) {last : String}
    (proper : IsProper last) (noNul : '\x00' ∉ last.toList) (hextends : Extends other t) :
    other.locate here ending (Path.withFileName path last) =
      if (Path.withFileName path last).utf8ByteSize < maxPath then
        other.walk ending left dir [last]
      else .error .nameTooLong := by
  obtain ⟨front, hnames, passes⟩ := h.passes
  obtain ⟨⟨front', back, hnames', hback, dots⟩, isAbsolute_eq, noSlash, noNul'⟩ :=
    h.sibling proper noNul
  obtain rfl : front' = front := by
    rw [hnames, List.append_singleton_inj] at hnames'
    exact hnames'.1.symm
  generalize Path.withFileName path last = sibling at *
  have nonempty : sibling ≠ "" := by
    rintro rfl
    simp [names] at hback
  have noDots (names : List String) : Undotted (names ++ [last])
      (names.filter (· ≠ ".") ++ [last]) := by
    have := undotted_filter names proper.notHere
    rwa [List.filter_append, List.filter_cons_of_pos (by simpa using proper.notHere),
      List.filter_nil] at this
  have slash (names : List String) : NoSlash ending (names ++ [last]) := by
    intro _
    simpa using proper.nonempty
  rw [locate, if_neg (by simpa using noNul'), if_neg nonempty, isAbsolute_eq,
    steps_eq_names noSlash, hback, (noDots back).walk (slash back), dots,
    ← (noDots front').walk (slash front'), ← start,
    (passes.extend hextends).walk_append proper.nonempty]
  by_cases short : sibling.utf8ByteSize < maxPath
  · rw [if_pos short, if_neg (by omega)]
  · rw [if_neg short, if_pos (by omega)]

end Way

end SkillMarket.FileTree
