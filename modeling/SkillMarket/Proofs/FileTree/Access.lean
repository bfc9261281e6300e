import SkillMarket.FileTree.Access
import SkillMarket.Proofs.FileTree.Walk

/-!
# Reading a tree

What is read through a path stands in a directory that is there, and is read in the same way when
only files differ.
-/

namespace SkillMarket.FileTree

variable {t : FileTree} {ending : Ending}

/-! ## Paths -/

/-- The place that a path starts from. -/
def start (current : Location) (path : String) : Location :=
  if Path.isAbsolute path then [] else current

/-- A path that can be followed. -/
structure IsPath (path : String) : Prop where
  noNul : path.toList.contains '\x00' = false
  nonempty : path ≠ ""
  short : path.utf8ByteSize < maxPath

theorem locate_eq_ok_iff {current : Location} {path : String} {target : Target} :
    t.locate current ending path = .ok target ↔
      IsPath path ∧ Leads t ending maxLinks (start current path) (steps path) target := by
  unfold locate
  constructor
  · intro h
    split at h
    · simp at h
    · next noNul =>
      split at h
      · simp at h
      · next nonempty =>
        split at h
        · simp at h
        · next short =>
          exact ⟨⟨by simpa using noNul, nonempty, by omega⟩, leads_of_walk h⟩
  · rintro ⟨⟨noNul, nonempty, short⟩, h⟩
    rw [if_neg (by rw [noNul]; decide), if_neg nonempty, if_neg (by omega)]
    exact walk_of_leads h

/-- A text without parts between separators has nothing but separators. -/
theorem eq_sep_of_splitAll {sep : Char} {cs : List Char}
    (h : ∀ piece ∈ Text.splitAll sep cs, piece = []) : ∀ c ∈ cs, c = sep := by
  induction cs with
  | nil => simp
  | cons c cs ih =>
      rw [Text.splitAll] at h
      split at h
      · next hc =>
        intro d hd
        rcases List.mem_cons.mp hd with rfl | hd
        · exact hc
        · exact ih (fun piece hp => h piece (List.mem_cons_of_mem _ hp)) d hd
      · split at h
        · exact absurd (h [c] (by simp)) (by simp)
        · next part parts _ => exact absurd (h (c :: part) (by simp)) (by simp)

/-- Every path but the empty one has steps. -/
theorem steps_ne_nil {path : String} (h : path ≠ "") : steps path ≠ [] := by
  intro hsteps
  simp only [steps, List.append_eq_nil_iff, List.map_eq_nil_iff] at hsteps
  obtain ⟨hparts, hslash⟩ := hsteps
  have slashes : ∀ c ∈ path.toList, c = '/' := by
    refine eq_sep_of_splitAll fun piece hpiece => ?_
    simpa using List.filter_eq_nil_iff.mp hparts piece hpiece
  have nonempty : path.toList ≠ [] := by simpa using h
  have last : path.toList.getLast? = some '/' := by
    rw [List.getLast?_eq_some_getLast nonempty, slashes _ (List.getLast_mem nonempty)]
  simp [Path.endsInSlash, last] at hslash

/-! ## Files that are opened -/

theorem stat_eq_ok_iff {current loc : Location} {path : String} {node : Node} :
    t.stat current path = .ok (loc, node) ↔
      t.locate current .follow path = .ok ⟨loc, some node⟩ := by
  unfold stat
  split
  · next h => simp [h]
  · next h => simp [h]
  · next h => simp [h, Prod.ext_iff]

/-- A path leads to what its steps lead to. -/
theorem stat_of_walk {current loc : Location} {path : String} {node : Node} (isPath : IsPath path)
    (names : List String) (names_eq : steps path = names)
    (h : t.walk .follow maxLinks (start current path) names = .ok ⟨loc, some node⟩) :
    t.stat current path = .ok (loc, node) :=
  stat_eq_ok_iff.mpr (locate_eq_ok_iff.mpr ⟨isPath, leads_of_walk (names_eq ▸ h)⟩)

theorem reaches_of_stat {current : Location} {path : String} {found : Location × Node}
    (h : t.stat current path = .ok found) : t.reaches current path = true := by
  rw [reaches, h]
  rfl

/-- What a path leads to stands there. -/
theorem get?_of_stat {current loc : Location} {path : String} {node : Node}
    (h : t.stat current path = .ok (loc, node)) : t.get? loc = some node :=
  (locate_eq_ok_iff.mp (stat_eq_ok_iff.mp h)).2.node_eq.symm

/-- A path that leads to a file leads to a place in a directory. -/
theorem placed_of_stat {current loc : Location} {path : String} {mode : Nat}
    {content : ByteArray} (h : t.stat current path = .ok (loc, .file mode content)) :
    ∃ dir name, loc = dir ++ [name] ∧ Placed t dir name := by
  obtain ⟨isPath, leads⟩ := locate_eq_ok_iff.mp (stat_eq_ok_iff.mp h)
  rcases leads.placed with ⟨hnil, -⟩ | hdir | hplace
  · exact absurd hnil (steps_ne_nil isPath.nonempty)
  · rw [get?_of_stat h] at hdir
    simp at hdir
  · exact hplace

/-- A path leads to the same location when only files differ. -/
theorem stat_congr {other : FileTree} (hshape : SameShape t other) {current loc : Location}
    {path : String} {node node' : Node} (h : t.stat current path = .ok (loc, node))
    (hnode : other.get? loc = some node') : other.stat current path = .ok (loc, node') := by
  obtain ⟨isPath, leads⟩ := locate_eq_ok_iff.mp (stat_eq_ok_iff.mp h)
  rw [stat_eq_ok_iff, locate_eq_ok_iff, ← hnode]
  exact ⟨isPath, leads.congr hshape⟩

/-- A path leads to the same place, or nowhere for the same reason, when only files differ. -/
theorem locate_congr {other : FileTree} (hshape : SameShape t other) (current : Location)
    (path : String) :
    other.locate current ending path =
      (t.locate current ending path).map fun target =>
        ⟨target.location, other.get? target.location⟩ := by
  unfold locate
  split
  · rfl
  · split
    · rfl
    · split
      · rfl
      · exact walk_congr hshape _ _ _

theorem stat_congr_of_error {other : FileTree} (hshape : SameShape t other) {current : Location}
    {path : String} {error : FileError} (h : t.stat current path = .error error) :
    other.stat current path = .error error := by
  unfold stat at h ⊢
  rw [locate_congr hshape]
  split at h
  · next hlocate =>
    rw [hlocate]
    exact h
  · next loc hlocate =>
    have absent : t.get? loc = none := (locate_eq_ok_iff.mp hlocate).2.node_eq.symm
    have absent' : other.get? loc = none := hshape.get?_eq_of absent (by simp)
    simpa [hlocate, Except.map, absent'] using h
  · simp at h

theorem openFile_eq_ok_iff {current loc : Location} {path : String} {content : ByteArray} :
    t.openFile current path = .ok (loc, content) ↔
      ∃ mode, t.stat current path = .ok (loc, .file mode content) := by
  unfold openFile
  split
  · next h => simp [h]
  · next mode content h => simp [h, Prod.ext_iff]
  · next node hne h =>
    simp only [h, reduceCtorEq, Except.ok.injEq, Prod.mk.injEq, false_iff]
    rintro ⟨mode, -, rfl⟩
    exact hne _ _ rfl

/-- A text is opened where a path leads to a file that holds its bytes. -/
theorem openText_eq_ok_iff {current loc : Location} {path text : String} :
    t.openText current path = .ok (loc, text) ↔
      ∃ mode, t.stat current path = .ok (loc, .file mode (Text.encode text)) := by
  rw [← openFile_eq_ok_iff]
  unfold openText
  constructor
  · intro h
    split at h
    · simp at h
    · next hopen =>
      split at h
      · next hdecode =>
        simp only [Except.ok.injEq, Prod.mk.injEq] at h
        obtain ⟨rfl, rfl⟩ := h
        rw [Text.encode_decode? hdecode]
        exact hopen
      · simp at h
  · intro h
    simp [h, Text.decode?_encode]

theorem readText_eq_ok_iff {current : Location} {path text : String} :
    t.readText current path = .ok text ↔ ∃ loc, t.openText current path = .ok (loc, text) := by
  unfold readText
  cases t.openText current path with
  | error e => simp [Except.map]
  | ok opened => simp [Except.map, Prod.ext_iff]

theorem readText_of_stat {current loc : Location} {path text : String} {mode : Nat}
    (h : t.stat current path = .ok (loc, .file mode (Text.encode text))) :
    t.readText current path = .ok text :=
  readText_eq_ok_iff.mpr ⟨loc, openText_eq_ok_iff.mpr ⟨mode, h⟩⟩

/-! ## One name -/

variable {links : Nat} {dir : Location} {name : String}

/-- A name that leads somewhere is one that the directory can hold. -/
theorem placed_of_leads {target : Target} (h : Leads t ending links dir [name] target)
    (nonempty : name ≠ "") (notHere : name ≠ ".") (notUp : name ≠ "..") : Placed t dir name := by
  cases h with
  | stay _ blank _ => exact absurd blank (not_or.mpr ⟨nonempty, notHere⟩)
  | up _ _ _ => exact absurd rfl notUp
  | missing here isName _ => exact ⟨here, isName⟩
  | kept here isName _ _ => exact ⟨here, isName⟩
  | followed here isName _ _ _ _ => exact ⟨here, isName⟩
  | entered here isName _ _ _ _ => exact ⟨here, isName⟩

/-- What is no link is where its name leads to. -/
theorem Placed.leads (h : Placed t dir name)
    (hlink : ∀ text, t.get? (dir ++ [name]) ≠ some (.link text)) :
    Leads t ending links dir [name] ⟨dir ++ [name], t.get? (dir ++ [name])⟩ := by
  cases hnode : t.get? (dir ++ [name]) with
  | none => exact .missing h.directory h.isName hnode
  | some node =>
      rw [← hnode]
      refine .entered h.directory h.isName (by simp) hnode ?_ .done
      rintro text rfl
      exact hlink text hnode

/-- A name that is kept leads to its own place. -/
theorem Placed.leads_keep (h : Placed t dir name) :
    Leads t .keep links dir [name] ⟨dir ++ [name], t.get? (dir ++ [name])⟩ := by
  by_cases hlink : ∃ text, t.get? (dir ++ [name]) = some (.link text)
  · obtain ⟨text, htext⟩ := hlink
    rw [htext]
    exact .kept h.directory h.isName htext rfl
  · exact h.leads (by simpa using hlink)

/-- A name leads to its own place, or there is a link. -/
theorem Placed.location_of_leads (h : Placed t dir name) {target : Target}
    (hleads : Leads t ending links dir [name] target) :
    target = ⟨dir ++ [name], t.get? (dir ++ [name])⟩ ∨
      ending ≠ .keep ∧ ∃ text, t.get? (dir ++ [name]) = some (.link text) := by
  cases hleads with
  | stay _ blank _ => exact absurd blank h.isName.not_blank
  | up _ _ _ => exact absurd rfl h.isName.notUp
  | missing _ _ absent => exact .inl (by rw [absent])
  | kept _ _ link _ => exact .inl (by rw [link])
  | followed _ _ _ link notKept _ => exact .inr ⟨by simpa using notKept, _, link⟩
  | entered _ _ _ _ _ more =>
      cases more
      exact .inl rfl

theorem ne_nil_of_get? {loc : Location} {node : Option Node} (h : t.get? loc = node)
    (hnode : node ≠ some .directory) : loc ≠ [] := by
  rintro rfl
  exact hnode h.symm

/-! ## Trees that differ in one file -/

/-- The bytes of one file are other ones, and nothing else differs. -/
structure Rewritten (t other : FileTree) (loc : Location) (mode : Nat) (old new : ByteArray) :
    Prop where
  before : t.get? loc = some (.file mode old)
  after : other.get? loc = some (.file mode new)
  elsewhere : ∀ l, l ≠ loc → other.get? l = t.get? l

namespace Rewritten

variable {other : FileTree} {loc : Location} {mode : Nat} {old new : ByteArray}

theorem of_get? (hfile : t.get? loc = some (.file mode old))
    (hget : ∀ l, other.get? l = if loc = l then some (.file mode new) else t.get? l) :
    Rewritten t other loc mode old new :=
  ⟨hfile, by rw [hget, if_pos rfl], fun l hl => by rw [hget, if_neg (Ne.symm hl)]⟩

theorem refl (hfile : t.get? loc = some (.file mode old)) : Rewritten t t loc mode old old :=
  ⟨hfile, hfile, fun _ _ => rfl⟩

theorem sameShape (h : Rewritten t other loc mode old new) : SameShape t other := by
  intro l
  by_cases hl : l = loc
  · subst hl
    exact .inr ⟨⟨_, _, h.before⟩, _, _, h.after⟩
  · exact .inl (h.elsewhere l hl)

/-- Links are the same, with the same targets. -/
theorem link_iff (h : Rewritten t other loc mode old new) (l : Location) (target : String) :
    other.get? l = some (.link target) ↔ t.get? l = some (.link target) := by
  by_cases hl : l = loc
  · simp [hl, h.before, h.after]
  · rw [h.elsewhere l hl]

/-- Every path leads where it led, and to what was there unless it is the one file. -/
theorem stat (h : Rewritten t other loc mode old new) {current l : Location} {path : String}
    {node : Node} (hstat : t.stat current path = .ok (l, node)) :
    ∃ node', other.stat current path = .ok (l, node') ∧ (l ≠ loc → node' = node) := by
  by_cases hl : l = loc
  · subst hl
    exact ⟨_, stat_congr h.sameShape hstat h.after, fun other => absurd rfl other⟩
  · have hnode := (h.elsewhere l hl).trans (get?_of_stat hstat)
    exact ⟨node, stat_congr h.sameShape hstat hnode, fun _ => rfl⟩

end Rewritten

end SkillMarket.FileTree
