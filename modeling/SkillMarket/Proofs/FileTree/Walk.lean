import SkillMarket.FileTree.Walk

/-!
# Where names lead

`Leads` says, step by step, where names lead from a location, and has no way to fail; a walk ends
well exactly where `Leads` does. What a walk comes to depends only on the directories and links it
meets, so a tree in which nothing but files differs is walked in the same way.
-/

namespace SkillMarket.FileTree

/-- A name that a directory can hold. -/
structure IsName (name : String) : Prop where
  nonempty : name ≠ ""
  notHere : name ≠ "."
  notUp : name ≠ ".."
  short : name.utf8ByteSize ≤ maxName

theorem IsName.not_blank {name : String} (h : IsName name) : ¬ (name = "" ∨ name = ".") :=
  not_or.mpr ⟨h.nonempty, h.notHere⟩

/-- What passes the tests of a walk is a name that a directory can hold. -/
theorem isName_of_tests {name : String} (blank : ¬ (name = "" || name = ".") = true)
    (notUp : name ≠ "..") (short : ¬ maxName < name.utf8ByteSize) : IsName name := by
  simp only [Bool.or_eq_true, decide_eq_true_eq, not_or] at blank
  exact ⟨blank.1, blank.2, notUp, Nat.not_lt.mp short⟩

/-- Names lead from a location to a target, over so many links at most. -/
inductive Leads (t : FileTree) (ending : Ending) :
    (links : Nat) → Location → List String → Target → Prop
  | done {links loc} : Leads t ending links loc [] ⟨loc, t.get? loc⟩
  | stay {links loc name rest target} (here : t.get? loc = some .directory)
      (blank : name = "" ∨ name = ".") (more : Leads t ending links loc rest target) :
      Leads t ending links loc (name :: rest) target
  | up {links loc rest target} (here : t.get? loc = some .directory)
      (above : t.get? loc.dropLast = some .directory)
      (more : Leads t ending links loc.dropLast rest target) :
      Leads t ending links loc (".." :: rest) target
  | missing {links loc name} (here : t.get? loc = some .directory) (isName : IsName name)
      (absent : t.get? (loc ++ [name]) = none) :
      Leads t ending links loc [name] ⟨loc ++ [name], none⟩
  | kept {links loc name text} (here : t.get? loc = some .directory) (isName : IsName name)
      (link : t.get? (loc ++ [name]) = some (.link text)) (kept : ending = .keep) :
      Leads t ending links loc [name] ⟨loc ++ [name], some (.link text)⟩
  | followed {links loc name rest text target} (here : t.get? loc = some .directory)
      (isName : IsName name) (file : ¬ (ending = .create ∧ rest = [""]))
      (link : t.get? (loc ++ [name]) = some (.link text)) (more? : ¬ (rest = [] ∧ ending = .keep))
      (more : Leads t ending links (if Path.isAbsolute text then [] else loc)
        (steps text ++ rest) target) :
      Leads t ending (links + 1) loc (name :: rest) target
  | entered {links loc name rest node target} (here : t.get? loc = some .directory)
      (isName : IsName name) (file : ¬ (ending = .create ∧ rest = [""]))
      (there : t.get? (loc ++ [name]) = some node) (notLink : ∀ text, node ≠ .link text)
      (more : Leads t ending links (loc ++ [name]) rest target) :
      Leads t ending links loc (name :: rest) target

variable {t : FileTree} {ending : Ending}

/-! ## Walks -/

/-- A walk that ends well goes where the names lead. -/
theorem leads_of_walk {links : Nat} {loc : Location} {names : List String} {target : Target}
    (h : t.walk ending links loc names = .ok target) : Leads t ending links loc names target := by
  fun_induction walk t ending links loc names with
  | case1 links loc =>
      simp only [Except.ok.injEq] at h
      exact h ▸ .done
  | case2 => simp at h
  | case3 links loc name rest here blank ih =>
      exact .stay (by simpa using here) (by simpa using blank) (ih h)
  | case4 links loc rest here above _ ih => exact .up (by simpa using here) above (ih h)
  | case5 => simp at h
  | case6 => simp at h
  | case7 => simp at h
  | case8 links loc name here blank notUp short next absent =>
      simp only [Except.ok.injEq] at h
      exact h ▸ .missing (by simpa using here) (isName_of_tests blank notUp short) absent
  | case9 => simp at h
  | case10 links loc name rest here blank notUp file short next text link kept =>
      simp only [Except.ok.injEq] at h
      simp only [Bool.and_eq_true, decide_eq_true_eq] at kept
      obtain ⟨rfl, hkept⟩ := kept
      exact h ▸ .kept (by simpa using here) (isName_of_tests blank notUp short) link hkept
  | case11 => simp at h
  | case12 loc name rest here blank notUp file short next text link notKept links ih =>
      exact .followed (by simpa using here) (isName_of_tests blank notUp short)
        (by simpa using file) link (by simpa using notKept) (ih h)
  | case13 links loc name rest here blank notUp file short next node notLink there ih =>
      exact .entered (by simpa using here) (isName_of_tests blank notUp short)
        (by simpa using file) there (fun text htext => notLink text htext) (ih h)

/-- Where the names lead is where the walk ends. -/
theorem walk_of_leads {links : Nat} {loc : Location} {names : List String} {target : Target}
    (h : Leads t ending links loc names target) :
    t.walk ending links loc names = .ok target := by
  induction h with
  | done => rw [walk]
  | stay here blank more ih =>
      rw [walk, if_neg (by simpa using here), if_pos (by simpa using blank)]
      exact ih
  | up here above more ih =>
      rw [walk, if_neg (by simpa using here), if_neg (by decide), if_pos rfl, if_pos above]
      exact ih
  | missing here isName absent =>
      obtain ⟨nonempty, notHere, notUp, short⟩ := isName
      rw [walk]
      simp [here, nonempty, notHere, notUp, Nat.not_lt.mpr short, absent]
  | kept here isName link kept =>
      obtain ⟨nonempty, notHere, notUp, short⟩ := isName
      rw [walk]
      simp [here, nonempty, notHere, notUp, Nat.not_lt.mpr short, link, kept]
  | followed here isName file link more? more ih =>
      obtain ⟨nonempty, notHere, notUp, short⟩ := isName
      rw [walk]
      simp [here, nonempty, notHere, notUp, Nat.not_lt.mpr short, link, file, more?, ih]
  | @entered links loc name rest node target here isName file there notLink more ih =>
      obtain ⟨nonempty, notHere, notUp, short⟩ := isName
      rw [walk]
      cases node with
      | directory => simp [here, nonempty, notHere, notUp, Nat.not_lt.mpr short, there, file, ih]
      | file m c => simp [here, nonempty, notHere, notUp, Nat.not_lt.mpr short, there, file, ih]
      | link text => exact absurd rfl (notLink text)

/-- Names are followed from directories alone. -/
theorem Leads.directory {links : Nat} {loc : Location} {names : List String} {target : Target}
    (h : Leads t ending links loc names target) (follows : names ≠ []) :
    t.get? loc = some .directory := by
  cases h with
  | done => exact absurd rfl follows
  | _ => assumption

/-! ## What a target is -/

/-- A target says what stands at its location. -/
theorem Leads.node_eq {links : Nat} {loc : Location} {names : List String} {target : Target}
    (h : Leads t ending links loc names target) : target.node = t.get? target.location := by
  induction h with
  | done => rfl
  | stay _ _ _ ih => exact ih
  | up _ _ _ ih => exact ih
  | missing _ _ absent => exact absent.symm
  | kept _ _ link _ => exact link.symm
  | followed _ _ _ _ _ _ ih => exact ih
  | entered _ _ _ _ _ _ ih => exact ih

/-- A name in a directory that is there. -/
structure Placed (t : FileTree) (dir : Location) (name : String) : Prop where
  directory : t.get? dir = some .directory
  isName : IsName name

/-- Names lead to a directory or to a place in one, unless there are none. -/
theorem Leads.placed {links : Nat} {loc : Location} {names : List String} {target : Target}
    (h : Leads t ending links loc names target) :
    (names = [] ∧ target.location = loc) ∨ t.get? target.location = some .directory ∨
      ∃ dir name, target.location = dir ++ [name] ∧ Placed t dir name := by
  induction h with
  | done => exact .inl ⟨rfl, rfl⟩
  | stay here _ _ ih =>
      rcases ih with ⟨-, hloc⟩ | h
      · exact .inr (.inl (hloc ▸ here))
      · exact .inr h
  | up _ above _ ih =>
      rcases ih with ⟨-, hloc⟩ | h
      · exact .inr (.inl (hloc ▸ above))
      · exact .inr h
  | missing here isName _ => exact .inr (.inr ⟨_, _, rfl, here, isName⟩)
  | kept here isName _ _ => exact .inr (.inr ⟨_, _, rfl, here, isName⟩)
  | @followed _ loc _ _ text _ here _ _ _ _ _ ih =>
      rcases ih with ⟨-, hloc⟩ | h
      -- an empty target leads to where the link lies, or to the root
      · refine .inr (.inl ?_)
        rw [hloc]
        split
        · rfl
        · exact here
      · exact .inr h
  | entered here isName _ _ _ _ ih =>
      rcases ih with ⟨-, hloc⟩ | h
      · exact .inr (.inr ⟨_, _, hloc, here, isName⟩)
      · exact .inr h

/-! ## Trees in which only files differ -/

/-- Two trees have the same directories and links, and files at the same locations. -/
def SameShape (t other : FileTree) : Prop :=
  ∀ loc, other.get? loc = t.get? loc ∨
    (∃ m c, t.get? loc = some (.file m c)) ∧ ∃ m c, other.get? loc = some (.file m c)

/-- What is no file is the same. -/
theorem SameShape.get?_eq {other : FileTree} (h : SameShape t other) {loc : Location}
    (hnode : ∀ m c, t.get? loc ≠ some (.file m c)) : other.get? loc = t.get? loc := by
  rcases h loc with h | ⟨⟨m, c, hfile⟩, -⟩
  · exact h
  · exact absurd hfile (hnode m c)

theorem SameShape.get?_eq_of {other : FileTree} (h : SameShape t other) {loc : Location}
    {node : Option Node} (hget : t.get? loc = node) (hnode : ∀ m c, node ≠ some (.file m c)) :
    other.get? loc = node := by
  rw [h.get?_eq (by rw [hget]; exact hnode), hget]

/-- What is a directory in one of the trees is one in the other. -/
theorem SameShape.directory_iff {other : FileTree} (h : SameShape t other) (loc : Location) :
    other.get? loc = some .directory ↔ t.get? loc = some .directory := by
  rcases h loc with h | ⟨⟨m, c, hfile⟩, m', c', hfile'⟩
  · rw [h]
  · simp [hfile, hfile']

/-- A file may have become another one, but no link. -/
theorem SameShape.exists_not_link {other : FileTree} (h : SameShape t other) {loc : Location}
    {node : Node} (there : t.get? loc = some node) (notLink : ∀ text, node ≠ .link text) :
    ∃ node', other.get? loc = some node' ∧ ∀ text, node' ≠ .link text := by
  rcases h loc with same | ⟨-, m, c, hfile⟩
  · exact ⟨node, same.trans there, notLink⟩
  · exact ⟨_, hfile, by simp⟩

/-- A walk goes the same way, or fails in the same way, when only files differ. -/
theorem walk_congr {other : FileTree} (hshape : SameShape t other) (links : Nat) (loc : Location)
    (names : List String) :
    other.walk ending links loc names =
      (t.walk ending links loc names).map fun target =>
        ⟨target.location, other.get? target.location⟩ := by
  have directory := hshape.directory_iff
  fun_induction walk t ending links loc names with
  | case1 => rw [walk]; rfl
  | case2 links loc name rest here => simp [walk, directory, here, Except.map]
  | case3 links loc name rest here blank ih =>
      rw [walk, if_neg (by simpa [directory] using here), if_pos blank]
      exact ih
  | case4 links loc rest here above _ ih =>
      rw [walk, if_neg (by simpa [directory] using here), if_neg (by decide), if_pos rfl,
        if_pos ((directory _).mpr above)]
      exact ih
  | case5 links loc rest here above _ =>
      rw [walk]
      simp [directory, here, above, Except.map]
  | case6 links loc name rest here blank notUp file =>
      rw [walk]
      simp [directory, here, blank, notUp, file, Except.map]
  | case7 links loc name rest here blank notUp file long =>
      rw [walk]
      simp [directory, here, blank, notUp, file, long, Except.map]
  | case8 links loc name here blank notUp short next absent =>
      have absent' := hshape.get?_eq_of absent (by simp)
      rw [walk]
      simp [directory, here, blank, notUp, short, next, absent', Except.map]
  | case9 links loc name rest here blank notUp file short next absent more =>
      have absent' := hshape.get?_eq_of absent (by simp)
      rw [walk]
      simp [directory, here, blank, notUp, short, file, next, absent', more, Except.map]
  | case10 links loc name rest here blank notUp file short next text link kept =>
      have link' := hshape.get?_eq_of link (by simp)
      rw [walk]
      simp [directory, here, blank, notUp, short, file, next, link', kept, Except.map]
  | case11 loc name rest here blank notUp file short next text link notKept =>
      have link' := hshape.get?_eq_of link (by simp)
      rw [walk]
      simp [directory, here, blank, notUp, short, file, next, link', notKept, Except.map]
  | case12 loc name rest here blank notUp file short next text link notKept links ih =>
      have link' := hshape.get?_eq_of link (by simp)
      rw [walk]
      simpa [directory, here, blank, notUp, short, file, next, link', notKept] using ih
  | case13 links loc name rest here blank notUp file short next node notLink there ih =>
      obtain ⟨node', there', notLink'⟩ :=
        hshape.exists_not_link there fun text h => notLink text h
      rw [walk]
      cases node' with
      | link text => exact absurd rfl (notLink' text)
      | _ => simpa [directory, here, blank, notUp, short, file, next, there'] using ih

/-- Names lead to the same place when only files differ. -/
theorem Leads.congr {other : FileTree} (hshape : SameShape t other) {links : Nat}
    {loc : Location} {names : List String} {target : Target}
    (h : Leads t ending links loc names target) :
    Leads other ending links loc names ⟨target.location, other.get? target.location⟩ := by
  apply leads_of_walk
  rw [walk_congr hshape, walk_of_leads h]
  rfl

/-- What was written through names is found through them: where they led for a file to be made or
written over, they lead to the file that is there now. -/
theorem Leads.written {other : FileTree} {links : Nat} {loc : Location} {names : List String}
    {target : Target} (h : Leads t .create links loc names target)
    (hnode : target.node = none ∨ ∃ m c, target.node = some (.file m c))
    (hsame : ∀ loc, loc ≠ target.location → other.get? loc = t.get? loc)
    {node : Node} (hfile : other.get? target.location = some node)
    (hlink : ∀ text, node ≠ .link text) :
    Leads other .follow links loc names ⟨target.location, some node⟩ := by
  -- what the names pass on the way is no file, so it is not what was written
  have passed {loc : Location} {n : Node} (h : t.get? loc = some n) (hn : ∀ m c, n ≠ .file m c)
      (hloc : target.node = t.get? target.location) : other.get? loc = some n := by
    rw [hsame loc ?_, h]
    rintro rfl
    rw [h] at hloc
    rcases hnode with hnode | ⟨m, c, hnode⟩
    · simp [hnode] at hloc
    · exact hn m c (by simpa [hnode] using hloc.symm)
  have hloc := h.node_eq
  induction h with
  | done =>
      rw [← hfile]
      exact .done
  | stay here blank _ ih =>
      exact .stay (passed here (by simp) hloc) blank (ih hnode hsame hfile passed hloc)
  | up here above _ ih =>
      exact .up (passed here (by simp) hloc) (passed above (by simp) hloc)
        (ih hnode hsame hfile passed hloc)
  | missing here isName absent =>
      rw [← hfile]
      exact .entered (passed here (by simp) hloc) isName (by simp) hfile hlink .done
  | kept _ _ _ kept => simp at kept
  | followed here isName file link more? _ ih =>
      exact .followed (passed here (by simp) hloc) isName (by simp) (passed link (by simp) hloc)
        (by simp) (ih hnode hsame hfile passed hloc)
  | @entered _ loc name rest n target here isName file there notLink more ih =>
      have found := ih hnode hsame hfile passed hloc
      have hdir := passed here (by simp) hloc
      by_cases hat : loc ++ [name] = target.location
      · exact .entered hdir isName (by simp) (hat ▸ hfile) hlink found
      · exact .entered hdir isName (by simp) ((hsame _ hat).trans there) notLink found

end SkillMarket.FileTree
