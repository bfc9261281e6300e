import SkillMarket.Proofs.FileTree.Access
import SkillMarket.Proofs.FileTree.Passes

/-!
# Changing a tree

What is changed is changed at one location, if the system allows it. What was put where nothing was
can be taken away again, and the tree is the one from before.
-/

namespace SkillMarket.FileTree

variable {t : FileTree} {loc : Location}

/-! ## Putting and taking away -/

theorem replace_replace (loc : Location) (node node' : Node) (ns : List (Location × Node)) :
    replace loc node' (replace loc node ns) = replace loc node' ns := by
  induction ns with
  | nil => simp [replace]
  | cons first ns ih =>
      obtain ⟨l, n⟩ := first
      by_cases hl : l = loc <;> simp [replace, hl, ih]

/-- Of two nodes that are put at one location the second one counts. -/
@[simp] theorem put_put (t : FileTree) (loc : Location) (node node' : Node) :
    (t.put loc node).put loc node' = t.put loc node' := by
  simp [put, replace_replace]

@[simp] theorem put_access (t : FileTree) (loc : Location) (node : Node) :
    (t.put loc node).access = t.access :=
  rfl

theorem filter_replace_of_absent {loc : Location} {ns : List (Location × Node)} (node : Node)
    (absent : find? loc ns = none) : (replace loc node ns).filter (·.1 ≠ loc) = ns := by
  induction ns with
  | nil => simp [replace]
  | cons first ns ih =>
      obtain ⟨l, n⟩ := first
      by_cases hl : l = loc
      · simp [find?, hl] at absent
      · simp only [find?, hl, if_false] at absent
        simpa [replace, hl] using ih absent

/-- What was put where nothing was can be taken away again. -/
theorem erase_put_of_absent (node : Node) (absent : t.get? loc = none) :
    (t.put loc node).erase loc = t := by
  have nonempty : loc ≠ [] := by
    rintro rfl
    simp [get?] at absent
  rw [get?, if_neg nonempty] at absent
  obtain ⟨nodes, distinct, access⟩ := t
  simp only [erase, keep, put, FileTree.mk.injEq, and_true]
  exact filter_replace_of_absent node absent

/-! ## Changes that are allowed -/

theorem allow_eq_ok_iff {change : Change} {after done : FileTree} :
    t.allow change after = .ok done ↔ t.access.refuses change = none ∧ done = after := by
  unfold allow
  cases t.access.refuses change <;> simp [eq_comm]

/-- A file of so many permissions can be written at a target: a new one, or over one that is
there. -/
def Takes (t : FileTree) (target : Target) (mode : Nat) : Prop :=
  (t.get? target.location = none ∧ mode = newMode ∧
    t.access.refuses (.create target.location) = none) ∨
  ∃ old, t.get? target.location = some (.file mode old)

/-- A file is written where there was none, or over one that was there. -/
theorem exists_put_of_writeAt {written : FileTree} {content : ByteArray} {target : Target}
    (there : target.node = t.get? target.location) (h : t.writeAt content target = .ok written) :
    ∃ mode, t.Takes target mode ∧ written = t.put target.location (.file mode content) := by
  obtain ⟨loc, node⟩ := target
  simp only at there
  cases node with
  | none =>
      obtain ⟨allowed, rfl⟩ := allow_eq_ok_iff.mp h
      exact ⟨newMode, .inl ⟨there.symm, rfl, allowed⟩, rfl⟩
  | some node =>
      cases node with
      | file mode old =>
          obtain ⟨-, rfl⟩ := allow_eq_ok_iff.mp h
          exact ⟨mode, .inr ⟨old, there.symm⟩, rfl⟩
      | directory => simp [writeAt] at h
      | link text => simp [writeAt] at h

theorem write_eq_ok_iff {here : Location} {path : String} {content : ByteArray}
    {done : FileTree} : t.write here path content = .ok done ↔
      ∃ target, t.locate here .create path = .ok target ∧ t.writeAt content target = .ok done := by
  unfold write
  cases t.locate here .create path <;> simp [bind, Except.bind]

theorem remove_eq_ok_iff {here : Location} {path : String} {done : FileTree} :
    t.remove here path = .ok done ↔ ∃ target, t.locate here .keep path = .ok target ∧
      target.node ≠ none ∧ target.node ≠ some .directory ∧
      t.access.refuses (.remove target.location) = none ∧ done = t.erase target.location := by
  unfold remove
  cases t.locate here .keep path with
  | error e => simp [bind, Except.bind]
  | ok target =>
      obtain ⟨l, _ | node⟩ := target
      · simp [bind, Except.bind, removeAt]
      · cases node <;> simp [bind, Except.bind, removeAt, allow_eq_ok_iff]

/-- What is no directory moves, or the system refuses the move. -/
theorem renameAt_eq {source goal : Location} {node : Node} {there : Option Node}
    (hnode : node ≠ .directory) (hthere : there ≠ some .directory) :
    t.renameAt ⟨source, some node⟩ ⟨goal, there⟩ =
      t.allow (.move source goal) ((t.erase source).put goal node) := by
  cases node with
  | directory => exact absurd rfl hnode
  | _ =>
      cases there with
      | none => rfl
      | some node =>
          cases node with
          | directory => exact absurd rfl hthere
          | _ => rfl

namespace Takes

variable {target : Target} {mode : Nat}

/-- No directory or link is where a file can be written. -/
theorem none_or_file (h : t.Takes target mode) :
    t.get? target.location = none ∨ ∃ m c, t.get? target.location = some (.file m c) := by
  rcases h with ⟨absent, -⟩ | ⟨old, hfile⟩
  · exact .inl absent
  · exact .inr ⟨mode, old, hfile⟩

theorem ne_nil (h : t.Takes target mode) : target.location ≠ [] := by
  rcases h.none_or_file with absent | ⟨m, c, hfile⟩
  · exact ne_nil_of_get? absent (by simp)
  · exact ne_nil_of_get? hfile (by simp)

/-- A file that is written keeps directories and links as they were, and files files. -/
theorem extends_put (h : t.Takes target mode) (mode' : Nat) (content : ByteArray) :
    Extends (t.put target.location (.file mode' content)) t := by
  intro l node hnode
  rw [get?_put t h.ne_nil]
  by_cases hl : target.location = l
  · rcases h.none_or_file with absent | ⟨m, c, hfile⟩
    · simp [← hl, absent] at hnode
    · rw [← hl, hfile, Option.some.injEq] at hnode
      exact .inr ⟨m, c, mode', content, hnode.symm, if_pos hl⟩
  · exact .inl (by rw [if_neg hl, hnode])

end Takes

end SkillMarket.FileTree
