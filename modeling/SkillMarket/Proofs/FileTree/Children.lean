import Mathlib.Data.List.Induction
import Mathlib.Data.List.Nodup
import SkillMarket.Proofs.FileTree.Walk

/-!
# What a directory holds

The children of a directory are what stands one name below it, each name once. In a tree that a
file system can hold, whatever is there stands in a directory and has a name without slashes; so
the names of a location lead from the root through directories alone.
-/

namespace SkillMarket.FileTree

variable {t : FileTree} {loc : Location} {name : String} {node : Node}

/-! ## Children -/

theorem find?_eq_some_iff {ns : List (Location × Node)} (distinct : (ns.map Prod.fst).Nodup) :
    find? loc ns = some node ↔ (loc, node) ∈ ns := by
  induction ns with
  | nil => simp [find?]
  | cons first ns ih =>
      obtain ⟨l, n⟩ := first
      obtain ⟨new, distinct⟩ := List.nodup_cons.mp distinct
      rw [find?, List.mem_cons, Prod.mk.injEq]
      by_cases hl : l = loc
      · subst hl
        -- the location is not there a second time
        have once : (l, node) ∉ ns := fun h => new (List.mem_map.mpr ⟨_, h, rfl⟩)
        simp [once, eq_comm]
      · simp [hl, Ne.symm hl, ih distinct]

/-- What stands below the root is among the nodes. -/
theorem get?_eq_some_iff (h : loc ≠ []) : t.get? loc = some node ↔ (loc, node) ∈ t.nodes := by
  rw [get?, if_neg h, find?_eq_some_iff t.distinct]

theorem child_eq_some_iff {l : Location} {n : Node} :
    (match l.getLast? with
      | some last => if l.dropLast = loc then some (last, n) else none
      | none => none) = some (name, node) ↔ l = loc ++ [name] ∧ n = node := by
  rcases List.eq_nil_or_concat' l with rfl | ⟨dir, last, rfl⟩
  · simp
  · rw [List.getLast?_concat, List.dropLast_concat, List.append_singleton_inj]
    by_cases hdir : dir = loc <;> simp [hdir]

/-- **The children of a location are what stands one name below it.** -/
theorem mem_children_iff :
    (name, node) ∈ t.children loc ↔ t.get? (loc ++ [name]) = some node := by
  rw [get?_eq_some_iff (by simp), children, List.mem_filterMap]
  constructor
  · rintro ⟨⟨l, n⟩, hp, hchild⟩
    obtain ⟨rfl, rfl⟩ := child_eq_some_iff.mp hchild
    exact hp
  · exact fun h => ⟨_, h, child_eq_some_iff.mpr ⟨rfl, rfl⟩⟩

/-- No name is there twice. -/
theorem nodup_children (t : FileTree) (loc : Location) :
    ((t.children loc).map Prod.fst).Nodup := by
  have locations : ((t.children loc).map fun child => loc ++ [child.1]).Sublist
      (t.nodes.map Prod.fst) := by
    unfold children
    induction t.nodes with
    | nil => exact List.Sublist.refl _
    | cons p ns ih =>
        rw [List.filterMap_cons]
        split
        · exact ih.cons _
        · next child hchild =>
          rw [List.map_cons, List.map_cons, (child_eq_some_iff.mp hchild).1]
          exact ih.cons_cons _
  have distinct := t.distinct.sublist locations
  have names := List.Nodup.of_map (fun child : String => loc ++ [child])
    (l := (t.children loc).map Prod.fst)
  rw [List.map_map] at names
  exact names distinct

/-! ## Trees that a file system can hold -/

/-- A name that a file can have. -/
structure IsFileName (name : String) : Prop extends IsName name where
  noSlash : '/' ∉ name.toList
  noNul : '\x00' ∉ name.toList

instance (name : String) : Decidable (IsFileName name) :=
  decidable_of_iff
    ((name ≠ "" ∧ name ≠ "." ∧ name ≠ ".." ∧ name.utf8ByteSize ≤ maxName) ∧
      '/' ∉ name.toList ∧ '\x00' ∉ name.toList)
    ⟨fun ⟨⟨nonempty, notHere, notUp, short⟩, noSlash, noNul⟩ =>
        ⟨⟨nonempty, notHere, notUp, short⟩, noSlash, noNul⟩,
      fun h => ⟨⟨h.nonempty, h.notHere, h.notUp, h.short⟩, h.noSlash, h.noNul⟩⟩

/-- Whatever is there stands in a directory and has a name. -/
def WellFormed (t : FileTree) : Prop :=
  ∀ loc name node, t.get? (loc ++ [name]) = some node →
    t.get? loc = some .directory ∧ IsFileName name

/-- It is enough to look at the nodes. -/
theorem wellFormed_of_nodes (h : ∀ p ∈ t.nodes, t.get? p.1.dropLast = some .directory ∧
    ∀ name ∈ p.1.getLast?, IsFileName name) : t.WellFormed := by
  intro loc name node hget
  have found := h _ ((get?_eq_some_iff (by simp)).mp hget)
  rw [List.dropLast_concat, List.getLast?_concat] at found
  exact ⟨found.1, found.2 name rfl⟩

namespace WellFormed

/-- A tree in which only files differ can be held as well. -/
theorem congr {other : FileTree} (h : t.WellFormed) (hshape : SameShape t other) :
    other.WellFormed := by
  intro loc name node there
  have before : ∃ node', t.get? (loc ++ [name]) = some node' := by
    rcases hshape (loc ++ [name]) with same | ⟨⟨m, c, hfile⟩, -⟩
    · exact ⟨node, same ▸ there⟩
    · exact ⟨_, hfile⟩
  obtain ⟨node', before⟩ := before
  obtain ⟨directory, isFileName⟩ := h loc name node' before
  exact ⟨(hshape.directory_iff loc).mpr directory, isFileName⟩

/-- What a directory lies in is a directory. -/
theorem directory_of_append (h : t.WellFormed) {names : List String}
    (below : t.get? (loc ++ names) = some .directory) : t.get? loc = some .directory := by
  induction names using List.reverseRecOn with
  | nil => rwa [List.append_nil] at below
  | append_singleton names name ih =>
      rw [← List.append_assoc] at below
      exact ih (h _ _ _ below).1

/-- The names of a directory are names that files can have. -/
theorem isFileName_of_mem (h : t.WellFormed) (there : t.get? loc = some .directory)
    (hname : name ∈ loc) : IsFileName name := by
  obtain ⟨above, below, rfl⟩ := List.append_of_mem hname
  rw [List.append_cons] at there
  exact (h _ _ _ (h.directory_of_append there)).2

/-- Names that lead on from a directory lead there from every directory that it lies in. -/
theorem leads_append (h : t.WellFormed) {links : Nat} {names rest : List String}
    {target : Target} (there : t.get? (loc ++ names) = some .directory)
    (leads : Leads t .follow links (loc ++ names) rest target) :
    Leads t .follow links loc (names ++ rest) target := by
  induction names generalizing loc with
  | nil => rwa [List.append_nil] at leads
  | cons name names ih =>
      rw [List.append_cons] at there leads
      have inside := h.directory_of_append there
      obtain ⟨outside, isFileName⟩ := h _ _ _ inside
      exact .entered outside isFileName.toIsName (by simp) inside (by simp) (ih there leads)

end WellFormed

/-! ## One name more -/

/-- A directory that names lead to can be entered with one name more. -/
theorem Leads.entered_at_end {links : Nat} {names : List String} {target : Target}
    {dir : Location} (leads : Leads t .follow links loc names target)
    (at_dir : target = ⟨dir, some .directory⟩) (isName : IsName name)
    (there : t.get? (dir ++ [name]) = some .directory) :
    Leads t .follow links loc (names ++ [name]) ⟨dir ++ [name], some .directory⟩ := by
  induction leads with
  | @done _ loc =>
      obtain ⟨rfl, here⟩ := Target.mk.inj at_dir
      rw [← there]
      exact .entered here isName (by simp) there (by simp) .done
  | stay here blank _ ih => exact .stay here blank (ih at_dir)
  | up here above _ ih => exact .up here above (ih at_dir)
  | missing => simp at at_dir
  | kept _ _ _ kept => simp at kept
  | followed here isName' file link _ _ ih =>
      refine .followed here isName' (by simp) link (by simp) ?_
      have longer := ih at_dir
      rwa [List.append_assoc] at longer
  | entered here isName' file inside notLink _ ih =>
      exact .entered here isName' (by simp) inside notLink (ih at_dir)

/-- A slash at the end only asks for a directory. -/
theorem Leads.without_slash {links : Nat} {names : List String} {target : Target}
    (leads : Leads t .follow links loc (names ++ [""]) target) :
    Leads t .follow links loc names target := by
  generalize hall : names ++ [""] = all at leads
  induction leads generalizing names with
  | done => simp at hall
  | @stay _ _ _ rest _ here blank more ih =>
      rcases List.append_eq_cons_iff.mp hall with ⟨rfl, hrest⟩ | ⟨more', rfl, hrest⟩
      · rw [List.cons.injEq] at hrest
        rw [← hrest.2] at more
        cases more
        exact .done
      · exact .stay here blank (ih hrest.symm)
  | up here above _ ih =>
      rcases List.append_eq_cons_iff.mp hall with ⟨rfl, hrest⟩ | ⟨more', rfl, hrest⟩
      · simp at hrest
      · exact .up here above (ih hrest.symm)
  | @missing _ _ name _ isName _ =>
      rcases List.append_eq_cons_iff.mp hall with ⟨rfl, hrest⟩ | ⟨more', rfl, hrest⟩
      · exact absurd (List.cons.inj hrest).1.symm isName.nonempty
      · simp at hrest
  | kept _ _ _ kept => simp at kept
  | followed here isName file link _ more ih =>
      rcases List.append_eq_cons_iff.mp hall with ⟨rfl, hrest⟩ | ⟨more', rfl, hrest⟩
      · exact absurd (List.cons.inj hrest).1.symm isName.nonempty
      · refine .followed here isName (by simp) link (by simp) (ih ?_)
        rw [hrest, List.append_assoc]
  | entered here isName file inside notLink _ ih =>
      rcases List.append_eq_cons_iff.mp hall with ⟨rfl, hrest⟩ | ⟨more', rfl, hrest⟩
      · exact absurd (List.cons.inj hrest).1.symm isName.nonempty
      · exact .entered here isName (by simp) inside notLink (ih hrest.symm)

end SkillMarket.FileTree
