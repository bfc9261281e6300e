import SkillMarket.Proofs.FileTree.Access
import SkillMarket.Proofs.FileTree.Children

/-!
# Nodes in any order

What stands where, and where paths lead, does not depend on the order of the nodes of a tree. Only a
directory is listed in their order.
-/

namespace SkillMarket.FileTree

variable {t other : FileTree}

theorem get?_perm (h : other.nodes.Perm t.nodes) (loc : Location) :
    other.get? loc = t.get? loc := by
  by_cases hloc : loc = []
  · rw [hloc]
    rfl
  · ext node
    rw [get?_eq_some_iff hloc, get?_eq_some_iff hloc, h.mem_iff]

theorem stat_perm (h : other.nodes.Perm t.nodes) (here : Location) (path : String) :
    other.stat here path = t.stat here path := by
  have shape : SameShape t other := fun loc => .inl (get?_perm h loc)
  cases hstat : t.stat here path with
  | error e => exact stat_congr_of_error shape hstat
  | ok found =>
      obtain ⟨loc, node⟩ := found
      exact stat_congr shape hstat ((get?_perm h loc).trans (get?_of_stat hstat))

/-- A directory has the same children in another order. -/
theorem children_perm (h : other.nodes.Perm t.nodes) (loc : Location) :
    (other.children loc).Perm (t.children loc) :=
  h.filterMap _

end SkillMarket.FileTree
