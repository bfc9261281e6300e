import Mathlib.Data.List.Lex
import SkillMarket.Proofs.Path.Parts
import SkillMarket.Proofs.Text.Order

/-!
# The order of paths

Paths are compared part by part: the root comes first, then a `.`, a `..`, and the names in the
order of their bytes. So paths that go on from one directory with a name each are in the order of
these names.
-/

namespace SkillMarket.Path

/-- What a part is compared by: its kind and, for a name, the bytes. -/
def Part.key : Part → List Nat
  | .root => [0]
  | .here => [1]
  | .up => [2]
  | .name text => 3 :: (Text.bytes text).map UInt8.toNat

/-- What a path is compared by: its parts, one after the other. -/
def key (path : String) : List (List Nat) := (parts path).map Part.key

/-- The path does not come after the other one. -/
def atMost (a b : String) : Bool := key a ≤ key b

theorem atMost_iff {a b : String} : atMost a b = true ↔ key a ≤ key b := by
  rw [atMost, decide_eq_true_eq]

theorem atMost_trans (a b c : String) (hab : atMost a b = true) (hbc : atMost b c = true) :
    atMost a c = true :=
  atMost_iff.mpr ((atMost_iff.mp hab).trans (atMost_iff.mp hbc))

theorem atMost_total (a b : String) : (atMost a b || atMost b a) = true := by
  rw [Bool.or_eq_true, atMost_iff, atMost_iff]
  exact le_total _ _

/-! ## Names behind one directory -/

variable {root a b : String}

/-- Names are in the order of their bytes. -/
theorem Part.key_name_lt (h : a < b) : (Part.name a).key < (Part.name b).key := by
  rw [Part.key, Part.key, List.cons_lt_cons_iff]
  refine .inr ⟨rfl, List.map_lt (fun _ _ => UInt8.lt_iff_toNat_lt.mp) ?_⟩
  exact Text.bytes_lt_bytes_iff.mpr h

theorem key_join (ha : IsOne a a) : key (join root a) = key root ++ [(Part.name a).key] := by
  rw [key, ha.parts_join, List.map_append, List.map_singleton, key]

/-- **Paths that go on from one directory are in the order of the names that they go on with.** -/
theorem atMost_join_iff (ha : IsOne a a) (hb : IsOne b b) :
    atMost (join root a) (join root b) = true ↔ a ≤ b := by
  have less {a b : String} (ha : IsOne a a) (hb : IsOne b b) (h : a < b) :
      key (join root a) < key (join root b) := by
    rw [key_join ha, key_join hb]
    exact List.append_left_lt (List.cons_lt_cons_iff.mpr (.inl (Part.key_name_lt h)))
  rw [atMost_iff]
  constructor
  · intro h
    by_contra hba
    exact absurd h (less hb ha (lt_of_not_ge hba)).not_ge
  · intro h
    rcases h.lt_or_eq with h | rfl
    · exact (less ha hb h).le
    · exact le_rfl

/-- A path that goes on with a name is called by it. -/
theorem fileName?_join (ha : IsOne a a) : fileName? (join root a) = some a := by
  rw [fileName?_eq_some_iff, ha.parts_join, List.getLast?_concat]

end SkillMarket.Path
