import Mathlib.Data.List.Perm.Subperm
import SkillMarket.Proofs.Json.Member
import SkillMarket.Proofs.Json.Range

/-!
# Equality as data

Two objects are equal as data if every key has equal values in both, whatever the order of the keys.
So what is looked up in equal objects is equal, and setting a member keeps them equal, be it in its
place in the one and at the end in the other. Writing equal values and reading them again gives
equal values, though numbers may become other ones.
-/

namespace SkillMarket.Json

/-! ## Objects as lookups -/

namespace Object

theorem get?_eq_none_iff {o : Object} {key : String} : o.get? key = none ↔ key ∉ o.keys := by
  induction o with
  | nil => simp [get?_nil, keys]
  | cons m o ih =>
      obtain ⟨k, v⟩ := m
      rw [get?_cons]
      by_cases hk : k = key
      · simp [hk, keys]
      · rw [if_neg hk, ih]
        simp [keys, Ne.symm hk]

/-- What is listed is found, if no key is there twice. -/
theorem get?_of_mem {o : Object} (h : o.keys.Nodup) {key : String} {value : Value}
    (hmem : (key, value) ∈ o) : o.get? key = some value := by
  induction o with
  | nil => simp at hmem
  | cons m o ih =>
      obtain ⟨k, v⟩ := m
      simp only [keys, List.map_cons, List.nodup_cons] at h
      rw [get?_cons]
      rcases List.mem_cons.mp hmem with hfirst | hmore
      · rw [Prod.mk.injEq] at hfirst
        rw [if_pos hfirst.1.symm, hfirst.2]
      · rw [if_neg, ih h.2 hmore]
        rintro rfl
        exact h.1 (List.mem_map_of_mem hmore)

end Object

/-- Both have a value, and the values are equal as data, or neither has one. -/
abbrev SameValue : Option Value → Option Value → Prop := Option.Rel (·.same · = true)

theorem SameValue.eq_none_iff {a b : Option Value} (h : SameValue a b) : a = none ↔ b = none := by
  cases h <;> simp

theorem sameMembers_iff {ms : List (String × Value)} {o : Object} :
    sameMembers ms o = true ↔ ∀ m ∈ ms, SameValue (some m.2) (o.get? m.1) := by
  induction ms with
  | nil => simp [sameMembers]
  | cons m ms ih =>
      obtain ⟨k, v⟩ := m
      rw [sameMembers, Bool.and_eq_true, ih, List.forall_mem_cons]
      refine and_congr_left fun _ => ?_
      cases o.get? k with
      | none => simp
      | some w => simp

/-- **Objects are equal as data if what is looked up in them is.** -/
theorem Object.same_iff {a b : Object} (ha : a.keys.Nodup) (hb : b.keys.Nodup) :
    a.same b = true ↔ ∀ key, SameValue (a.get? key) (b.get? key) := by
  have length (o : Object) : o.keys.length = o.length := List.length_map _
  rw [Object.same, Value.same, Bool.and_eq_true, beq_iff_eq, sameMembers_iff, ← length a,
    ← length b]
  constructor
  · rintro ⟨equal, members⟩ key
    cases hget : a.get? key with
    | some v => exact members _ (mem_of_get? hget)
    | none =>
        -- the second object has no key more than the first one, as they are as many
        have subset : a.keys ⊆ b.keys := by
          intro k hk
          obtain ⟨⟨_, v⟩, hm, rfl⟩ := List.mem_map.mp hk
          by_contra absent
          simpa using (members _ hm).eq_none_iff.mpr (get?_eq_none_iff.mpr absent)
        have perm := (List.subperm_of_subset ha subset).perm_of_length_le equal.ge
        rw [get?_eq_none_iff, perm.mem_iff, ← get?_eq_none_iff] at hget
        rw [hget]
        exact .none
  · intro same
    refine ⟨((List.perm_ext_iff_of_nodup ha hb).mpr fun key => ?_).length_eq, fun m hm => ?_⟩
    · rw [← not_iff_not, ← get?_eq_none_iff, ← get?_eq_none_iff]
      exact (same key).eq_none_iff
    · rw [← get?_of_mem ha hm]
      exact same m.1

/-- Objects that are equal as data, neither with a key twice. -/
structure Object.Same (a b : Object) : Prop where
  keys : a.keys.Nodup
  keys' : b.keys.Nodup
  values (key : String) : SameValue (a.get? key) (b.get? key)

theorem Object.Same.same {a b : Object} (h : Object.Same a b) : a.same b = true :=
  (Object.same_iff h.keys h.keys').mpr h.values

/-- **Setting a member keeps objects equal**, wherever its key stands in them. -/
theorem Object.Same.insert {a b : Object} (h : Object.Same a b) (key : String) {v w : Value}
    (hvalue : v.same w = true) : Object.Same (a.insert key v) (b.insert key w) where
  keys := nodup_keys_insert h.keys key v
  keys' := nodup_keys_insert h.keys' key w
  values other := by
    by_cases hother : other = key
    · rw [hother, get?_insert_self, get?_insert_self]
      exact .some hvalue
    · rw [get?_insert_of_ne a v hother, get?_insert_of_ne b w hother]
      exact h.values other

theorem Value.WellFormed.nodup_keys {d : Nat} {o : Object} (h : (Value.object o).WellFormed d) :
    o.keys.Nodup := by
  cases h with
  | object keys _ => exact keys

/-! ## Views -/

section MapNumbers

variable {f : Number → Number}

mutual

/-- Equal values stay equal with other numbers, if equal numbers become equal ones. -/
theorem Value.same_mapNumbers : ∀ {v w : Value}
    (_ : ∀ n ∈ v.numbers, ∀ n', n.same n' = true → (f n).same (f n') = true),
    v.same w = true → (v.mapNumbers f).same (w.mapNumbers f) = true
  | .null, w, _, h => by cases w <;> simp_all [Value.same, Value.mapNumbers]
  | .bool _, w, _, h => by cases w <;> simp_all [Value.same, Value.mapNumbers]
  | .string _, w, _, h => by cases w <;> simp_all [Value.same, Value.mapNumbers]
  | .number n, w, keeps, h => by
      cases w <;> simp_all [Value.same, Value.mapNumbers, Value.numbers]
  | .array vs, .array ws, keeps, h => by
      rw [Value.same] at h
      rw [Value.mapNumbers, Value.mapNumbers, Value.same]
      exact sameItems_mapNumbers keeps h
  | .object ms, .object o, keeps, h => by
      rw [Value.same, Bool.and_eq_true, beq_iff_eq] at h
      rw [Value.mapNumbers, Value.mapNumbers, Value.same, Bool.and_eq_true, beq_iff_eq,
        mapNumbersInMembers_eq_map, mapNumbersInMembers_eq_map, List.length_map, List.length_map,
        ← mapNumbersInMembers_eq_map, ← mapNumbersInMembers_eq_map]
      exact ⟨h.1, sameMembers_mapNumbers keeps h.2⟩

theorem sameItems_mapNumbers : ∀ {vs ws : List Value}
    (_ : ∀ n ∈ numbersInItems vs, ∀ n', n.same n' = true → (f n).same (f n') = true),
    sameItems vs ws = true →
    sameItems (mapNumbersInItems f vs) (mapNumbersInItems f ws) = true
  | [], [], _, _ => rfl
  | v :: vs, w :: ws, keeps, h => by
      rw [sameItems, Bool.and_eq_true] at h
      rw [mapNumbersInItems, mapNumbersInItems, sameItems, Bool.and_eq_true]
      simp only [numbersInItems, List.mem_append] at keeps
      exact ⟨Value.same_mapNumbers (fun n hn => keeps n (.inl hn)) h.1,
        sameItems_mapNumbers (fun n hn => keeps n (.inr hn)) h.2⟩

theorem sameMembers_mapNumbers : ∀ {ms : List (String × Value)} {o : Object}
    (_ : ∀ n ∈ numbersInMembers ms, ∀ n', n.same n' = true → (f n).same (f n') = true),
    sameMembers ms o = true →
    sameMembers (mapNumbersInMembers f ms) (mapNumbersInMembers f o) = true
  | [], _, _, _ => rfl
  | (k, v) :: ms, o, keeps, h => by
      rw [sameMembers, Bool.and_eq_true] at h
      rw [mapNumbersInMembers, sameMembers, Bool.and_eq_true, get?_mapNumbersInMembers]
      simp only [numbersInMembers, List.mem_append] at keeps
      refine ⟨?_, sameMembers_mapNumbers (fun n hn => keeps n (.inr hn)) h.2⟩
      cases hget : o.get? k with
      | none => simp [hget] at h
      | some w =>
          rw [hget] at h
          exact Value.same_mapNumbers (fun n hn => keeps n (.inl hn)) h.1

end

end MapNumbers

end SkillMarket.Json
