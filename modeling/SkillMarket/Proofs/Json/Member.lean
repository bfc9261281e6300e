import SkillMarket.Proofs.Json.RoundTrip

/-!
# Setting a member

`Object.Sets` says what setting a member comes to, by the list of the members: one value changes in
its place, or one member is new at the end. `insert` does this and nothing else, and it keeps
objects well-formed.
-/

namespace SkillMarket.Json

namespace Object

/-- An object with the value of a key set: in the key's place if it was there, else at the end. -/
inductive Sets (key : String) (value : Value) : Object → Object → Prop
  | replaced {before after : Object} (old : Value) (first : key ∉ before.keys) :
      Sets key value (before ++ (key, old) :: after) (before ++ (key, value) :: after)
  | appended {o : Object} (absent : key ∉ o.keys) : Sets key value o (o ++ [(key, value)])

theorem Sets.cons {key k : String} {value v : Value} {o other : Object} (hk : k ≠ key)
    (h : Sets key value o other) : Sets key value ((k, v) :: o) ((k, v) :: other) := by
  have hkeys {o : Object} (ho : key ∉ o.keys) : key ∉ keys ((k, v) :: o) := by
    simpa [keys, Ne.symm hk] using ho
  cases h with
  | @replaced before after old first =>
      rw [← List.cons_append, ← List.cons_append]
      exact .replaced old (hkeys first)
  | appended absent => exact .appended (hkeys absent)

theorem sets_insert (o : Object) (key : String) (value : Value) :
    Sets key value o (o.insert key value) := by
  induction o with
  | nil => exact .appended (by simp [keys])
  | cons m o ih =>
      obtain ⟨k, v⟩ := m
      by_cases hk : k = key
      · subst hk
        rw [insert, if_pos rfl]
        have first : Sets k value ([] ++ (k, v) :: o) ([] ++ (k, value) :: o) :=
          .replaced v (by simp [keys])
        exact first
      · rw [insert, if_neg hk]
        exact ih.cons hk

theorem insert_append_of_notMem {before : Object} {key : String} (h : key ∉ before.keys)
    (value : Value) (after : Object) :
    insert key value (before ++ after) = before ++ insert key value after := by
  induction before with
  | nil => rfl
  | cons m before ih =>
      obtain ⟨k, v⟩ := m
      simp only [keys, List.map_cons, List.mem_cons, not_or] at h
      rw [List.cons_append, insert, if_neg (Ne.symm h.1), ih h.2, List.cons_append]

/-- Nothing but `insert` sets a member. -/
theorem Sets.eq_insert {o other : Object} {key : String} {value : Value}
    (h : Sets key value o other) : other = o.insert key value := by
  cases h with
  | replaced old first => rw [insert_append_of_notMem first, insert, if_pos rfl]
  | appended absent => exact (insert_of_notMem absent value).symm

/-- The value that was set last counts. -/
theorem insert_insert_self (o : Object) (key : String) (first second : Value) :
    (o.insert key first).insert key second = o.insert key second := by
  induction o with
  | nil => simp [insert]
  | cons m o ih =>
      obtain ⟨k, v⟩ := m
      by_cases hk : k = key
      · simp [insert, hk]
      · simp [insert, hk, ih]

/-- Setting the value that a key has changes nothing. -/
theorem insert_of_get? {o : Object} {key : String} {value : Value}
    (h : o.get? key = some value) : o.insert key value = o := by
  induction o with
  | nil => simp [get?_nil] at h
  | cons m o ih =>
      obtain ⟨k, v⟩ := m
      rw [get?_cons] at h
      by_cases hk : k = key
      · rw [if_pos hk, Option.some.injEq] at h
        simp [insert, hk, h]
      · rw [if_neg hk] at h
        simp [insert, hk, ih h]

theorem mem_of_get? {o : Object} {key : String} {value : Value}
    (h : o.get? key = some value) : (key, value) ∈ o := by
  induction o with
  | nil => simp [get?_nil] at h
  | cons m o ih =>
      obtain ⟨k, v⟩ := m
      rw [get?_cons] at h
      by_cases hk : k = key
      · rw [if_pos hk, Option.some.injEq] at h
        simp [hk, h]
      · rw [if_neg hk] at h
        exact List.mem_cons_of_mem _ (ih h)

end Object

/-! ## Well-formed objects -/

/-- An object nests what its members nest, and one level more. -/
theorem Value.WellFormed.members {d : Nat} {o : Object}
    (h : (Value.object o).WellFormed (d + 1)) : ∀ m ∈ o, m.2.WellFormed d := by
  cases h with
  | object _ members => exact members

theorem Value.WellFormed.items {d : Nat} {vs : List Value}
    (h : (Value.array vs).WellFormed (d + 1)) : ∀ v ∈ vs, v.WellFormed d := by
  cases h with
  | array items => exact items

theorem Value.WellFormed.get? {d : Nat} {o : Object} (h : (Value.object o).WellFormed (d + 1))
    {key : String} {value : Value} (hget : o.get? key = some value) : value.WellFormed d :=
  h.members _ (Object.mem_of_get? hget)

theorem Value.WellFormed.insert {d : Nat} {o : Object} (h : (Value.object o).WellFormed (d + 1))
    (key : String) {value : Value} (hvalue : value.WellFormed d) :
    (Value.object (o.insert key value)).WellFormed (d + 1) := by
  cases h with
  | object keys members =>
      refine .object (Object.nodup_keys_insert keys key value) fun m hm => ?_
      rcases Object.mem_insert hm with rfl | hm
      · exact hvalue
      · exact members m hm

/-! ## Numbers -/

/-- Setting a member brings in no numbers but those of its value. -/
theorem numbers_insert {o : Object} {key : String} {value : Value} {n : Number}
    (h : n ∈ (Value.object (o.insert key value)).numbers) :
    n ∈ (Value.object o).numbers ∨ n ∈ value.numbers := by
  obtain ⟨m, hm, hn⟩ := mem_numbersInMembers.mp h
  rcases Object.mem_insert hm with rfl | hm
  · exact .inr hn
  · exact .inl (mem_numbersInMembers.mpr ⟨m, hm, hn⟩)

/-- The numbers of a member are numbers of the object. -/
theorem numbers_subset_of_get? {o : Object} {key : String} {value : Value}
    (h : o.get? key = some value) : value.numbers ⊆ (Value.object o).numbers :=
  fun _ hn => mem_numbersInMembers.mpr ⟨_, Object.mem_of_get? h, hn⟩

/-! ## Other numbers -/

variable (f : Number → Number)

theorem get?_mapNumbersInMembers (o : Object) (key : String) :
    Object.get? (mapNumbersInMembers f o) key = (o.get? key).map (·.mapNumbers f) := by
  induction o with
  | nil => rfl
  | cons m o ih =>
      obtain ⟨k, v⟩ := m
      rw [mapNumbersInMembers, Object.get?_cons, Object.get?_cons, ih]
      split <;> rfl

theorem mapNumbersInMembers_insert (o : Object) (key : String) (value : Value) :
    mapNumbersInMembers f (o.insert key value)
      = Object.insert key (value.mapNumbers f) (mapNumbersInMembers f o) := by
  induction o with
  | nil => rfl
  | cons m o ih =>
      obtain ⟨k, v⟩ := m
      rw [Object.insert, mapNumbersInMembers, Object.insert]
      split
      · rfl
      · rw [mapNumbersInMembers, ih]

theorem asString?_mapNumbers (v : Value) : (v.mapNumbers f).asString? = v.asString? := by
  cases v <;> rfl

theorem asArray?_mapNumbers (v : Value) :
    (v.mapNumbers f).asArray? = v.asArray?.map (mapNumbersInItems f) := by
  cases v <;> rfl

theorem asObject?_mapNumbers (v : Value) :
    (v.mapNumbers f).asObject? = v.asObject?.map (mapNumbersInMembers f) := by
  cases v <;> rfl

end SkillMarket.Json
