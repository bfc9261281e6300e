import SkillMarket.Proofs.Json.Numeral

/-!
# Well-formed values

The values that a reader gives: lists and objects nest only so deep, no object has a key twice,
every integer fits a 64-bit word, and every binary64 number is finite. The predicate looks at the
value alone; `wellFormed_parse` says that reading never leaves it.
-/

namespace SkillMarket.Json

/-! ## Objects -/

namespace Object

theorem mem_insert {o : Object} {key : String} {value : Value} {m : String × Value}
    (h : m ∈ o.insert key value) : m = (key, value) ∨ m ∈ o := by
  induction o with
  | nil => exact .inl (by simpa [insert] using h)
  | cons first o ih =>
      obtain ⟨k, v⟩ := first
      by_cases hk : k = key
      · subst hk
        simp only [insert, if_true, List.mem_cons] at h ⊢
        exact h.imp_right .inr
      · simp only [insert, hk, if_false, List.mem_cons] at h ⊢
        rcases h with h | h
        · exact .inr (.inl h)
        · exact (ih h).imp_right .inr

theorem nodup_keys_insert {o : Object} (h : o.keys.Nodup) (key : String) (value : Value) :
    (o.insert key value).keys.Nodup := by
  rw [keys_insert]
  split
  · exact h
  · next absent =>
    rw [List.nodup_append]
    refine ⟨h, by simp, ?_⟩
    rintro k hk other hother rfl
    simp only [List.mem_singleton] at hother
    exact absent (hother ▸ hk)

/-- A key that is not there goes to the end. -/
theorem insert_of_notMem {o : Object} {key : String} (h : key ∉ o.keys) (value : Value) :
    o.insert key value = o ++ [(key, value)] := by
  induction o with
  | nil => rfl
  | cons first o ih =>
      obtain ⟨k, v⟩ := first
      simp only [keys, List.map_cons, List.mem_cons, not_or] at h
      simp only [insert, Ne.symm h.1, if_false, List.cons_append, ih h.2]

theorem nodup_keys_ofMembers (ms : List (String × Value)) : (ofMembers ms).keys.Nodup := by
  have go (ms : List (String × Value)) (o : Object) (h : o.keys.Nodup) :
      (ms.foldl (fun o m => o.insert m.1 m.2) o).keys.Nodup := by
    induction ms generalizing o with
    | nil => exact h
    | cons m ms ih => exact ih _ (nodup_keys_insert h m.1 m.2)
  exact go ms [] List.nodup_nil

theorem mem_ofMembers {ms : List (String × Value)} {m : String × Value}
    (h : m ∈ ofMembers ms) : m ∈ ms := by
  have go (ms : List (String × Value)) (o : Object)
      (h : m ∈ ms.foldl (fun o m => o.insert m.1 m.2) o) : m ∈ o ∨ m ∈ ms := by
    induction ms generalizing o with
    | nil => exact .inl h
    | cons first ms ih =>
        rcases ih _ h with h | h
        · rcases mem_insert h with rfl | h
          · exact .inr (by simp)
          · exact .inl h
        · exact .inr (List.mem_cons_of_mem _ h)
  rcases go ms [] h with h | h
  · simp at h
  · exact h

/-- Members whose keys are all different make the object that lists them. -/
theorem ofMembers_of_nodup {ms : List (String × Value)} (h : (keys ms).Nodup) :
    ofMembers ms = ms := by
  have go (ms : List (String × Value)) (o : Object) (h : (keys (o ++ ms)).Nodup) :
      ms.foldl (fun o m => o.insert m.1 m.2) o = o ++ ms := by
    induction ms generalizing o with
    | nil => simp
    | cons m ms ih =>
        have absent : m.1 ∉ o.keys := by
          intro hm
          simp only [keys, List.map_append, List.map_cons] at h hm
          exact (List.nodup_append.mp h).2.2 _ hm _ (by simp) rfl
        have hnext : o ++ [m] ++ ms = o ++ m :: ms := by simp
        rw [List.foldl_cons, insert_of_notMem absent, ih _ (by rw [hnext]; exact h), hnext]
  exact go ms [] h

end Object

/-! ## Values -/

/-- Lists and objects nest at most `depth` deep, no object has a key twice, and every number is in
range. -/
inductive Value.WellFormed : (depth : Nat) → Value → Prop
  | null {d} : WellFormed d .null
  | bool {d} (b) : WellFormed d (.bool b)
  | number {d n} (range : n.InRange) : WellFormed d (.number n)
  | string {d} (s) : WellFormed d (.string s)
  | array {d vs} (items : ∀ v ∈ vs, WellFormed d v) : WellFormed (d + 1) (.array vs)
  | object {d ms} (keys : (Object.keys ms).Nodup) (members : ∀ m ∈ ms, WellFormed d m.2) :
      WellFormed (d + 1) (.object ms)

/-! ## Lists and objects as they are read -/

theorem readItems_next {item : List Char → Reading Value} {fuel : Nat} {read vs : List Value}
    {from_ rest : List Char}
    (h : (match item from_ with
      | .error stop => .error stop
      | .ok (v, after) => readItems item fuel (v :: read) after) = Except.ok (vs, rest)) :
    ∃ from_ v after, item from_ = .ok (v, after) ∧
      readItems item fuel (v :: read) after = .ok (vs, rest) := by
  split at h
  · simp at h
  · next v after hitem => exact ⟨from_, v, after, hitem, h⟩

/-- A list ends at its bracket, or goes on with an item. -/
theorem readItems_cases {item : List Char → Reading Value} {fuel : Nat} {read vs : List Value}
    {cs rest : List Char} (h : readItems item (fuel + 1) read cs = .ok (vs, rest)) :
    vs = read.reverse ∨ ∃ from_ v after, item from_ = .ok (v, after) ∧
      readItems item fuel (v :: read) after = .ok (vs, rest) := by
  rw [readItems] at h
  dsimp only at h
  split at h
  · simp at h
  · simp only [Except.ok.injEq, Prod.mk.injEq] at h
    exact .inl h.1.symm
  · split at h
    · exact .inr (readItems_next h)
    · split at h
      · split at h
        · simp at h
        · simp at h
        · exact .inr (readItems_next h)
      · simp at h

/-- What holds of every item that is read holds of every item of the list. -/
theorem forall_mem_readItems {P : Value → Prop} {item : List Char → Reading Value}
    (hitem : ∀ cs v rest, item cs = .ok (v, rest) → P v) {fuel : Nat} {read vs : List Value}
    {cs rest : List Char} (h : readItems item fuel read cs = .ok (vs, rest))
    (hread : ∀ v ∈ read, P v) : ∀ v ∈ vs, P v := by
  induction fuel generalizing read cs with
  | zero => simp [readItems] at h
  | succ fuel ih =>
      rcases readItems_cases h with rfl | ⟨from_, v, after, hv, hmore⟩
      · intro v hv
        exact hread v (List.mem_reverse.mp hv)
      · apply ih hmore
        intro w hw
        rcases List.mem_cons.mp hw with rfl | hw
        · exact hitem _ _ _ hv
        · exact hread w hw

/-- The value of a member is read by the reader of values. -/
theorem readMember_value {value : List Char → Reading Value} {fuel : Nat} {m : String × Value}
    {cs rest : List Char} (h : readMember value fuel cs = .ok (m, rest)) :
    ∃ from_ after, value from_ = .ok (m.2, after) := by
  unfold readMember at h
  split at h
  · split at h
    · simp at h
    · split at h
      · simp at h
      · split at h
        · simp at h
        · next hvalue =>
          simp only [Except.ok.injEq, Prod.mk.injEq] at h
          exact ⟨_, _, by rw [← h.1]; exact hvalue⟩
      · simp at h
  · simp at h

theorem readMembers_next {value : List Char → Reading Value} {fuel : Nat}
    {read ms : List (String × Value)} {from_ rest : List Char}
    (h : (match readMember value (fuel + 1) from_ with
      | .error stop => .error stop
      | .ok (m, after) => readMembers value fuel (m :: read) after) = Except.ok (ms, rest)) :
    ∃ from_ m after, readMember value (fuel + 1) from_ = .ok (m, after) ∧
      readMembers value fuel (m :: read) after = .ok (ms, rest) := by
  split at h
  · simp at h
  · next m after hmember => exact ⟨from_, m, after, hmember, h⟩

/-- An object ends at its brace, or goes on with a member. -/
theorem readMembers_cases {value : List Char → Reading Value} {fuel : Nat}
    {read ms : List (String × Value)} {cs rest : List Char}
    (h : readMembers value (fuel + 1) read cs = .ok (ms, rest)) :
    ms = read.reverse ∨ ∃ from_ m after, readMember value (fuel + 1) from_ = .ok (m, after) ∧
      readMembers value fuel (m :: read) after = .ok (ms, rest) := by
  rw [readMembers] at h
  dsimp only at h
  split at h
  · simp at h
  · simp only [Except.ok.injEq, Prod.mk.injEq] at h
    exact .inl h.1.symm
  · split at h
    · exact .inr (readMembers_next h)
    · split at h
      · split at h
        · simp at h
        · simp at h
        · exact .inr (readMembers_next h)
      · simp at h

/-- What holds of every value that is read holds of every member of the object. -/
theorem forall_mem_readMembers {P : Value → Prop} {value : List Char → Reading Value}
    (hvalue : ∀ cs v rest, value cs = .ok (v, rest) → P v) {fuel : Nat}
    {read ms : List (String × Value)} {cs rest : List Char}
    (h : readMembers value fuel read cs = .ok (ms, rest)) (hread : ∀ m ∈ read, P m.2) :
    ∀ m ∈ ms, P m.2 := by
  induction fuel generalizing read cs with
  | zero => simp [readMembers] at h
  | succ fuel ih =>
      rcases readMembers_cases h with rfl | ⟨from_, m, after, hm, hmore⟩
      · intro m hm
        exact hread m (List.mem_reverse.mp hm)
      · obtain ⟨_, _, hv⟩ := readMember_value hm
        apply ih hmore
        intro w hw
        rcases List.mem_cons.mp hw with rfl | hw
        · exact hvalue _ _ _ hv
        · exact hread w hw

/-! ## Values as they are read -/

theorem readIdent_value {value v : Value} {expected cs rest : List Char}
    (h : readIdent value expected cs = .ok (v, rest)) : v = value := by
  induction expected generalizing cs with
  | nil =>
      simp only [readIdent, Except.ok.injEq, Prod.mk.injEq] at h
      exact h.1.symm
  | cons e expected ih =>
      cases cs with
      | nil => simp [readIdent] at h
      | cons c cs =>
          rw [readIdent] at h
          split at h
          · exact ih h
          · simp at h

/-- What is read nests one level more than what the inner reader gives, and not at all if there is
no inner reader. -/
theorem wellFormed_readWith {fuel d : Nat} {inner : Option (List Char → Reading Value)}
    (hinner : ∀ value ∈ inner, ∃ e, d = e + 1 ∧
      ∀ cs v rest, value cs = .ok (v, rest) → v.WellFormed e)
    {cs rest : List Char} {v : Value} (h : readWith fuel inner cs = .ok (v, rest)) :
    v.WellFormed d := by
  unfold readWith at h
  split at h
  · simp at h
  · exact readIdent_value h ▸ .null
  · exact readIdent_value h ▸ .bool _
  · exact readIdent_value h ▸ .bool _
  · split at h
    · simp at h
    · simp only [Except.ok.injEq, Prod.mk.injEq] at h
      exact h.1 ▸ .string _
  · split at h
    · simp at h
    · next value =>
      obtain ⟨e, rfl, hvalue⟩ := hinner value rfl
      split at h
      · simp at h
      · next hitems =>
        simp only [Except.ok.injEq, Prod.mk.injEq] at h
        exact h.1 ▸ .array (forall_mem_readItems hvalue hitems (by simp))
  · split at h
    · simp at h
    · next value =>
      obtain ⟨e, rfl, hvalue⟩ := hinner value rfl
      split at h
      · simp at h
      · next hmembers =>
        simp only [Except.ok.injEq, Prod.mk.injEq] at h
        refine h.1 ▸ .object (Object.nodup_keys_ofMembers _) fun m hm => ?_
        exact forall_mem_readMembers hvalue hmembers (by simp) m (Object.mem_ofMembers hm)
  · split at h
    · simp at h
    · next hnumber =>
      simp only [Except.ok.injEq, Prod.mk.injEq] at h
      exact h.1 ▸ .number (readNumber_inRange hnumber)
  · split at h
    · split at h
      · simp at h
      · next hnumber =>
        simp only [Except.ok.injEq, Prod.mk.injEq] at h
        exact h.1 ▸ .number (readNumber_inRange hnumber)
    · simp at h

theorem wellFormed_readValue {fuel depth : Nat} {cs rest : List Char} {v : Value}
    (h : readValue fuel depth cs = .ok (v, rest)) : v.WellFormed depth := by
  induction depth generalizing cs rest v with
  | zero => exact wellFormed_readWith (by simp) h
  | succ depth ih =>
      refine wellFormed_readWith (fun value hvalue => ⟨depth, rfl, fun cs v rest hv => ?_⟩) h
      simp only [Option.mem_def, Option.some.injEq] at hvalue
      exact ih (hvalue ▸ hv)

/-- A text is read as a value when nothing but blanks follows it. -/
theorem parse_eq_ok_iff {text : String} {v : Value} :
    parse text = .ok v ↔ ∃ rest, skipSpace rest = [] ∧
      readValue (text.toList.length + 1) maxDepth text.toList = .ok (v, rest) := by
  unfold parse readAll
  cases readValue (text.toList.length + 1) maxDepth text.toList with
  | error stop => exact ⟨nofun, by simp⟩
  | ok reading =>
      obtain ⟨w, rest⟩ := reading
      dsimp only
      split
      · next blank =>
        refine ⟨fun h => ⟨rest, blank, by rw [Except.ok.inj h]⟩, ?_⟩
        rintro ⟨rest, -, h⟩
        simp only [Except.ok.injEq, Prod.mk.injEq] at h
        rw [h.1]
        rfl
      · next left blank =>
        refine ⟨nofun, ?_⟩
        rintro ⟨rest, hblank, h⟩
        simp only [Except.ok.injEq, Prod.mk.injEq] at h
        rw [← h.2] at hblank
        exact absurd hblank blank

/-- **Reading gives well-formed values only.** -/
theorem wellFormed_parse {text : String} {v : Value} (h : parse text = .ok v) :
    v.WellFormed maxDepth := by
  obtain ⟨rest, -, hread⟩ := parse_eq_ok_iff.mp h
  exact wellFormed_readValue hread

end SkillMarket.Json
