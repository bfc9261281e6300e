import SkillMarket.Proofs.Json.Quoted
import SkillMarket.Proofs.Json.WellFormed

/-!
# Reading what was printed

A well-formed value, printed over several lines, is read back as the value with each of its numbers
read again. Integers are read back as themselves, so a value that holds nothing but integers comes
back unchanged, with its keys in their order.

The induction is on the well-formed value, with one lemma for each kind of value. The two loops,
over the items of a list and over the members of an object, are stated for any reader that reads
back each part on its own.
-/

namespace SkillMarket.Json

/-! ## The numbers in a value -/

mutual

/-- The numbers in a value, in the order in which they are written. -/
def Value.numbers : Value → List Number
  | .number n => [n]
  | .array vs => numbersInItems vs
  | .object ms => numbersInMembers ms
  | _ => []

def numbersInItems : List Value → List Number
  | [] => []
  | v :: vs => v.numbers ++ numbersInItems vs

def numbersInMembers : List (String × Value) → List Number
  | [] => []
  | (_, v) :: ms => v.numbers ++ numbersInMembers ms

end

mutual

/-- A value with other numbers in the places of its own. -/
def Value.mapNumbers (f : Number → Number) : Value → Value
  | .number n => .number (f n)
  | .array vs => .array (mapNumbersInItems f vs)
  | .object ms => .object (mapNumbersInMembers f ms)
  | v => v

def mapNumbersInItems (f : Number → Number) : List Value → List Value
  | [] => []
  | v :: vs => v.mapNumbers f :: mapNumbersInItems f vs

def mapNumbersInMembers (f : Number → Number) : List (String × Value) → List (String × Value)
  | [] => []
  | (k, v) :: ms => (k, v.mapNumbers f) :: mapNumbersInMembers f ms

end

theorem mem_numbersInItems {n : Number} {vs : List Value} :
    n ∈ numbersInItems vs ↔ ∃ v ∈ vs, n ∈ v.numbers := by
  induction vs with
  | nil => simp [numbersInItems]
  | cons v vs ih => simp [numbersInItems, ih]

theorem mem_numbersInMembers {n : Number} {ms : List (String × Value)} :
    n ∈ numbersInMembers ms ↔ ∃ m ∈ ms, n ∈ m.2.numbers := by
  induction ms with
  | nil => simp [numbersInMembers]
  | cons m ms ih => simp [numbersInMembers, ih]

theorem mapNumbersInItems_eq_map (f : Number → Number) (vs : List Value) :
    mapNumbersInItems f vs = vs.map (·.mapNumbers f) := by
  induction vs with
  | nil => rfl
  | cons v vs ih => rw [mapNumbersInItems, ih, List.map_cons]

theorem mapNumbersInMembers_eq_map (f : Number → Number) (ms : List (String × Value)) :
    mapNumbersInMembers f ms = ms.map fun m => (m.1, m.2.mapNumbers f) := by
  induction ms with
  | nil => rfl
  | cons m ms ih => rw [mapNumbersInMembers, ih, List.map_cons]

/-! ## Blanks -/

theorem skipSpace_newline (depth : Nat) (cs : List Char) :
    skipSpace (Layout.pretty.newline depth ++ cs) = skipSpace cs := by
  have blanks : ∀ c ∈ Layout.pretty.newline depth, isSpace c = true := by
    intro c hc
    simp only [Layout.pretty, List.mem_cons, List.mem_replicate] at hc
    rcases hc with rfl | ⟨-, rfl⟩ <;> rfl
  rw [skipSpace, List.dropWhile_append_of_pos blanks, skipSpace]

theorem skipSpace_cons {c : Char} (h : isSpace c = false) (cs : List Char) :
    skipSpace (c :: cs) = c :: cs := by
  simp [skipSpace, h]

/-- Blanks in front of a value do not count. -/
theorem readWith_space (fuel : Nat) (inner : Option (List Char → Reading Value))
    (cs : List Char) : readWith fuel inner (' ' :: cs) = readWith fuel inner cs := by
  have : skipSpace (' ' :: cs) = skipSpace cs := rfl
  rw [readWith, this, ← readWith]

theorem readValue_space (fuel depth : Nat) (cs : List Char) :
    readValue fuel depth (' ' :: cs) = readValue fuel depth cs := by
  cases depth <;> exact readWith_space fuel _ cs

/-! ## How values start -/

/-- A character that a value may start with: no blank, and nothing that closes a list or object. -/
def StartsValue (c : Char) : Prop := isSpace c = false ∧ c ≠ ']' ∧ c ≠ '\x7d'

instance (c : Char) : Decidable (StartsValue c) := inferInstanceAs (Decidable (_ ∧ _))

/-- The text of a number is read as a certain number, whatever follows that cannot be a part of
it. -/
structure Number.ReadsAs (n other : Number) : Prop where
  starts : ∃ c cs, n.text = c :: cs ∧ StartsValue c
  reads : ∀ fuel inner rest, EndsNumber rest →
    readWith fuel inner (n.text ++ rest) = .ok (.number other, rest)

/-! ## The parts of lists and objects -/

section Parts

variable {read : List Char → Reading Value} {g : Value → Value} {depth : Nat}

/-- The reader reads back a value as another one, whatever follows that cannot be a part of a
number, and the text of the value starts as a value does. -/
structure ReadsBack (read : List Char → Reading Value) (g : Value → Value) (depth : Nat)
    (v : Value) : Prop where
  starts : ∃ c cs, render .pretty depth v = c :: cs ∧ StartsValue c
  reads : ∀ rest, EndsNumber rest → read (render .pretty depth v ++ rest) = .ok (g v, rest)

/-- A value on a new line: its first character is in sight after the blanks, and it is read. -/
theorem ReadsBack.newline {v : Value} (h : ReadsBack read g depth v) (d : Nat)
    {rest : List Char} (hrest : EndsNumber rest) :
    ∃ c cs, skipSpace (Layout.pretty.newline d ++ (render .pretty depth v ++ rest)) = c :: cs ∧
      c ≠ ']' ∧ read (c :: cs) = .ok (g v, rest) := by
  obtain ⟨c, cs, hv, hspace, hclose, -⟩ := h.starts
  refine ⟨c, cs ++ rest, ?_, hclose, ?_⟩
  · rw [skipSpace_newline, hv]
    exact skipSpace_cons hspace _
  · rw [← List.cons_append, ← hv]
    exact h.reads rest hrest

/-- A key is read up to its closing quote. -/
theorem readString_key {fuel : Nat} {key : String} (h : key.toList.length < fuel)
    (rest : List Char) :
    readString fuel [] (key.toList.flatMap escape ++ '"' :: rest) = .ok (key.toList, rest) := by
  rw [readString_escaped h, List.reverse_nil, List.nil_append]

/-- A member on a new line: its quote is in sight after the blanks, and it is read. -/
theorem ReadsBack.member {v : Value} (h : ReadsBack read g depth v) (d : Nat)
    (hblank : ∀ cs, read (' ' :: cs) = read cs) {fuel : Nat} {key : String}
    (hfuel : key.toList.length < fuel) {rest : List Char} (hrest : EndsNumber rest) :
    ∃ cs, skipSpace (Layout.pretty.newline d ++ (quote key.toList ++
        (Layout.pretty.colon ++ (render .pretty depth v ++ rest)))) = '"' :: cs ∧
      readMember read fuel ('"' :: cs) = .ok ((key, g v), rest) := by
  have colon (cs : List Char) : skipSpace (':' :: cs) = ':' :: cs := skipSpace_cons (by decide) cs
  refine ⟨key.toList.flatMap escape ++ '"' :: ':' :: ' ' :: (render .pretty depth v ++ rest),
    ?_, ?_⟩
  · rw [skipSpace_newline]
    simp only [quote, Layout.pretty, List.cons_append, List.append_assoc, List.nil_append]
    exact skipSpace_cons (by decide) _
  · simp only [readMember, readString_key hfuel, colon, hblank, h.reads rest hrest,
      String.ofList_toList]

theorem endsNumber_renderItems (depth : Nat) (vs : List Value) (rest : List Char) :
    EndsNumber (renderItems .pretty depth vs ++ rest) := by
  cases vs <;> exact endsNumber_cons (by decide)

theorem endsNumber_renderMembers (depth : Nat) (ms : List (String × Value))
    (rest : List Char) :
    EndsNumber (renderMembers .pretty depth ms ++ rest) := by
  cases ms <;> exact endsNumber_cons (by decide)

/-! ## Lists -/

/-- After an item, a list is read to its end. -/
theorem readItems_renderItems {fuel : Nat} {done vs : List Value} {rest : List Char}
    (hitem : ∀ v ∈ vs, ReadsBack read g (depth + 1) v) (hdone : done ≠ [])
    (hfuel : (renderItems .pretty depth vs).length < fuel) :
    readItems read fuel done (renderItems .pretty depth vs ++ rest)
      = .ok (done.reverse ++ vs.map g, rest) := by
  induction vs generalizing fuel done with
  | nil =>
      obtain ⟨fuel, rfl⟩ : ∃ f, fuel = f + 1 := ⟨fuel - 1, by omega⟩
      have close : skipSpace (renderItems .pretty depth [] ++ rest) = ']' :: rest := by
        rw [renderItems, List.append_assoc, skipSpace_newline]
        exact skipSpace_cons (by decide) rest
      rw [readItems]
      simp only [close, List.map_nil, List.append_nil]
  | cons v vs ih =>
      obtain ⟨fuel, rfl⟩ : ∃ f, fuel = f + 1 := ⟨fuel - 1, by omega⟩
      obtain ⟨c, cs, first, hclose, here⟩ :=
        (hitem v (by simp)).newline (depth + 1) (endsNumber_renderItems depth vs rest)
      have comma (cs : List Char) : skipSpace (',' :: cs) = ',' :: cs :=
        skipSpace_cons (by decide) cs
      simp only [renderItems, List.length_cons, List.length_append] at hfuel
      have more : readItems read fuel (g v :: done) (renderItems .pretty depth vs ++ rest)
          = .ok ((g v :: done).reverse ++ vs.map g, rest) :=
        ih (fun w hw => hitem w (by simp [hw])) (by simp) (by omega)
      rw [renderItems, readItems]
      simp only [List.cons_append, List.append_assoc, comma]
      simp [hdone, first, hclose, here, more]

/-- A list that is not empty is read, from what follows its bracket. -/
theorem readItems_render {fuel : Nat} {v : Value} {vs : List Value}
    (hitem : ∀ w ∈ v :: vs, ReadsBack read g (depth + 1) w)
    (hfuel : (renderItems .pretty depth vs).length + 1 < fuel) (rest : List Char) :
    readItems read fuel [] (Layout.pretty.newline (depth + 1) ++
      (render .pretty (depth + 1) v ++ (renderItems .pretty depth vs ++ rest)))
      = .ok ((v :: vs).map g, rest) := by
  obtain ⟨fuel, rfl⟩ : ∃ f, fuel = f + 1 := ⟨fuel - 1, by omega⟩
  obtain ⟨c, cs, first, hclose, here⟩ :=
    (hitem v (by simp)).newline (depth + 1) (endsNumber_renderItems depth vs rest)
  have more : readItems read fuel [g v] (renderItems .pretty depth vs ++ rest)
      = .ok ([g v].reverse ++ vs.map g, rest) :=
    readItems_renderItems (fun w hw => hitem w (by simp [hw])) (by simp) (by omega)
  rw [readItems]
  simp [first, here, more]

/-! ## Objects -/

/-- After a member, an object is read to its end. -/
theorem readMembers_renderMembers {fuel : Nat} {done ms : List (String × Value)}
    {rest : List Char} (hvalue : ∀ m ∈ ms, ReadsBack read g (depth + 1) m.2)
    (hblank : ∀ cs, read (' ' :: cs) = read cs) (hdone : done ≠ [])
    (hfuel : (renderMembers .pretty depth ms).length < fuel) :
    readMembers read fuel done (renderMembers .pretty depth ms ++ rest)
      = .ok (done.reverse ++ ms.map (fun m => (m.1, g m.2)), rest) := by
  induction ms generalizing fuel done with
  | nil =>
      obtain ⟨fuel, rfl⟩ : ∃ f, fuel = f + 1 := ⟨fuel - 1, by omega⟩
      have close : skipSpace (renderMembers .pretty depth [] ++ rest) = '\x7d' :: rest := by
        rw [renderMembers, List.append_assoc, skipSpace_newline]
        exact skipSpace_cons (by decide) rest
      rw [readMembers]
      simp only [close, List.map_nil, List.append_nil]
  | cons m ms ih =>
      obtain ⟨key, v⟩ := m
      obtain ⟨fuel, rfl⟩ : ∃ f, fuel = f + 1 := ⟨fuel - 1, by omega⟩
      have long := length_lt_quote key.toList
      simp only [renderMembers, List.length_cons, List.length_append] at hfuel
      have short : key.toList.length < fuel + 1 := by omega
      obtain ⟨cs, first, here⟩ := (hvalue (key, v) (by simp)).member (depth + 1) hblank short
        (endsNumber_renderMembers depth ms rest)
      have comma (cs : List Char) : skipSpace (',' :: cs) = ',' :: cs :=
        skipSpace_cons (by decide) cs
      have more : readMembers read fuel ((key, g v) :: done)
          (renderMembers .pretty depth ms ++ rest)
          = .ok (((key, g v) :: done).reverse ++ ms.map (fun m => (m.1, g m.2)), rest) :=
        ih (fun w hw => hvalue w (by simp [hw])) (by simp) (by omega)
      rw [renderMembers, readMembers]
      simp only [List.cons_append, List.append_assoc, comma]
      simp [hdone, first, here, more]

/-- An object that is not empty is read, from what follows its brace. -/
theorem readMembers_render {fuel : Nat} {key : String} {v : Value} {ms : List (String × Value)}
    (hvalue : ∀ m ∈ (key, v) :: ms, ReadsBack read g (depth + 1) m.2)
    (hblank : ∀ cs, read (' ' :: cs) = read cs)
    (hfuel : key.toList.length + (renderMembers .pretty depth ms).length + 1 < fuel)
    (rest : List Char) :
    readMembers read fuel [] (Layout.pretty.newline (depth + 1) ++ (quote key.toList ++
      (Layout.pretty.colon ++ (render .pretty (depth + 1) v ++
        (renderMembers .pretty depth ms ++ rest)))))
      = .ok (((key, v) :: ms).map (fun m => (m.1, g m.2)), rest) := by
  obtain ⟨fuel, rfl⟩ : ∃ f, fuel = f + 1 := ⟨fuel - 1, by omega⟩
  have short : key.toList.length < fuel + 1 := by omega
  obtain ⟨cs, first, here⟩ := (hvalue (key, v) (by simp)).member (depth + 1) hblank short
    (endsNumber_renderMembers depth ms rest)
  have more : readMembers read fuel [(key, g v)] (renderMembers .pretty depth ms ++ rest)
      = .ok ([(key, g v)].reverse ++ ms.map (fun m => (m.1, g m.2)), rest) :=
    readMembers_renderMembers (fun w hw => hvalue w (by simp [hw])) hblank (by simp) (by omega)
  rw [readMembers]
  simp [first, here, more]

end Parts

/-! ## Values -/

theorem length_render_le_renderItems {vs : List Value} {v : Value} (h : v ∈ vs) (depth : Nat) :
    (render .pretty (depth + 1) v).length ≤ (renderItems .pretty depth vs).length := by
  induction vs with
  | nil => simp at h
  | cons w vs ih =>
      simp only [renderItems, List.length_cons, List.length_append]
      rcases List.mem_cons.mp h with rfl | h
      · omega
      · have := ih h
        omega

theorem length_render_le_renderMembers {ms : List (String × Value)} {m : String × Value}
    (h : m ∈ ms) (depth : Nat) :
    (render .pretty (depth + 1) m.2).length ≤ (renderMembers .pretty depth ms).length := by
  induction ms with
  | nil => simp at h
  | cons first ms ih =>
      simp only [renderMembers, List.length_cons, List.length_append]
      rcases List.mem_cons.mp h with rfl | h
      · omega
      · have := ih h
        omega

theorem keys_map_value (g : Value → Value) (ms : List (String × Value)) :
    Object.keys (ms.map fun m => (m.1, g m.2)) = Object.keys ms := by
  simp [Object.keys]

/-- At every depth a value is read in the same way, but for what may be inside it. -/
theorem exists_readValue_eq (fuel d : Nat) : ∃ inner, readValue fuel d = readWith fuel inner := by
  cases d with
  | zero => exact ⟨none, rfl⟩
  | succ d => exact ⟨some (readValue fuel d), rfl⟩

/-- An item of a list is printed in less than the list is. -/
theorem length_render_item_lt {vs : List Value} {v : Value} (h : v ∈ vs) (depth : Nat) :
    (render .pretty (depth + 1) v).length < (render .pretty depth (.array vs)).length := by
  cases vs with
  | nil => simp at h
  | cons w vs =>
      simp only [render, List.length_cons, List.length_append]
      rcases List.mem_cons.mp h with rfl | h
      · omega
      · have := length_render_le_renderItems h depth
        omega

/-- The value of a member is printed in less than the object is. -/
theorem length_render_member_lt {ms : List (String × Value)} {m : String × Value} (h : m ∈ ms)
    (depth : Nat) :
    (render .pretty (depth + 1) m.2).length < (render .pretty depth (.object ms)).length := by
  cases ms with
  | nil => simp at h
  | cons first ms =>
      simp only [render, List.length_cons, List.length_append]
      rcases List.mem_cons.mp h with rfl | h
      · omega
      · have := length_render_le_renderMembers h depth
        omega

section Kinds

variable {f : Number → Number} {fuel d depth : Nat}

theorem readsBack_null : ReadsBack (readValue fuel d) (·.mapNumbers f) depth .null where
  starts := ⟨'n', _, rfl, by decide⟩
  reads rest _ := by
    obtain ⟨inner, h⟩ := exists_readValue_eq fuel d
    rw [h]
    rfl

theorem readsBack_bool (b : Bool) :
    ReadsBack (readValue fuel d) (·.mapNumbers f) depth (.bool b) where
  starts := by
    cases b with
    | true => exact ⟨'t', _, rfl, by decide⟩
    | false => exact ⟨'f', _, rfl, by decide⟩
  reads rest _ := by
    obtain ⟨inner, h⟩ := exists_readValue_eq fuel d
    rw [h]
    cases b <;> rfl

theorem readsBack_number {n : Number} (hn : n.ReadsAs (f n)) :
    ReadsBack (readValue fuel d) (·.mapNumbers f) depth (.number n) where
  starts := hn.starts
  reads rest hrest := by
    obtain ⟨inner, h⟩ := exists_readValue_eq fuel d
    rw [h]
    exact hn.reads fuel inner rest hrest

theorem readsBack_string {s : String} (hfuel : (quote s.toList).length < fuel) :
    ReadsBack (readValue fuel d) (·.mapNumbers f) depth (.string s) where
  starts := ⟨'"', _, rfl, by decide⟩
  reads rest _ := by
    obtain ⟨inner, h⟩ := exists_readValue_eq fuel d
    have long := length_lt_quote s.toList
    have short : s.toList.length < fuel := by omega
    have quoted : skipSpace (quote s.toList ++ rest)
        = '"' :: (s.toList.flatMap escape ++ '"' :: rest) := by
      simp only [quote, List.cons_append, List.append_assoc, List.nil_append]
      exact skipSpace_cons (by decide) _
    rw [h, readWith, render, quoted]
    simp only [readString_key short, String.ofList_toList, Value.mapNumbers]

/-- A list is read back, one level down, if its items are. -/
theorem readsBack_array {vs : List Value} (hfuel : (render .pretty depth (.array vs)).length < fuel)
    (items : ∀ v ∈ vs, ReadsBack (readValue fuel d) (·.mapNumbers f) (depth + 1) v) :
    ReadsBack (readValue fuel (d + 1)) (·.mapNumbers f) depth (.array vs) where
  starts := by cases vs <;> exact ⟨'[', _, rfl, by decide⟩
  reads rest _ := by
    cases vs with
    | nil =>
        obtain ⟨fuel, rfl⟩ : ∃ n, fuel = n + 1 := ⟨fuel - 1, by omega⟩
        rfl
    | cons v vs =>
        simp only [render, List.length_cons, List.length_append] at hfuel
        have short : (renderItems .pretty depth vs).length + 1 < fuel := by omega
        have list := readItems_render items short rest
        have bracket (cs : List Char) : skipSpace ('[' :: cs) = '[' :: cs :=
          skipSpace_cons (by decide) cs
        rw [readValue, readWith, render]
        simp only [List.cons_append, List.append_assoc, bracket, list, Value.mapNumbers,
          mapNumbersInItems_eq_map]

/-- An object is read back, one level down, if no key is there twice and its values are. -/
theorem readsBack_object {ms : List (String × Value)} (keys : (Object.keys ms).Nodup)
    (hfuel : (render .pretty depth (.object ms)).length < fuel)
    (members : ∀ m ∈ ms, ReadsBack (readValue fuel d) (·.mapNumbers f) (depth + 1) m.2) :
    ReadsBack (readValue fuel (d + 1)) (·.mapNumbers f) depth (.object ms) where
  starts := by cases ms <;> exact ⟨'\x7b', _, rfl, by decide⟩
  reads rest _ := by
    cases ms with
    | nil =>
        obtain ⟨fuel, rfl⟩ : ∃ n, fuel = n + 1 := ⟨fuel - 1, by omega⟩
        rfl
    | cons m ms =>
        obtain ⟨key, v⟩ := m
        have long := length_lt_quote key.toList
        simp only [render, List.length_cons, List.length_append] at hfuel
        have short : key.toList.length + (renderMembers .pretty depth ms).length + 1 < fuel := by
          omega
        have object := readMembers_render members (readValue_space fuel d) short rest
        have brace (cs : List Char) : skipSpace ('\x7b' :: cs) = '\x7b' :: cs :=
          skipSpace_cons (by decide) cs
        rw [readValue, readWith, render]
        simp only [List.cons_append, List.append_assoc, brace, object, Value.mapNumbers,
          mapNumbersInMembers_eq_map]
        rw [Object.ofMembers_of_nodup (by rw [keys_map_value]; exact keys)]

end Kinds

/-- **A printed value is read back**, with each of its numbers read again. -/
theorem readsBack_readValue {f : Number → Number} {d : Nat} {v : Value} (hv : v.WellFormed d)
    (hn : ∀ n ∈ v.numbers, n.ReadsAs (f n)) {fuel depth : Nat}
    (hfuel : (render .pretty depth v).length < fuel) :
    ReadsBack (readValue fuel d) (·.mapNumbers f) depth v := by
  induction hv generalizing depth with
  | null => exact readsBack_null
  | bool b => exact readsBack_bool b
  | number range => exact readsBack_number (hn _ (by simp [Value.numbers]))
  | string s => exact readsBack_string hfuel
  | @array d vs items ih =>
      refine readsBack_array hfuel fun v hv => ?_
      have numbers : ∀ n ∈ v.numbers, n.ReadsAs (f n) := fun n h =>
        hn n (mem_numbersInItems.mpr ⟨v, hv, h⟩)
      exact ih v hv numbers ((length_render_item_lt hv depth).trans hfuel)
  | @object d ms keys members ih =>
      refine readsBack_object keys hfuel fun m hm => ?_
      have numbers : ∀ n ∈ m.2.numbers, n.ReadsAs (f n) := fun n h =>
        hn n (mem_numbersInMembers.mpr ⟨m, hm, h⟩)
      exact ih m hm numbers ((length_render_member_lt hm depth).trans hfuel)

/-- A printed value, with blanks after it, is the whole of its text. -/
theorem parse_pretty_newline {f : Number → Number} {v : Value} (hv : v.WellFormed maxDepth)
    (hn : ∀ n ∈ v.numbers, n.ReadsAs (f n)) :
    parse (v.pretty ++ "\n") = .ok (v.mapNumbers f) := by
  have text : (v.pretty ++ "\n").toList = render .pretty 0 v ++ ['\n'] := by
    simp [Value.pretty]
  have long : (render .pretty 0 v).length < (render .pretty 0 v ++ ['\n']).length + 1 := by
    rw [List.length_append]
    omega
  have read := (readsBack_readValue hv hn long).reads ['\n'] (endsNumber_cons (by decide))
  rw [parse_eq_ok_iff, text]
  exact ⟨['\n'], rfl, read⟩

/-! ## Integers come back as themselves -/

/-- The number is held as an integer. -/
def Number.isInteger : Number → Bool
  | .integer _ => true
  | .real _ => false

/-- The value holds no binary64 number. -/
def Value.Exact (v : Value) : Prop := ∀ n ∈ v.numbers, n.isInteger = true

instance (v : Value) : Decidable v.Exact :=
  inferInstanceAs (Decidable (∀ n ∈ v.numbers, n.isInteger = true))

theorem natText_starts (n : Nat) : ∃ c cs, natText n = c :: cs ∧ c.isDigit = true := by
  cases h : natText n with
  | nil => exact absurd h Nat.toDigits_ne_nil
  | cons c cs => exact ⟨c, cs, rfl, isDigit_of_mem_natText (by rw [h]; simp)⟩

/-- A digit is no blank, and closes nothing. -/
theorem startsValue_of_isDigit {c : Char} (h : c.isDigit = true) : StartsValue c := by
  have other (d : Char) (hd : d.isDigit = false) : c ≠ d := ne_of_isDigit h hd
  refine ⟨?_, other ']' rfl, other '\x7d' rfl⟩
  simp [isSpace, other ' ' rfl, other '\n' rfl, other '\t' rfl, other '\r' rfl]

/-- A digit starts a number and nothing else. -/
theorem readWith_digit {c : Char} (h : c.isDigit = true) {cs rest : List Char} {n : Number}
    (hn : readNumber false (c :: cs) = .ok (n, rest)) (fuel : Nat)
    (inner : Option (List Char → Reading Value)) :
    readWith fuel inner (c :: cs) = .ok (.number n, rest) := by
  have other (d : Char) (hd : d.isDigit = false) : c ≠ d := ne_of_isDigit h hd
  simp [readWith, skipSpace_cons (startsValue_of_isDigit h).1, h, hn, other 'n' rfl,
    other 't' rfl, other 'f' rfl, other '"' rfl, other '[' rfl, other '\x7b' rfl, other '-' rfl]

/-- A sign and digits are read as a number, if what follows the sign is. -/
theorem Number.readsAs_of_readNumber {n other : Number} {negative : Bool} {c : Char}
    {cs : List Char} (text : n.text = (if negative then ['-'] else []) ++ c :: cs)
    (hc : c.isDigit = true) (reads : ∀ rest, EndsNumber rest →
      readNumber negative (c :: cs ++ rest) = .ok (other, rest)) : n.ReadsAs other := by
  cases negative with
  | true =>
      have minus (cs : List Char) : skipSpace ('-' :: cs) = '-' :: cs :=
        skipSpace_cons (by decide) cs
      refine ⟨⟨'-', c :: cs, text, by decide⟩, fun fuel inner rest hrest => ?_⟩
      rw [text, if_pos rfl, List.append_assoc, List.singleton_append, readWith, minus]
      simp only [reads rest hrest]
  | false =>
      refine ⟨⟨c, cs, text, startsValue_of_isDigit hc⟩, fun fuel inner rest hrest => ?_⟩
      rw [text]
      exact readWith_digit hc (reads rest hrest) fuel inner

/-- **An integer in range is read back as itself.** -/
theorem readsAs_integer {i : Int} (h : (Number.integer i).InRange) :
    (Number.integer i).ReadsAs (.integer i) := by
  have bound : i.natAbs ≤ maxSignificand := by
    have least : Int64.minValue.toInt = -2 ^ 63 := by decide
    have greatest : maxSignificand = 2 ^ 64 - 1 := by decide
    have lower : Int64.minValue.toInt ≤ i := h.1
    have upper : i ≤ maxSignificand := h.2
    omega
  obtain ⟨c, cs, digits, hc⟩ := natText_starts i.natAbs
  have text : (Number.integer i).text = (if decide (i < 0) then ['-'] else []) ++ c :: cs := by
    simp only [Number.text, intText, digits, decide_eq_true_eq]
  refine Number.readsAs_of_readNumber text hc fun rest hrest => ?_
  rw [← digits, readNumber_natText _ bound hrest, wholeNumber_natAbs h]

/-- The integers of a well-formed value are in range. -/
theorem Value.WellFormed.inRange {d : Nat} {v : Value} (h : v.WellFormed d) :
    ∀ n ∈ v.numbers, n.InRange := by
  induction h with
  | null => simp [Value.numbers]
  | bool b => simp [Value.numbers]
  | string s => simp [Value.numbers]
  | number range =>
      intro n hn
      simp only [Value.numbers, List.mem_singleton] at hn
      exact hn ▸ range
  | array items ih =>
      intro n hn
      obtain ⟨v, hv, hn⟩ := mem_numbersInItems.mp hn
      exact ih v hv n hn
  | object keys members ih =>
      intro n hn
      obtain ⟨m, hm, hn⟩ := mem_numbersInMembers.mp hn
      exact ih m hm n hn

mutual

theorem Value.mapNumbers_id : ∀ v : Value, v.mapNumbers id = v
  | .null => rfl
  | .bool _ => rfl
  | .number _ => rfl
  | .string _ => rfl
  | .array vs => by rw [Value.mapNumbers, mapNumbersInItems_id vs]
  | .object ms => by rw [Value.mapNumbers, mapNumbersInMembers_id ms]

theorem mapNumbersInItems_id : ∀ vs : List Value, mapNumbersInItems id vs = vs
  | [] => rfl
  | v :: vs => by rw [mapNumbersInItems, Value.mapNumbers_id v, mapNumbersInItems_id vs]

theorem mapNumbersInMembers_id :
    ∀ ms : List (String × Value), mapNumbersInMembers id ms = ms
  | [] => rfl
  | (k, v) :: ms => by
      rw [mapNumbersInMembers, Value.mapNumbers_id v, mapNumbersInMembers_id ms]

end

mutual

theorem Value.mapNumbers_mapNumbers (f g : Number → Number) :
    ∀ v : Value, (v.mapNumbers f).mapNumbers g = v.mapNumbers (g ∘ f)
  | .null => rfl
  | .bool _ => rfl
  | .number _ => rfl
  | .string _ => rfl
  | .array vs => by simp only [Value.mapNumbers, mapNumbersInItems_mapNumbersInItems f g vs]
  | .object ms => by simp only [Value.mapNumbers, mapNumbersInMembers_mapNumbersInMembers f g ms]

theorem mapNumbersInItems_mapNumbersInItems (f g : Number → Number) :
    ∀ vs : List Value,
      mapNumbersInItems g (mapNumbersInItems f vs) = mapNumbersInItems (g ∘ f) vs
  | [] => rfl
  | v :: vs => by
      simp only [mapNumbersInItems, Value.mapNumbers_mapNumbers f g v,
        mapNumbersInItems_mapNumbersInItems f g vs]

theorem mapNumbersInMembers_mapNumbersInMembers (f g : Number → Number) :
    ∀ ms : List (String × Value),
      mapNumbersInMembers g (mapNumbersInMembers f ms) = mapNumbersInMembers (g ∘ f) ms
  | [] => rfl
  | (_, v) :: ms => by
      simp only [mapNumbersInMembers, Value.mapNumbers_mapNumbers f g v,
        mapNumbersInMembers_mapNumbersInMembers f g ms]

end

/-- A value whose numbers are all read back as themselves is what its text is read as. -/
theorem parse_pretty_of_readsAs {v : Value} (hv : v.WellFormed maxDepth)
    (hn : ∀ n ∈ v.numbers, n.ReadsAs n) : parse (v.pretty ++ "\n") = .ok v := by
  rw [parse_pretty_newline (f := id) hv hn, Value.mapNumbers_id]

/-- **A value without binary64 numbers is what its text is read as.** -/
theorem parse_pretty {v : Value} (hv : v.WellFormed maxDepth) (he : v.Exact) :
    parse (v.pretty ++ "\n") = .ok v := by
  refine parse_pretty_of_readsAs hv fun n hn => ?_
  cases n with
  | integer i => exact readsAs_integer (hv.inRange _ hn)
  | real x => exact absurd (he _ hn) (by simp [Number.isInteger])

end SkillMarket.Json
