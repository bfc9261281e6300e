import SkillMarket.Proofs.Toml.Setting

/-!
# Settings files

A settings file is written line by line: headers, pairs of a key and a value, and lines that say
nothing. `Draft.add` is what a header or a pair adds to the tables read so far; the reader does this
and no more, and goes on with the next line. So a file whose keys are distinct is read as the table
that holds its pairs and its sections in their order.
-/

namespace SkillMarket.Toml

/-! ## Tables -/

/-- The names of the members of a table. -/
def Table.keys (t : Table) : List String := t.map (·.1)

/-- The table of some values, each with its key. -/
def Table.ofPairs {α : Type} (value : α → Value) (pairs : List (String × α)) : Table :=
  pairs.map fun p => (p.1, value p.2)

section

variable {α : Type} (value : α → Value) (pairs : List (String × α))

@[simp] theorem Table.keys_ofPairs : (Table.ofPairs value pairs).keys = pairs.map (·.1) := by
  simp [Table.ofPairs, Table.keys, Function.comp_def]

theorem Table.get?_ofPairs (key : String) :
    (Table.ofPairs value pairs).get? key = (pairs.lookup key).map value := by
  induction pairs with
  | nil => rfl
  | cons p pairs ih =>
      obtain ⟨k, v⟩ := p
      by_cases same : key = k
      · simp [Table.ofPairs, Table.get?_cons, same]
      · have other : (key == k) = false := by simpa using same
        rw [List.lookup_cons, other, ← ih]
        exact if_neg (Ne.symm same)

end

theorem Table.get?_eq_lookup (t : Table) (key : String) : t.get? key = t.lookup key := by
  simpa [Table.ofPairs] using Table.get?_ofPairs id t key

theorem Table.get?_eq_none {t : Table} {key : String} (h : key ∉ t.keys) : t.get? key = none := by
  rw [Table.get?_eq_lookup, List.lookup_eq_none_iff]
  rintro ⟨k, v⟩ member
  have other : key ≠ k := fun same => h (List.mem_map.mpr ⟨_, member, same.symm⟩)
  simpa using other

/-- A new key comes last. -/
theorem Table.put_append {t : Table} {key : String} (h : key ∉ t.keys) (value : Value)
    (more : Table) : Table.put key value (t ++ more) = t ++ Table.put key value more := by
  induction t with
  | nil => rfl
  | cons m t ih =>
      obtain ⟨k, v⟩ := m
      obtain ⟨other, fresh⟩ := not_or.mp (List.mem_cons.not.mp h)
      rw [List.cons_append, Table.put, if_neg (Ne.symm other), ih fresh]
      rfl

theorem Table.put_eq_append {t : Table} {key : String} (h : key ∉ t.keys) (value : Value) :
    t.put key value = t ++ [(key, value)] := by
  simpa [Table.put] using Table.put_append h value []

theorem Table.get?_append_last {t : Table} {key : String} (h : key ∉ t.keys) (value : Value) :
    Table.get? (t ++ [(key, value)]) key = some value := by
  rw [← Table.put_eq_append h, Table.get?_put_self]

/-! ## Lines -/

/-- What a line of a settings file says. -/
inductive Entry where
  | header (name : String)
  | pair (key : String) (value : Setting)
deriving DecidableEq, Repr

/-- What an entry adds to a document. -/
def Draft.add (d : Draft) : Entry → Option Draft
  | .header name => (d.root.openTable name).map fun root => ⟨root, [name]⟩
  | .pair key v => (d.root.alterAt (·.add key v.value) d.current).map fun root => ⟨root, d.current⟩

/-- How an entry may be written. -/
inductive Entry.Writes : Entry → List Char → Prop
  | header {name : String} {cs : List Char} (h : WritesName name cs) :
      Entry.Writes (.header name) ('[' :: (cs ++ [']']))
  | pair {key : String} {v : Setting} {cs before after text : List Char} (h : WritesName key cs)
      (hbefore : IsBlank before) (hafter : IsBlank after) (hv : v.Writes text) :
      Entry.Writes (.pair key v) (cs ++ (before ++ '=' :: (after ++ text)))

/-- Blanks and a comment, which say nothing. -/
inductive IsRemark : List Char → Prop
  | blank {blanks : List Char} (h : IsBlank blanks) : IsRemark blanks
  | comment {blanks comment : List Char} (h : IsBlank blanks)
      (hcomment : ∀ c ∈ comment, c ≠ '\n' ∧ isAllowed c = true) :
      IsRemark (blanks ++ '#' :: comment)

/-- How a file may be written. -/
inductive WritesEntries : List Entry → List Char → Prop
  | nil : WritesEntries [] []
  | remark {entries : List Entry} {line more : List Char} (h : IsRemark line)
      (tail : WritesEntries entries more) : WritesEntries entries (line ++ '\n' :: more)
  | cons {entry : Entry} {entries : List Entry} {line more : List Char} (head : entry.Writes line)
      (tail : WritesEntries entries more) : WritesEntries (entry :: entries) (line ++ '\n' :: more)

def Entry.InRange : Entry → Prop
  | .header _ => True
  | .pair _ v => v.InRange

theorem Entry.exists_writes {entry : Entry} (range : entry.InRange) : ∃ cs, entry.Writes cs := by
  cases entry with
  | header name =>
      obtain ⟨cs, h⟩ := exists_writesName name
      exact ⟨_, .header h⟩
  | pair key v =>
      obtain ⟨cs, h⟩ := exists_writesName key
      obtain ⟨text, hv⟩ := Setting.exists_writes range
      have none : IsBlank [] := by simp [IsBlank]
      exact ⟨_, .pair h none none hv⟩

theorem exists_writesEntries {entries : List Entry} (range : ∀ e ∈ entries, e.InRange) :
    ∃ cs, WritesEntries entries cs := by
  induction entries with
  | nil => exact ⟨[], .nil⟩
  | cons entry entries ih =>
      obtain ⟨first, others⟩ := List.forall_mem_cons.mp range
      obtain ⟨line, head⟩ := Entry.exists_writes first
      obtain ⟨more, tail⟩ := ih others
      exact ⟨_, .cons head tail⟩

variable {entry : Entry} {entries : List Entry} {line cs : List Char}

/-! ## Preparing -/

theorem Entry.Writes.isAllowed (h : entry.Writes line) : ∀ c ∈ line, isAllowed c = true := by
  cases h with
  | header h =>
      have brackets : Toml.isAllowed '[' = true ∧ Toml.isAllowed ']' = true := by decide
      simp only [List.forall_mem_cons, List.forall_mem_append]
      exact ⟨brackets.1, h.isAllowed, brackets.2, by simp⟩
  | pair h hbefore hafter hv =>
      have sign : Toml.isAllowed '=' = true := by decide
      simp only [List.forall_mem_cons, List.forall_mem_append]
      exact ⟨h.isAllowed, hbefore.isAllowed, sign, hafter.isAllowed, hv.isAllowed⟩

theorem IsRemark.isAllowed (h : IsRemark line) : ∀ c ∈ line, isAllowed c = true := by
  cases h with
  | blank h => exact h.isAllowed
  | comment h hcomment =>
      have hash : Toml.isAllowed '#' = true := by decide
      simp only [List.forall_mem_cons, List.forall_mem_append]
      exact ⟨h.isAllowed, hash, fun c hc => (hcomment c hc).2⟩

theorem WritesEntries.isAllowed (h : WritesEntries entries cs) :
    ∀ c ∈ cs, isAllowed c = true := by
  have newline : Toml.isAllowed '\n' = true := by decide
  induction h with
  | nil => simp
  | remark h _ ih =>
      simp only [List.forall_mem_append, List.forall_mem_cons]
      exact ⟨h.isAllowed, newline, ih⟩
  | cons head _ ih =>
      simp only [List.forall_mem_append, List.forall_mem_cons]
      exact ⟨head.isAllowed, newline, ih⟩

/-- A line with an entry begins with a character that is no space. -/
theorem Entry.Writes.exists_cons (h : entry.Writes line) :
    ∃ c more, line = c :: more ∧ IsInk c ∧ c ≠ '\uFEFF' := by
  cases h with
  | header _ => exact ⟨_, _, rfl, by decide, by decide⟩
  | pair h _ _ _ =>
      obtain ⟨c, more, rfl, first⟩ := h.exists_cons
      refine ⟨c, _, rfl, ?_⟩
      rcases first with rfl | bare
      · exact ⟨by decide, by decide⟩
      · exact ⟨isInk_of_isBare bare, ne_of_isBare bare (by decide)⟩

/-- A file does not begin with a byte-order mark. -/
theorem WritesEntries.head_ne_mark (h : WritesEntries entries cs) :
    ∀ c ∈ cs.head?, c ≠ '\uFEFF' := by
  cases h with
  | nil => simp
  | remark h _ =>
      cases h with
      | blank h => exact h.isSpace.forall_head? (· ≠ '\uFEFF') (by decide) (by decide) _
      | comment h _ =>
          rw [List.append_assoc]
          exact h.isSpace.forall_head? (· ≠ '\uFEFF') (by decide) (by decide) _
  | cons head _ =>
      obtain ⟨c, more, rfl, -, notMark⟩ := head.exists_cons
      simpa using notMark

theorem unifyNewlines_eq_self (h : '\r' ∉ cs) : unifyNewlines cs = cs := by
  fun_induction unifyNewlines cs with
  | case1 => rfl
  | case2 rest _ => simp at h
  | case3 c rest _ ih => rw [ih (fun hrest => h (List.mem_cons_of_mem c hrest))]

/-- Nothing in a file needs preparing. -/
theorem WritesEntries.prepare?_eq (h : WritesEntries entries cs) : prepare? cs = some cs := by
  have noMark : dropMark cs = cs := by
    have first := h.head_ne_mark
    cases cs with
    | nil => rfl
    | cons c cs => exact dropMark.eq_2 _ fun _ heq => first c rfl (List.cons.inj heq).1
  have noReturn : '\r' ∉ cs := fun member => absurd (h.isAllowed _ member) (by decide)
  simp only [prepare?, noMark, unifyNewlines_eq_self noReturn]
  exact if_pos (List.all_eq_true.mpr h.isAllowed)

/-! ## Reading -/

/-- The rest of a line that says nothing is passed over. -/
theorem skipTrivia_comment {comment : List Char} (h : ∀ c ∈ comment, c ≠ '\n')
    (rest : List Char) : skipTrivia true (comment ++ '\n' :: rest) = skipTrivia false rest := by
  induction comment with
  | nil => simp [skipTrivia]
  | cons c comment ih =>
      obtain ⟨first, others⟩ := List.forall_mem_cons.mp h
      simpa [skipTrivia, first] using ih others

theorem skipTrivia_remark (h : IsRemark line) (rest : List Char) :
    skipTrivia false (line ++ '\n' :: rest) = skipTrivia false rest := by
  have newline : skipTrivia false ('\n' :: rest) = skipTrivia false rest := by simp [skipTrivia]
  cases h with
  | blank h => rw [skipTrivia_space h.isSpace, newline]
  | comment h hcomment =>
      rw [List.append_assoc, skipTrivia_space h.isSpace, List.cons_append]
      simpa [skipTrivia] using skipTrivia_comment (fun c hc => (hcomment c hc).1) rest

/-- A name is not taken for a header. -/
theorem WritesName.ne_bracket {name : String} (h : WritesName name cs) (rest : List Char) :
    ∀ more, cs ++ rest ≠ '[' :: more := by
  obtain ⟨c, _, rfl, first⟩ := h.exists_cons
  rintro more heq
  rw [(List.cons.inj heq).1] at first
  rcases first with quote | bare
  · exact absurd quote (by decide)
  · exact absurd bare (by decide)

/-- **One entry.** It is read to the end of its line and adds what it says. -/
theorem readEntry_eq (h : entry.Writes line) {d d' : Draft} (hadd : d.add entry = some d')
    {size : Nat} (enough : line.length < size) (rest : List Char) :
    readEntry size d (line ++ '\n' :: rest) = some (d', '\n' :: rest) := by
  cases h with
  | @header name cs h =>
      obtain ⟨root, opened, rfl⟩ := Option.map_eq_some_iff.mp hadd
      have key : readKey (cs ++ ']' :: '\n' :: rest) = some (⟨[], name⟩, ']' :: '\n' :: rest) :=
        @readKey_eq name cs h [] (by simp [IsBlank]) ']' ⟨by decide, by decide, by decide⟩ _
      have altered : d.root.alterAt (·.openTable name) [] = some root := opened
      rw [List.cons_append, List.append_assoc, List.singleton_append, readEntry,
        readHeader.eq_2 d _ (h.ne_bracket _)]
      simp only [key, readMark, if_true, Option.bind_eq_bind, Option.bind_some, altered]
      rfl
  | @pair key v cs before after text h hbefore hafter hv =>
      obtain ⟨root, added, rfl⟩ := Option.map_eq_some_iff.mp hadd
      have short : text.length < size := by
        simp only [List.length_append, List.length_cons] at enough
        omega
      have deep : depthLimit - 1 = 78 + 1 := rfl
      have read := readPair_eq h hv hbefore hafter (hv.readValue_eq short 78 rest)
      have altered : d.root.alterAt (·.addDotted key v.value []) d.current = some root := added
      simp only [List.append_assoc, List.cons_append]
      rw [readEntry.eq_2 size d _ (h.ne_bracket _), deep, read]
      simp only [Option.bind_eq_bind, Option.bind_some, altered]
      rfl

/-- Only what stands after space and comments is looked at. -/
theorem readEntries_congr {size rounds : Nat} {d : Draft} {cs' : List Char}
    (h : skipTrivia false cs = skipTrivia false cs') :
    readEntries size rounds d cs = readEntries size rounds d cs' := by
  cases rounds with
  | zero => rfl
  | succ rounds => rw [readEntries, readEntries, h]

/-- **The entries of a file.** They are read one after another, and each adds what it says. -/
theorem readEntries_eq (h : WritesEntries entries cs) {d d' : Draft}
    (hadd : entries.foldlM Draft.add d = some d') {size rounds : Nat} (enough : cs.length < size)
    (long : cs.length < rounds) : readEntries size rounds d cs = some d'.root := by
  induction h generalizing d rounds with
  | nil =>
      obtain ⟨rounds, rfl⟩ := Nat.exists_eq_add_of_lt long
      obtain rfl : d = d' := Option.some.inj hadd
      rfl
  | @remark entries line more h _ ih =>
      simp only [List.length_append, List.length_cons] at enough long
      rw [readEntries_congr (skipTrivia_remark h more)]
      exact ih hadd (by omega) (by omega)
  | @cons entry entries line more head _ ih =>
      -- a round is taken for this line, which is not empty
      simp only [List.length_append, List.length_cons] at enough long
      obtain ⟨rounds, rfl⟩ := Nat.exists_eq_add_of_lt long
      rw [List.foldlM_cons] at hadd
      obtain ⟨next, added, others⟩ := Option.bind_eq_some_iff.mp hadd
      obtain ⟨c, cs, rfl, ink, -⟩ := head.exists_cons
      have read : readEntry size d (c :: (cs ++ '\n' :: more)) = some (next, '\n' :: more) :=
        readEntry_eq head added (by omega) more
      have ended : endLine? ('\n' :: more) = some more := rfl
      rw [List.cons_append, readEntries, skipTrivia_ink ink]
      simp only [read, Option.bind_eq_bind, Option.bind_some, ended]
      exact ih others (by omega) (by omega)

/-- A file is read as what its entries add to an empty document. -/
theorem parse?_of_foldlM (h : WritesEntries entries cs) {d : Draft}
    (hadd : entries.foldlM Draft.add ⟨[], []⟩ = some d) : parse? cs = some d.root := by
  simp only [parse?, h.prepare?_eq, Option.bind_eq_bind, Option.bind_some]
  exact readEntries_eq h hadd (Nat.lt_succ_self _) (Nat.lt_succ_self _)

/-! ## Sections -/

/-- What a settings file says: the pairs before the first header, and those of each section. -/
structure SettingsFile where
  loose : List (String × Setting)
  sections : List (String × List (String × Setting))
deriving DecidableEq, Repr

/-- The lines of some pairs. -/
def pairEntries (pairs : List (String × Setting)) : List Entry :=
  pairs.map fun p => .pair p.1 p.2

/-- The table of a section. -/
def sectionTable (pairs : List (String × Setting)) : Value :=
  .table .header (Table.ofPairs Setting.value pairs)

namespace SettingsFile

/-- The lines of a file. -/
def lines (f : SettingsFile) : List Entry :=
  pairEntries f.loose ++ f.sections.flatMap fun s => .header s.1 :: pairEntries s.2

/-- The table that a file makes. -/
def table (f : SettingsFile) : Table :=
  Table.ofPairs Setting.value f.loose ++ Table.ofPairs sectionTable f.sections

/-- No key is given twice, and the integers have 64 bits. -/
structure WellFormed (f : SettingsFile) : Prop where
  distinct : (f.loose.map (·.1) ++ f.sections.map (·.1)).Nodup
  distinctKeys : ∀ s ∈ f.sections, (s.2.map (·.1)).Nodup
  inRange : ∀ p ∈ f.loose ++ f.sections.flatMap (·.2), p.2.InRange

/-- What a file gives a key of a section. -/
def given? (f : SettingsFile) (name key : String) : Option Setting :=
  (f.sections.lookup name).bind (·.lookup key)

/-- How a file may be written. -/
def Writes (f : SettingsFile) (cs : List Char) : Prop := WritesEntries f.lines cs

end SettingsFile

/-- Pairs come after the members of the table that is open: `plug` puts this table in its place. -/
theorem foldlM_pairs {plug : Table → Table} {current : List String}
    (opens : ∀ change t, Table.alterAt change current (plug t) = (change t).map plug)
    {pairs : List (String × Setting)} {t : Table}
    (fresh : (t.keys ++ pairs.map (·.1)).Nodup) :
    (pairEntries pairs).foldlM Draft.add ⟨plug t, current⟩ =
      some ⟨plug (t ++ Table.ofPairs Setting.value pairs), current⟩ := by
  induction pairs generalizing t with
  | nil => simp [pairEntries, Table.ofPairs]
  | cons p pairs ih =>
      obtain ⟨key, v⟩ := p
      have new : key ∉ t.keys := fun old =>
        (List.nodup_append.mp fresh).2.2 key old key (by simp) rfl
      have added : Draft.add ⟨plug t, current⟩ (.pair key v) =
          some ⟨plug (t ++ [(key, v.value)]), current⟩ := by
        simp only [Draft.add, opens, Table.add, Table.get?_eq_none new, Table.put_eq_append new,
          Option.map_some]
      have more : (Table.keys (t ++ [(key, v.value)]) ++ pairs.map (·.1)).Nodup := by
        simpa [Table.keys] using fresh
      have others := ih more
      simp only [pairEntries, List.map_cons, List.foldlM_cons, added, Option.bind_eq_bind,
        Option.bind_some] at others ⊢
      rw [others]
      simp [Table.ofPairs]

/-- The table of the last header is open. -/
theorem alterAt_last {root : Table} {name : String} (new : name ∉ root.keys)
    (change : Table → Option Table) (t : Table) :
    Table.alterAt change [name] (root ++ [(name, .table .header t)]) =
      (change t).map fun t => root ++ [(name, .table .header t)] := by
  rw [Table.alterAt, Table.get?_append_last new]
  simp only [Table.put_append new, Table.put, if_true]
  rfl

/-- A section comes after those before. -/
theorem foldlM_section {root : Table} {name : String} (new : name ∉ root.keys)
    (current : List String) {pairs : List (String × Setting)} (distinct : (pairs.map (·.1)).Nodup) :
    (Entry.header name :: pairEntries pairs).foldlM Draft.add ⟨root, current⟩ =
      some ⟨root ++ [(name, sectionTable pairs)], [name]⟩ := by
  have opened : Draft.add ⟨root, current⟩ (.header name) =
      some ⟨root ++ [(name, .table .header [])], [name]⟩ := by
    simp only [Draft.add, Table.openTable, Table.get?_eq_none new, Table.put_eq_append new,
      Option.map_some]
  -- the table that is open lies at the end of the root
  have filled := @foldlM_pairs (fun t => root ++ [(name, .table .header t)]) [name]
    (alterAt_last new) pairs [] (by simpa [Table.keys] using distinct)
  simp only [List.foldlM_cons, opened, Option.bind_eq_bind, Option.bind_some, filled]
  rfl

theorem foldlM_sections {sections : List (String × List (String × Setting))} {root : Table}
    (fresh : (root.keys ++ sections.map (·.1)).Nodup)
    (distinct : ∀ s ∈ sections, (s.2.map (·.1)).Nodup) (current : List String) :
    ∃ last, (sections.flatMap fun s => .header s.1 :: pairEntries s.2).foldlM Draft.add
      ⟨root, current⟩ = some ⟨root ++ Table.ofPairs sectionTable sections, last⟩ := by
  induction sections generalizing root current with
  | nil => exact ⟨current, by simp [Table.ofPairs]⟩
  | cons s sections ih =>
      obtain ⟨name, pairs⟩ := s
      obtain ⟨first, others⟩ := List.forall_mem_cons.mp distinct
      have new : name ∉ root.keys := fun old =>
        (List.nodup_append.mp fresh).2.2 name old name (by simp) rfl
      have more : (Table.keys (root ++ [(name, sectionTable pairs)]) ++
          sections.map (·.1)).Nodup := by
        simpa [Table.keys] using fresh
      obtain ⟨last, rest⟩ := ih more others [name]
      refine ⟨last, ?_⟩
      rw [List.flatMap_cons, List.foldlM_append, foldlM_section new current first]
      simp only [Option.bind_eq_bind, Option.bind_some, rest]
      simp [Table.ofPairs]

namespace SettingsFile

variable {f : SettingsFile}

/-- The lines of a file add up to its table. -/
theorem WellFormed.foldlM_lines (h : f.WellFormed) :
    ∃ last, f.lines.foldlM Draft.add ⟨[], []⟩ = some ⟨f.table, last⟩ := by
  -- before the first header the root itself is open
  have loose := @foldlM_pairs id [] (fun change t => by simp [Table.alterAt]) f.loose []
    (by simpa [Table.keys] using h.distinct.of_append_left)
  have fresh : ((Table.ofPairs Setting.value f.loose).keys ++ f.sections.map (·.1)).Nodup := by
    simpa using h.distinct
  obtain ⟨last, sections⟩ := foldlM_sections fresh h.distinctKeys []
  refine ⟨last, ?_⟩
  rw [lines, List.foldlM_append]
  exact (congrArg (Option.bind · _) loose).trans sections

/-- **A settings file is read as its table**, however it is written. -/
theorem WellFormed.parse?_eq (h : f.WellFormed) (hcs : f.Writes cs) :
    parse? cs = some f.table := by
  obtain ⟨last, hadd⟩ := h.foldlM_lines
  exact parse?_of_foldlM hcs hadd

/-- It can be written. -/
theorem WellFormed.exists_writes (h : f.WellFormed) : ∃ cs, f.Writes cs := by
  refine exists_writesEntries fun e he => ?_
  simp only [lines, pairEntries, List.mem_append, List.mem_map, List.mem_flatMap,
    List.mem_cons] at he
  rcases he with ⟨p, member, rfl⟩ | ⟨s, hs, rfl | ⟨p, member, rfl⟩⟩
  · exact h.inRange p (by simp [member])
  · exact trivial
  · exact h.inRange p (List.mem_append_right _ (List.mem_flatMap.mpr ⟨s, hs, member⟩))

/-- The pairs of a section that is not named like a key before the first header. -/
theorem get?_table {name : String} (h : name ∉ f.loose.map (·.1)) :
    f.table.get? name = (f.sections.lookup name).map sectionTable := by
  have absent : (Table.ofPairs Setting.value f.loose).get? name = none :=
    Table.get?_eq_none (by simpa using h)
  rw [Table.get?_eq_lookup] at absent
  rw [table, Table.get?_eq_lookup, List.lookup_append, absent, Option.none_or,
    ← Table.get?_eq_lookup, Table.get?_ofPairs]

end SettingsFile

end SkillMarket.Toml
