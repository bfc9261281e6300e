import SkillMarket.Proofs.Yaml.Pair
import SkillMarket.Yaml.Mapping

/-!
# The first entries of a mapping

Two lines with a key and its value at the start of a text give the first two entries of its mapping,
if the text is a mapping at all. What follows them may change whether it is, but not these entries.
-/

namespace SkillMarket.Yaml

/-! ## Tokens -/

/-- The tokens of a key and its value. -/
def pairTokens (key text : List Char) : List Token :=
  [.key, .scalar true key, .value, .scalar true text]

/-- Nothing follows, or a line that begins in the first column. -/
def StartsLine (tail : List Char) : Prop :=
  tail = [] ∨ ∃ c rest, tail = '\n' :: c :: rest ∧ isBreak c = false ∧ isBlank c = false ∧
    c ≠ '\r' ∧ c ≠ '\u0085'

theorem StartsLine.exists_readPlain {tail : List Char} (h : StartsLine tail) (place : Place) :
    ∃ endsLine next,
      readPlain ⟨false, 1⟩ .none place tail = some ⟨[], endsLine, next⟩ := by
  rcases h with rfl | ⟨c, rest, rfl, notBreak, notBlank, -⟩
  · exact ⟨_, _, rfl⟩
  · exact ⟨_, _, readPlain_newline rfl (by decide) notBreak notBlank rest⟩

variable {key text key' text' tail : List Char}

/-- A text of two pairs, and what follows them. -/
def twoPairs (key text key' text' tail : List Char) : List Char :=
  key ++ ':' :: ' ' :: (text ++ '\n' :: (key' ++ ':' :: ' ' :: (text' ++ tail)))

/-- **The first tokens are those of the two pairs**, whatever follows. -/
theorem tokens_twoPairs (hkey : IsKeyWord key) (htext : IsWords text) (hkey' : IsKeyWord key')
    (htext' : IsWords text') (htail : StartsLine tail) {ts : List Token}
    (h : Token.ofText? (twoPairs key text key' text' tail) = some ts) :
    ∃ more, ts = .mappingStart :: (pairTokens key text ++ pairTokens key' text') ++ more := by
  obtain ⟨rounds, hrounds⟩ : ∃ rounds,
      (twoPairs key text key' text' tail).length + 1 = rounds + 3 + 3 := by
    refine ⟨(twoPairs key text key' text' tail).length + 1 - 6, ?_⟩
    simp only [twoPairs, List.length_append, List.length_cons]
    have nonempty := List.length_pos_iff.mpr hkey.nonempty
    omega
  obtain ⟨l, hrun, rfl⟩ := Option.map_eq_some_iff.mp h
  obtain ⟨place, firstLine, first⟩ := run_pair (.inl rfl) hkey htext 0
  obtain ⟨place', -, second⟩ := run_pair (.inr rfl) hkey' htext' 1
  obtain ⟨endsLine, next, ends⟩ := htail.exists_readPlain place'
  have between :
      readPlain ⟨false, 1⟩ .none place ('\n' :: (key' ++ ':' :: ' ' :: (text' ++ tail))) =
        some ⟨[], true, ⟨⟨1, 0, 0⟩, key' ++ ':' :: ' ' :: (text' ++ tail)⟩⟩ := by
    obtain ⟨c, more, rfl⟩ := List.exists_cons_of_ne_nil hkey'.nonempty
    have plain := isPlainChar_of_isAlpha (hkey'.letters c (by simp))
    have down : place.down = ⟨1, 0, 0⟩ := by rw [Place.down, firstLine]
    rw [List.cons_append, readPlain_newline rfl (by decide) plain.notBreak plain.notBlank, down]
  rw [hrounds, Lexer.start, Cursor.start, twoPairs, first between, second ends] at hrun
  have kept : Keeps _ l := Keeps.run ⟨List.suffix_refl _, rfl, by simp, by simp⟩ hrun
  obtain ⟨later, hlater⟩ := kept.tokens
  exact ⟨later.reverse, by simp [← hlater, pairTokens, opening]⟩

/-! ## Events -/

/-- The event of a plain scalar. -/
def plainEvent (text : List Char) : Event := .scalar none ⟨true, none, text⟩

/-- A key and its value are two events. -/
theorem expandAll_pair (handles : Handles) (rounds : Nat) (goals : List Goal)
    (key text : List Char) (more : List Token) :
    expandAll handles (rounds + 4) (.blockKey :: goals) (pairTokens key text ++ more) =
      (expandAll handles rounds (.blockKey :: goals) more).map fun r =>
        (plainEvent key :: plainEvent text :: r.1, r.2) := by
  simp only [pairTokens, List.cons_append, List.nil_append, expandAll, Goal.expand, nodeOr,
    endsBlockNode, readProperties, resolveTag?, expandNode, Option.bind_eq_bind, Option.bind_some,
    Option.pure_def, Bool.false_eq_true, if_false]
  cases expandAll handles rounds (.blockKey :: goals) more <;> rfl

/-- The first events are those of the two pairs, whatever tokens follow. -/
theorem events_twoPairs {more : List Token} {events : List Event}
    (h : Event.ofTokens?
      (.mappingStart :: (pairTokens key text ++ pairTokens key' text') ++ more) = some events) :
    ∃ rest, events = .openMapping none :: plainEvent key :: plainEvent text :: plainEvent key' ::
      plainEvent text' :: rest := by
  have rounds : goalsPerToken * ((pairTokens key text ++ (pairTokens key' text' ++ more)).length +
      1 + 1) = (goalsPerToken * more.length + 71) + 4 + 4 + 1 := by
    simp only [goalsPerToken, pairTokens, List.length_append, List.length_cons, List.length_nil]
    omega
  rw [List.cons_append, List.append_assoc, Event.ofTokens?.eq_2 _ (by simp), firstDocument?] at h
  simp only [takeDirectives, List.length_cons, rounds] at h
  rw [expandAll] at h
  simp only [Goal.expand, readProperties, resolveTag?, expandNode, Option.bind_eq_bind,
    Option.bind_some, List.cons_append, List.nil_append, expandAll_pair] at h
  cases hrest : expandAll commonHandles (goalsPerToken * more.length + 71) [.blockKey] more with
  | none => simp [hrest] at h
  | some r =>
      simp only [hrest, Option.map_some, Option.pure_def, Option.bind_some,
        Option.ite_none_right_eq_some, Option.some.injEq] at h
      exact ⟨r.1, h.2.symm⟩

/-! ## Entries -/

/-- A key with a plain scalar. -/
def plainEntry (key text : List Char) : Entry := ⟨String.ofList key, some ⟨true, none, text⟩⟩

/-- A key and its value are one entry. -/
theorem collect_pair (a : Anchors) (key text : List Char) (items : List Item) :
    collect a 0 none (.scalar ⟨true, none, key⟩ :: .scalar ⟨true, none, text⟩ :: items) =
      (collect a 0 none items).map (plainEntry key text :: ·) := by
  simp [collect, Item.node?, plainEntry]

/-- The first entries are those of the two pairs, whatever events follow. -/
theorem entries_twoPairs {rest : List Event} {entries : List Entry}
    (h : Entry.ofEvents? (.openMapping none :: plainEvent key :: plainEvent text ::
      plainEvent key' :: plainEvent text' :: rest) = some entries) :
    ∃ more, entries = plainEntry key text :: plainEntry key' text' :: more := by
  simp only [Entry.ofEvents?, Item.ofEvents?, plainEvent, Anchors.add] at h
  cases hrest : Item.ofEvents? ⟨[], []⟩ rest with
  | none => simp [hrest] at h
  | some r =>
      simp only [hrest, Option.map_some, Option.bind_eq_bind, Option.bind_some, collect_pair,
        Option.map_map, Option.map_eq_some_iff] at h
      obtain ⟨more, -, rfl⟩ := h
      exact ⟨more, rfl⟩

/-! ## The prepared text -/

theorem unifyBreaks_cons {c : Char} (notReturn : c ≠ '\r') (notNextLine : c ≠ '\u0085')
    (rest : List Char) : unifyBreaks (c :: rest) = c :: unifyBreaks rest :=
  unifyBreaks.eq_5 _ _ (fun _ h => absurd h notReturn) notReturn notNextLine

/-- A text without the characters of the other line endings is left as it is. -/
theorem unifyBreaks_append {front : List Char} (h : ∀ c ∈ front, c ≠ '\r' ∧ c ≠ '\u0085')
    (rest : List Char) : unifyBreaks (front ++ rest) = front ++ unifyBreaks rest := by
  induction front with
  | nil => rfl
  | cons c front ih =>
      obtain ⟨⟨notReturn, notNextLine⟩, others⟩ := List.forall_mem_cons.mp h
      rw [List.cons_append, unifyBreaks_cons notReturn notNextLine, ih others, List.cons_append]

theorem StartsLine.unifyBreaks {tail : List Char} (h : StartsLine tail) :
    StartsLine (unifyBreaks tail) := by
  rcases h with rfl | ⟨c, rest, rfl, notBreak, notBlank, notReturn, notNextLine⟩
  · exact .inl rfl
  · refine .inr ⟨c, Yaml.unifyBreaks rest, ?_, notBreak, notBlank, notReturn, notNextLine⟩
    rw [unifyBreaks_cons (by decide) (by decide), unifyBreaks_cons notReturn notNextLine]

theorem IsKeyWord.noBreak (h : IsKeyWord key) : ∀ c ∈ key, c ≠ '\r' ∧ c ≠ '\u0085' := fun c hc =>
  have plain := isPlainChar_of_isAlpha (h.letters c hc)
  ⟨plain.notReturn, plain.notNextLine⟩

theorem IsWords.noBreak (h : IsWords text) : ∀ c ∈ text, c ≠ '\r' ∧ c ≠ '\u0085' := by
  intro c hc
  rcases h.chars c hc with rfl | plain
  · decide
  · exact ⟨plain.notReturn, plain.notNextLine⟩

theorem unifyBreaks_twoPairs (hkey : IsKeyWord key) (htext : IsWords text)
    (hkey' : IsKeyWord key') (htext' : IsWords text') (tail : List Char) :
    unifyBreaks (twoPairs key text key' text' tail) =
      twoPairs key text key' text' (unifyBreaks tail) := by
  have front (rest : List Char) : twoPairs key text key' text' rest =
      (key ++ [':', ' '] ++ text ++ ['\n'] ++ key' ++ [':', ' '] ++ text') ++ rest := by
    simp [twoPairs]
  rw [front, front, unifyBreaks_append]
  simp only [List.forall_mem_append]
  exact ⟨⟨⟨⟨⟨⟨hkey.noBreak, by simp⟩, htext.noBreak⟩, by simp⟩, hkey'.noBreak⟩, by simp⟩,
    htext'.noBreak⟩

/-- **The first entries of a text are its first two pairs**, whatever follows them in the text, if
the text has entries at all. -/
theorem ofText?_twoPairs (hkey : IsKeyWord key) (htext : IsWords text) (hkey' : IsKeyWord key')
    (htext' : IsWords text') (htail : StartsLine tail) {entries : List Entry}
    (h : Entry.ofText? (twoPairs key text key' text' tail) = some entries) :
    ∃ more, entries = plainEntry key text :: plainEntry key' text' :: more := by
  simp only [Entry.ofText?, Option.bind_eq_bind, Option.bind_eq_some_iff] at h
  obtain ⟨prepared, hprepared, ts, hts, events, hevents, hentries⟩ := h
  rw [prepare?, Option.ite_none_right_eq_some, Option.some.injEq,
    unifyBreaks_twoPairs hkey htext hkey' htext'] at hprepared
  obtain ⟨-, rfl⟩ := hprepared
  obtain ⟨later, rfl⟩ := tokens_twoPairs hkey htext hkey' htext' htail.unifyBreaks hts
  obtain ⟨rest, rfl⟩ := events_twoPairs hevents
  exact entries_twoPairs hentries

end SkillMarket.Yaml
