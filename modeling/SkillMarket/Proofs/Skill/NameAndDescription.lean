import Mathlib
import SkillMarket.Proofs.Skill.FrontMatter
import SkillMarket.Proofs.Yaml.Entries

/-!
# Name and description in front matter

Front matter is read as a mapping, or line by line if it is none. When the first two lines give a
plain name and description, both ways come to them, whatever other keys hold: no later line can
change the first two entries of the mapping, and none is taken for a name or a description.
-/

namespace SkillMarket.Skill

open Text Yaml

/-! ## Lines of front matter -/

/-- The characters of plain names and descriptions, but for the space. -/
def isPhraseMark (c : Char) : Bool := c.isAlphanum || c == '-' || c == '.' || c == ','

/-- A name or description that means itself to every reader: letters, digits, spaces, hyphens,
periods and commas, a letter first, no space last, and no word for nothing. -/
structure IsPhrase (text : List Char) : Prop where
  first : ∃ c ∈ text.head?, c.isAlpha
  chars : ∀ c ∈ text, c = ' ' ∨ isPhraseMark c
  last : text.getLast? ≠ some ' '
  notNull : text ∉ ["null".toList, "Null".toList, "NULL".toList]

instance (text : List Char) : Decidable (IsPhrase text) :=
  decidable_of_iff (text.head?.any Char.isAlpha ∧ text.all (fun c => c == ' ' || isPhraseMark c) ∧
      text.getLast? ≠ some ' ' ∧ text ∉ ["null".toList, "Null".toList, "NULL".toList]) <| by
    simp only [Option.any_eq_true, List.all_eq_true, Bool.or_eq_true, beq_iff_eq]
    exact ⟨fun ⟨first, chars, last, notNull⟩ => ⟨first, chars, last, notNull⟩,
      fun h => ⟨h.first, h.chars, h.last, h.notNull⟩⟩

/-- A line with another key, of lower-case letters, and anything after its colon. -/
structure IsOther (line : List Char) : Prop where
  exists_key : ∃ key value, line = key ++ ':' :: value ∧ (∀ c ∈ key, c.isLower) ∧
    key ≠ "name".toList ∧ key ≠ "description".toList
  noNewline : '\n' ∉ line

theorem IsOther.dropReturn {line : List Char} (h : IsOther line) : IsOther (dropReturn line) := by
  obtain ⟨⟨key, value, rfl, lower, notName, notDescription⟩, noNewline⟩ := h
  refine ⟨⟨key, Text.dropReturn value, dropReturn_append_cons key (by decide) value, lower,
    notName, notDescription⟩, fun h => noNewline (dropReturn_subset _ h)⟩

/-- The line starts with a letter or with its colon. -/
theorem IsOther.exists_cons {line : List Char} (h : IsOther line) :
    ∃ c rest, line = c :: rest ∧ (c.isLower || c == ':') := by
  obtain ⟨⟨key, value, rfl, lower, -, -⟩, -⟩ := h
  cases key with
  | nil => exact ⟨':', value, rfl, rfl⟩
  | cons c key => exact ⟨c, _, rfl, by simp [lower c (by simp)]⟩

/-! ## Fences -/

theorem trimRight_isPrefix (cs : List Char) : trimRight cs <+: cs := by
  rw [← List.reverse_suffix, trimRight, List.reverse_reverse]
  exact List.dropWhile_suffix _

/-- A line that starts with another character than a blank or a hyphen is no fence. -/
theorem isFence_cons {c : Char} (notBlank : Text.isBlank c = false) (notHyphen : c ≠ '-')
    (rest : List Char) : isFence (c :: rest) = false := by
  rw [isFence, beq_eq_false_iff_ne, trim, List.dropWhile_cons_of_neg (by simp [notBlank])]
  intro fence
  have start := trimRight_isPrefix (c :: rest)
  rw [fence, List.cons_prefix_cons] at start
  exact notHyphen start.1.symm

theorem not_isBlank_of_isPhraseMark {c : Char} (h : isPhraseMark c) :
    Text.isBlank c = false := by
  have range : 0x21 ≤ c.toNat ∧ c.toNat ≤ 0x7E := by
    simp only [isPhraseMark, Char.isAlphanum, Char.isAlpha, Char.isUpper, Char.isLower,
      Char.isDigit, Bool.or_eq_true, Bool.and_eq_true, decide_eq_true_eq, ge_iff_le,
      UInt32.le_iff_toNat_le, beq_iff_eq] at h
    rcases h with (((((h | h) | h) | rfl) | rfl) | rfl)
    · exact ⟨Nat.le_trans (by decide) h.1, Nat.le_trans h.2 (by decide)⟩
    · exact ⟨Nat.le_trans (by decide) h.1, Nat.le_trans h.2 (by decide)⟩
    · exact ⟨Nat.le_trans (by decide) h.1, Nat.le_trans h.2 (by decide)⟩
    all_goals decide
  simp only [Text.isBlank, Bool.or_eq_false_iff, Bool.and_eq_false_iff, decide_eq_false_iff_not,
    beq_eq_false_iff_ne]
  omega

theorem isPhraseMark_of_isAlpha {c : Char} (h : c.isAlpha) : isPhraseMark c := by
  simp [isPhraseMark, Char.isAlphanum, h]

theorem isAlpha_of_isLower {c : Char} (h : c.isLower) : c.isAlpha := by
  simp [Char.isAlpha, h]

/-! ## Reading lines -/

theorem splitOnce_append {sep : Char} {front : List Char} (h : sep ∉ front) (rest : List Char) :
    splitOnce sep (front ++ sep :: rest) = some (front, rest) := by
  have others : ∀ c ∈ front, decide (c ≠ sep) = true := fun c hc =>
    decide_eq_true fun hsep => h (hsep ▸ hc)
  rw [splitOnce, List.dropWhile_append_of_pos others, List.takeWhile_append_of_pos others]
  simp

variable {name description : List Char} {others : List (List Char)}

/-- A line with another key changes nothing. -/
theorem FrontMatter.readLine_other {line : List Char} (h : IsOther line) (f : FrontMatter) :
    f.readLine line = f := by
  obtain ⟨⟨key, value, rfl, lower, notName, notDescription⟩, -⟩ := h
  have colon : ':' ∉ key := fun hmem => absurd (lower ':' hmem) (by decide)
  have solid : ∀ c ∈ key, Text.isBlank c = false := fun c hc =>
    not_isBlank_of_isPhraseMark (isPhraseMark_of_isAlpha (isAlpha_of_isLower (lower c hc)))
  have trimmed : trim key = key :=
    trim_eq_self (fun c hc => by simp [solid c (List.mem_of_mem_head? hc)])
      fun c hc => by simp [solid c (List.mem_of_mem_getLast? hc)]
  simp only [readLine, splitOnce_append colon, trimmed, notName, notDescription, if_false]

/-- A phrase stands after a space. -/
theorem trim_phrase {text : List Char} (h : IsPhrase text) : trim (' ' :: text) = text := by
  obtain ⟨c, hc, letter⟩ := h.first
  have first := not_isBlank_of_isPhraseMark (isPhraseMark_of_isAlpha letter)
  have skipped : trim (' ' :: text) = trim text := by
    rw [trim, List.dropWhile_cons_of_pos (by decide), ← trim]
  rw [skipped]
  refine trim_eq_self (fun d hd => ?_) fun d hd => ?_
  · obtain rfl : c = d := Option.mem_unique hc hd
    simp [first]
  · rcases h.chars d (List.mem_of_mem_getLast? hd) with rfl | mark
    · exact absurd hd h.last
    · simp [not_isBlank_of_isPhraseMark mark]

theorem FrontMatter.readLine_name (h : IsPhrase name) (f : FrontMatter) :
    f.readLine ("name: ".toList ++ name) = { f with name := some (String.ofList name) } := by
  have split : splitOnce ':' ("name: ".toList ++ name) = some ("name".toList, ' ' :: name) :=
    @splitOnce_append ':' "name".toList (by decide) (' ' :: name)
  have key : trim "name".toList = "name".toList := by decide
  simp only [readLine, split, key, trim_phrase h, if_true]

theorem FrontMatter.readLine_description (h : IsPhrase description) (f : FrontMatter) :
    f.readLine ("description: ".toList ++ description) =
      { f with description := some (String.ofList description) } := by
  have split : splitOnce ':' ("description: ".toList ++ description) =
      some ("description".toList, ' ' :: description) :=
    @splitOnce_append ':' "description".toList (by decide) (' ' :: description)
  have key : trim "description".toList = "description".toList := by decide
  have other : "description".toList ≠ "name".toList := by decide
  simp only [readLine, split, key, other, trim_phrase h, if_true, if_false]

/-- Lines with a name, a description and other keys are read for the name and the description. -/
theorem FrontMatter.ofLines_headed (hname : IsPhrase name) (hdescription : IsPhrase description)
    (hothers : ∀ line ∈ others, IsOther line) :
    ofLines (("name: ".toList ++ name) :: ("description: ".toList ++ description) :: others) =
      ⟨some (String.ofList name), some (String.ofList description)⟩ := by
  have unchanged (f : FrontMatter) : others.foldl readLine f = f := by
    induction others generalizing f with
    | nil => rfl
    | cons line others ih =>
        obtain ⟨hline, hmore⟩ := List.forall_mem_cons.mp hothers
        rw [List.foldl_cons, readLine_other hline, ih hmore]
  rw [ofLines, List.foldl_cons, List.foldl_cons, readLine_name hname,
    readLine_description hdescription, unchanged]

/-! ## Reading a mapping -/

theorem IsPhrase.isWords {text : List Char} (h : IsPhrase text) : IsWords text where
  first := h.first
  chars c hc := (h.chars c hc).imp_right (IsPlainChar.of_test rfl)
  last := h.last

theorem IsPhrase.optional?_eq {text : List Char} (h : IsPhrase text) :
    (⟨true, none, text⟩ : Scalar).optional? = some (some text) := by
  obtain ⟨c, hc, letter⟩ := h.first
  obtain ⟨rest, rfl⟩ := List.head?_eq_some_iff.mp hc
  have word : c :: rest ∉ nullWords := by
    rw [nullWords, List.mem_cons]
    rintro (tilde | null)
    · obtain ⟨rfl, -⟩ := List.cons.inj tilde
      exact absurd letter (by decide)
    · exact h.notNull null
  simp [Scalar.optional?, word]

/-- A key that stands first has the value that stands there, or it stands there again. -/
theorem field?_plainEntry {text : List Char} (h : IsPhrase text) (key : List Char)
    {entries more : List Yaml.Entry}
    (first : entries.filter (·.key = String.ofList key) = plainEntry key text :: more) :
    field? (String.ofList key) entries = none ∨
      field? (String.ofList key) entries = some (some (String.ofList text)) := by
  unfold field?
  rw [first]
  cases more with
  | nil => exact .inr (by simp [plainEntry, h.optional?_eq])
  | cons entry more => exact .inl rfl

/-- Entries that begin with a name and a description can be used for these alone. -/
theorem FrontMatter.ofEntries?_headed (hname : IsPhrase name) (hdescription : IsPhrase description)
    (more : List Yaml.Entry) :
    let entries := plainEntry "name".toList name ::
      plainEntry "description".toList description :: more
    ofEntries? entries = none ∨ ofEntries? entries =
      some ⟨some (String.ofList name), some (String.ofList description)⟩ := by
  intro entries
  have nameFirst : entries.filter (·.key = "name") =
      plainEntry "name".toList name :: more.filter (·.key = "name") := by
    simp [entries, plainEntry]
  have descriptionFirst : entries.filter (·.key = "description") =
      plainEntry "description".toList description :: more.filter (·.key = "description") := by
    simp [entries, plainEntry]
  have nameField := field?_plainEntry hname "name".toList nameFirst
  have descriptionField := field?_plainEntry hdescription "description".toList descriptionFirst
  rw [String.ofList_toList] at nameField descriptionField
  rw [ofEntries?]
  rcases nameField with h | h <;> rcases descriptionField with h' | h' <;> simp [h, h']

/-! ## Reading a block -/

/-- The lines of a block with a name, a description and other keys. -/
def headedLines (name description : List Char) (others : List (List Char)) : List (List Char) :=
  ("name: ".toList ++ name) :: ("description: ".toList ++ description) :: others

theorem isKeyWord_name : IsKeyWord "name".toList :=
  ⟨by decide, List.all_eq_true.mp rfl, by decide⟩

theorem isKeyWord_description : IsKeyWord "description".toList :=
  ⟨by decide, List.all_eq_true.mp rfl, by decide⟩

theorem joinLines_headedLines (name description : List Char) (others : List (List Char)) :
    joinLines (headedLines name description others) =
      twoPairs "name".toList name "description".toList description
        (others.flatMap ('\n' :: ·)) := by
  rw [headedLines, joinLines_cons_cons, joinLines_cons]
  simp [twoPairs]

theorem startsLine_others (hothers : ∀ line ∈ others, IsOther line) :
    StartsLine (others.flatMap ('\n' :: ·)) := by
  cases others with
  | nil => exact .inl rfl
  | cons line more =>
      obtain ⟨c, rest, rfl, hc⟩ := (hothers line (by simp)).exists_cons
      obtain ⟨notBreak, notBlank, notReturn, notNextLine⟩ : isBreak c = false ∧
          Yaml.isBlank c = false ∧ c ≠ '\r' ∧ c ≠ '\u0085' := by
        rcases Bool.or_eq_true_iff.mp hc with lower | colon
        · have plain := isPlainChar_of_isAlpha (isAlpha_of_isLower lower)
          exact ⟨plain.notBreak, plain.notBlank, plain.notReturn, plain.notNextLine⟩
        · rw [beq_iff_eq.mp colon]
          decide
      exact .inr ⟨c, _, rfl, notBreak, notBlank, notReturn, notNextLine⟩

/-- A character that no phrase holds. -/
theorem IsPhrase.notMem {text : List Char} (h : IsPhrase text) {c : Char} (space : c ≠ ' ')
    (mark : isPhraseMark c = false) : c ∉ text := by
  intro hc
  rcases h.chars c hc with same | found
  · exact space same
  · simp [mark] at found

/-- A line that ends in a phrase loses no carriage return. -/
theorem IsPhrase.dropReturn_append {text : List Char} (h : IsPhrase text) (front : List Char) :
    dropReturn (front ++ text) = front ++ text := by
  have nonempty : text ≠ [] := by
    obtain ⟨c, hc, -⟩ := h.first
    rintro rfl
    simp at hc
  refine dropReturn_eq_self ?_
  rw [List.getLast?_append_of_ne_nil _ nonempty]
  exact fun hlast => h.notMem (by decide) (by decide) (List.mem_of_getLast? hlast)

/-- Other lines that are put together are found again as other lines. -/
theorem isOther_of_mem_lines (hothers : ∀ line ∈ others, IsOther line) :
    ∀ found ∈ lines (joinLines others), IsOther found := by
  induction others with
  | nil => simp [joinLines, lines]
  | cons line more ih =>
      obtain ⟨hline, hmore⟩ := List.forall_mem_cons.mp hothers
      obtain ⟨c, rest, hcons, -⟩ := hline.exists_cons
      rw [lines_joinLines_cons (by simp [hcons]) hline.noNewline]
      refine List.forall_mem_cons.mpr ⟨?_, ih hmore⟩
      split
      · exact hline
      · exact hline.dropReturn

/-- The lines of a block are found again, each other line perhaps without a carriage return. -/
theorem lines_joinLines_headedLines (hname : IsPhrase name) (hdescription : IsPhrase description)
    (others : List (List Char)) :
    lines (joinLines (headedLines name description others)) =
      headedLines name description (lines (joinLines others)) := by
  have phrase {front text : List Char} (h : IsPhrase text) (nonempty : front ≠ [])
      (noNewline : '\n' ∉ front) (more : List (List Char)) :
      lines (joinLines ((front ++ text) :: more)) = (front ++ text) :: lines (joinLines more) := by
    have newline : '\n' ∉ text := h.notMem (by decide) (by decide)
    rw [lines_joinLines_cons (by simp [nonempty]) (by simp [noNewline, newline]),
      h.dropReturn_append, ite_self]
  rw [headedLines, phrase hname (by decide) (by decide),
    phrase hdescription (by decide) (by decide), headedLines]

/-- Both ways of reading a block come to the name and the description that it begins with. -/
theorem FrontMatter.ofBlock_headedLines (hname : IsPhrase name)
    (hdescription : IsPhrase description) (hothers : ∀ line ∈ others, IsOther line) :
    ofBlock (joinLines (headedLines name description others)) =
      ⟨some (String.ofList name), some (String.ofList description)⟩ := by
  -- line by line
  have fallback : ofLines (lines (joinLines (headedLines name description others))) =
      ⟨some (String.ofList name), some (String.ofList description)⟩ := by
    rw [lines_joinLines_headedLines hname hdescription]
    exact ofLines_headed hname hdescription (isOther_of_mem_lines hothers)
  rw [ofBlock, fallback]
  cases hentries : Yaml.Entry.ofText? (joinLines (headedLines name description others)) with
  | none => rfl
  | some entries =>
      rw [joinLines_headedLines] at hentries
      obtain ⟨more, rfl⟩ := ofText?_twoPairs isKeyWord_name hname.isWords isKeyWord_description
        hdescription.isWords (startsLine_others hothers) hentries
      rw [Option.bind_some]
      rcases ofEntries?_headed hname hdescription more with h | h <;> rw [h] <;> rfl

/-! ## Reading a document -/

/-- A document whose front matter begins with a name and a description. -/
def headedDocument (name description : List Char) (others : List (List Char)) (body : List Char) :
    List Char :=
  joinLines ("---".toList :: headedLines name description others ++ ["---".toList, body])

theorem IsOther.isFence {line : List Char} (h : IsOther line) : isFence line = false := by
  obtain ⟨c, rest, rfl, hc⟩ := h.exists_cons
  rcases Bool.or_eq_true_iff.mp hc with lower | colon
  · have letter := isAlpha_of_isLower lower
    exact isFence_cons (not_isBlank_of_isPhraseMark (isPhraseMark_of_isAlpha letter))
      (ne_of_test letter rfl) rest
  · rw [beq_iff_eq.mp colon]
    exact isFence_cons (by decide) (by decide) rest

/-- The block of such a document has the same lines, each other line perhaps without a carriage
return. -/
theorem block?_headedDocument (hname : IsPhrase name) (hdescription : IsPhrase description)
    (hothers : ∀ line ∈ others, IsOther line) (body : List Char) :
    block? (headedDocument name description others body) =
      some (joinLines (headedLines name description (others.map dropReturn))) := by
  have noNewline {text : List Char} (h : IsPhrase text) : '\n' ∉ text :=
    h.notMem (by decide) (by decide)
  have front : ∀ line ∈ "---".toList :: headedLines name description others, '\n' ∉ line := by
    simp only [headedLines, List.forall_mem_cons]
    refine ⟨by decide, ?_, ?_, fun line hline => (hothers line hline).noNewline⟩
    · simpa using noNewline hname
    · simpa using noNewline hdescription
  have closing : lines (joinLines ["---".toList, body]) = "---".toList :: lines body := by
    have single : joinLines [body] = body := by simp [joinLines]
    rw [lines_joinLines_cons (by decide) (by decide), if_neg (by simp), single]
    rfl
  have all : lines (headedDocument name description others body) = "---".toList ::
      (headedLines name description (others.map dropReturn) ++ "---".toList :: lines body) := by
    rw [headedDocument, lines_joinLines_append front, closing, headedLines]
    simp only [List.map_cons, hname.dropReturn_append, hdescription.dropReturn_append]
    rfl
  have noFence : ∀ line ∈ headedLines name description (others.map dropReturn),
      isFence line = false := by
    simp only [headedLines, List.forall_mem_cons, List.forall_mem_map]
    refine ⟨isFence_cons (by decide) (by decide) _, isFence_cons (by decide) (by decide) _,
      fun line hline => (hothers line hline).dropReturn.isFence⟩
  rw [block?, all, blockLines?_eq_some (by decide) (by decide) (by simp [headedLines]) noFence]
  rfl

/-- **Name and description survive whatever other keys hold.** Front matter that begins with a plain
name and description is read for these, whether or not it is a mapping that can be used: the lines
of other keys may hold anything but a newline, and the body anything at all. -/
theorem FrontMatter.ofText_headedDocument (hname : IsPhrase name)
    (hdescription : IsPhrase description) (hothers : ∀ line ∈ others, IsOther line)
    (body : List Char) :
    ofText (headedDocument name description others body) =
      ⟨some (String.ofList name), some (String.ofList description)⟩ := by
  have others' : ∀ line ∈ others.map dropReturn, IsOther line :=
    List.forall_mem_map.mpr fun line hline => (hothers line hline).dropReturn
  rw [ofText, block?_headedDocument hname hdescription hothers]
  exact ofBlock_headedLines hname hdescription others'

/-- Lines of other keys: a bracket that is not closed, and a second name after a carriage return. -/
def strayLines : List (List Char) := ["license: [MIT".toList, "x: \rname: other\r".toList]

theorem ofText_headedDocument_strayLines :
    IsPhrase "pdf-tools".toList ∧ IsPhrase "Reads PDF files, v1.2 and later.".toList ∧
      (∀ line ∈ strayLines, IsOther line) ∧
      FrontMatter.ofText (headedDocument "pdf-tools".toList
          "Reads PDF files, v1.2 and later.".toList strayLines "---\nname: last".toList) =
        ⟨some (String.ofList "pdf-tools".toList),
          some (String.ofList "Reads PDF files, v1.2 and later.".toList)⟩ := by
  have name : IsPhrase "pdf-tools".toList := by decide
  have description : IsPhrase "Reads PDF files, v1.2 and later.".toList := by decide
  have others : ∀ line ∈ strayLines, IsOther line := by
    simp only [strayLines, List.forall_mem_cons]
    exact ⟨⟨⟨"license".toList, " [MIT".toList, by decide, List.all_eq_true.mp rfl, by decide⟩,
        by decide⟩,
      ⟨⟨"x".toList, " \rname: other\r".toList, by decide, List.all_eq_true.mp rfl, by decide⟩,
        by decide⟩, by simp⟩
  exact ⟨name, description, others, FrontMatter.ofText_headedDocument name description others _⟩

end SkillMarket.Skill
