import SkillMarket.Proofs.Toml.Integer
import SkillMarket.Proofs.Toml.Quoted

/-!
# Keys and values of a settings file

A settings file gives its keys texts, lists of texts and integers. `WritesName` and `Setting.Writes`
say how a key and a value may be written: a key bare or between quotes, the items of a list with any
space between them, over several lines and with a last comma or without. All of these are read.
-/

namespace SkillMarket.Toml

open Json (intText natText isDigit_of_mem_natText)

/-! ## Space -/

/-- Blanks in a line. -/
def IsBlank (cs : List Char) : Prop := ∀ c ∈ cs, isBlank c = true

/-- Blanks and newlines. -/
def IsSpace (cs : List Char) : Prop := ∀ c ∈ cs, c = ' ' ∨ c = '\t' ∨ c = '\n'

/-- A character that neither is space nor begins a comment. -/
structure IsInk (c : Char) : Prop where
  notBlank : isBlank c = false
  notNewline : c ≠ '\n'
  notHash : c ≠ '#'

instance (c : Char) : Decidable (IsInk c) :=
  decidable_of_iff (isBlank c = false ∧ c ≠ '\n' ∧ c ≠ '#')
    ⟨fun ⟨blank, newline, hash⟩ => ⟨blank, newline, hash⟩,
      fun ⟨blank, newline, hash⟩ => ⟨blank, newline, hash⟩⟩

theorem IsSpace.nil : IsSpace [] := by simp [IsSpace]

theorem skipTrivia_space {space : List Char} (h : IsSpace space) (cs : List Char) :
    skipTrivia false (space ++ cs) = skipTrivia false cs := by
  induction space with
  | nil => rfl
  | cons c space ih =>
      obtain ⟨first, more⟩ := List.forall_mem_cons.mp h
      rcases first with rfl | rfl | rfl <;> simpa [skipTrivia, isBlank] using ih more

theorem skipTrivia_ink {c : Char} (h : IsInk c) (cs : List Char) :
    skipTrivia false (c :: cs) = c :: cs := by
  simp [skipTrivia, h.notBlank, h.notNewline, h.notHash]

theorem skipBlanks_blank {blanks : List Char} (h : IsBlank blanks) (cs : List Char) :
    skipBlanks (blanks ++ cs) = skipBlanks cs := List.dropWhile_append_of_pos h

theorem skipBlanks_cons {c : Char} (h : isBlank c = false) (cs : List Char) :
    skipBlanks (c :: cs) = c :: cs := List.dropWhile_cons_of_neg (by simp [h])

theorem IsBlank.isSpace {blanks : List Char} (h : IsBlank blanks) : IsSpace blanks := by
  intro c hc
  have blank : c = ' ' ∨ c = '\t' := by simpa [isBlank] using h c hc
  exact blank.imp_right .inl

theorem IsSpace.isAllowed {cs : List Char} (h : IsSpace cs) : ∀ c ∈ cs, isAllowed c = true := by
  intro c hc
  rcases h c hc with rfl | rfl | rfl <;> decide

theorem IsBlank.isAllowed {cs : List Char} (h : IsBlank cs) : ∀ c ∈ cs, isAllowed c = true :=
  h.isSpace.isAllowed

/-- What space and a mark have in common holds of the first character of the two. -/
theorem IsSpace.forall_head? {space : List Char} (h : IsSpace space) (p : Char → Prop)
    {mark : Char} (hspace : p ' ' ∧ p '\t' ∧ p '\n') (hmark : p mark) (more : List Char) :
    ∀ c ∈ (space ++ mark :: more).head?, p c := by
  obtain ⟨hblank, htab, hnewline⟩ := hspace
  cases space with
  | nil => simpa using hmark
  | cons c space =>
      rcases h c (by simp) with rfl | rfl | rfl
      · simpa using hblank
      · simpa using htab
      · simpa using hnewline

/-! ## Bare characters -/

theorem ne_of_isBare {c d : Char} (hc : isBare c = true) (hd : isBare d = false) : c ≠ d := by
  rintro rfl
  simp [hc] at hd

theorem isInk_of_isBare {c : Char} (h : isBare c = true) : IsInk c where
  notBlank := by
    have notSpace := ne_of_isBare h (d := ' ') (by decide)
    have notTab := ne_of_isBare h (d := '\t') (by decide)
    simp [isBlank, notSpace, notTab]
  notNewline := ne_of_isBare h (by decide)
  notHash := ne_of_isBare h (by decide)

theorem isAllowed_of_isBare {c : Char} (h : isBare c = true) : isAllowed c = true := by
  -- beyond ASCII everything is allowed
  by_cases ascii : c.toNat < 0x80
  · have table : ∀ n < 0x80, isBare (.ofNat n) = true → isAllowed (.ofNat n) = true := by decide
    rw [← Char.ofNat_toNat c] at h ⊢
    exact table c.toNat ascii h
  · simp [isAllowed, Nat.le_of_not_lt ascii]

theorem isBare_of_mem_intText {n : Int} {c : Char} (h : c ∈ intText n) : isBare c = true := by
  rw [intText, List.mem_append] at h
  rcases h with sign | digit
  · have minus : c = '-' := by
      split at sign <;> simp_all
    rw [minus]
    decide
  · simp [isBare, Char.isAlphanum, isDigit_of_mem_natText digit]

theorem intText_ne_nil (n : Int) : intText n ≠ [] := by
  simp [intText, natText, Nat.toDigits_ne_nil]

/-! ## Texts -/

/-- A text between double quotes. -/
inductive WritesText (text : String) : List Char → Prop
  | mk {inside : List Char} (h : Quotes text.toList inside) :
      WritesText text ('"' :: (inside ++ ['"']))

theorem exists_writesText (text : String) : ∃ cs, WritesText text cs := by
  obtain ⟨inside, h⟩ := exists_quotes text.toList
  exact ⟨_, .mk h⟩

theorem WritesText.isAllowed {text : String} {cs : List Char} (h : WritesText text cs) :
    ∀ c ∈ cs, isAllowed c = true := by
  cases h with
  | mk h =>
      have quote : Toml.isAllowed '"' = true := by decide
      simp only [List.forall_mem_cons, List.forall_mem_append]
      exact ⟨quote, h.isAllowed, quote, by simp⟩

theorem WritesText.ne_nil {text : String} {cs : List Char} (h : WritesText text cs) : cs ≠ [] := by
  cases h with
  | mk h => simp

/-- What stands for a character does not begin with a quote. -/
theorem Escapes.head_ne_quote {c d : Char} {more : List Char} (h : Escapes c (d :: more)) :
    d ≠ '"' := by
  cases h with
  | plain _ notQuote _ => exact notQuote
  | letter _ => decide
  | digits _ _ _ => decide

theorem Escapes.ne_nil {c : Char} {inside : List Char} (h : Escapes c inside) : inside ≠ [] := by
  cases h <;> simp

/-- Quotes are not taken for those of a string over several lines. -/
theorem readString_text {text : String} {cs : List Char} (h : WritesText text cs)
    {rest : List Char} (after : ∀ c ∈ rest.head?, c ≠ '"') :
    readString (cs ++ rest) = some (text.toList, rest) := by
  cases h with
  | @mk inside quotes =>
      have read := readBasic_quotes quotes rest
      have oneLine : ∀ more, inside ++ '"' :: rest ≠ '"' :: '"' :: more := by
        generalize text.toList = chars at quotes
        rintro more heq
        -- an empty text ends at once, and no other begins with a quote
        cases quotes with
        | nil =>
            rw [List.nil_append, List.cons.injEq] at heq
            simp [heq.2] at after
        | @cons c _ first _ head _ =>
            cases first with
            | nil => exact head.ne_nil rfl
            | cons d first => exact head.head_ne_quote (List.cons.inj heq).1
      rw [List.cons_append, List.append_assoc, List.singleton_append,
        readString.eq_2 _ fun more heq => oneLine more heq, read]

theorem readValue_text {text : String} {cs : List Char} (h : WritesText text cs)
    {rest : List Char} (after : ∀ c ∈ rest.head?, c ≠ '"') (size depth : Nat) :
    readValue size depth (cs ++ rest) = some (.string text.toList, rest) := by
  have read := readString_text h after
  have scalar (inner : Option (List Char → Option (Value × List Char))) :
      readWith size inner (cs ++ rest) = some (.string text.toList, rest) := by
    cases h with
    | mk h =>
        rw [List.cons_append] at read ⊢
        rw [readWith.eq_3 size inner _ (by simp) (by simp), readScalar, if_pos (by simp), read]
        rfl
  cases depth with
  | zero => exact scalar none
  | succ depth => exact scalar _

/-! ## Lists of texts -/

/-- The items of a list, up to its closing bracket. -/
inductive WritesItems : List String → List Char → Prop
  | nil {space : List Char} (h : IsSpace space) : WritesItems [] space
  | last {text : String} {before item after : List Char} (hbefore : IsSpace before)
      (head : WritesText text item) (hafter : IsSpace after) :
      WritesItems [text] (before ++ (item ++ after))
  | cons {text : String} {texts : List String} {before item after more : List Char}
      (hbefore : IsSpace before) (head : WritesText text item) (hafter : IsSpace after)
      (tail : WritesItems texts more) :
      WritesItems (text :: texts) (before ++ (item ++ (after ++ ',' :: more)))

theorem exists_writesItems (texts : List String) : ∃ cs, WritesItems texts cs := by
  induction texts with
  | nil => exact ⟨[], .nil .nil⟩
  | cons text texts ih =>
      obtain ⟨item, head⟩ := exists_writesText text
      obtain ⟨more, tail⟩ := ih
      exact ⟨_, .cons .nil head .nil tail⟩

theorem WritesItems.isAllowed {texts : List String} {cs : List Char} (h : WritesItems texts cs) :
    ∀ c ∈ cs, isAllowed c = true := by
  have comma : Toml.isAllowed ',' = true := by decide
  induction h with
  | nil h => exact h.isAllowed
  | last hbefore head hafter =>
      simp only [List.forall_mem_append]
      exact ⟨hbefore.isAllowed, head.isAllowed, hafter.isAllowed⟩
  | cons hbefore head hafter _ ih =>
      simp only [List.forall_mem_append, List.forall_mem_cons]
      exact ⟨hbefore.isAllowed, head.isAllowed, hafter.isAllowed, comma, ih⟩

theorem WritesItems.length_le {texts : List String} {cs : List Char} (h : WritesItems texts cs) :
    texts.length ≤ cs.length := by
  induction h with
  | nil _ => simp
  | last _ head _ =>
      have := List.length_pos_iff.mpr head.ne_nil
      simp only [List.length_append, List.length_cons, List.length_nil]
      omega
  | cons _ head _ _ ih =>
      simp only [List.length_append, List.length_cons]
      omega

/-- Where the list is not closed an item is read. -/
theorem readItems_of_ne {value : List Char → Option (Value × List Char)} {cs more : List Char}
    {c : Char} (start : skipTrivia false cs = c :: more) (other : c ≠ ']') (rounds : Nat)
    (read : List Value) :
    readItems value (rounds + 1) read cs = (value (c :: more)).bind fun r =>
      match skipTrivia false r.2 with
      | ',' :: rest => readItems value rounds (r.1 :: read) rest
      | ']' :: rest => some ((r.1 :: read).reverse, rest)
      | _ => none := by
  rw [readItems, start]
  split
  · next h => exact absurd (List.cons.inj h).1 other
  · rfl

/-- An item is read, up to the mark after it. -/
theorem readItems_item {text : String} {before item after : List Char} (hbefore : IsSpace before)
    (head : WritesText text item) (hafter : IsSpace after) {mark : Char} (ink : IsInk mark)
    (notQuote : mark ≠ '"') (size depth rounds : Nat) (read : List Value) (rest : List Char) :
    readItems (readValue size depth) (rounds + 1) read
        (before ++ (item ++ (after ++ mark :: rest))) =
      match mark :: rest with
      | ',' :: rest => readItems (readValue size depth) rounds (.string text.toList :: read) rest
      | ']' :: rest => some ((Value.string text.toList :: read).reverse, rest)
      | _ => none := by
  have noQuote : ∀ c ∈ (after ++ mark :: rest).head?, c ≠ '"' :=
    hafter.forall_head? (· ≠ '"') (by decide) notQuote rest
  have value := readValue_text head noQuote size depth
  have next : skipTrivia false (after ++ mark :: rest) = mark :: rest := by
    rw [skipTrivia_space hafter, skipTrivia_ink ink]
  cases head with
  | @mk inside _ =>
      rw [List.cons_append] at value ⊢
      have start : skipTrivia false
          (before ++ '"' :: (inside ++ ['"'] ++ (after ++ mark :: rest))) =
            '"' :: (inside ++ ['"'] ++ (after ++ mark :: rest)) := by
        rw [skipTrivia_space hbefore, skipTrivia_ink (by decide)]
      rw [readItems_of_ne start (by decide), value, Option.bind_some]
      simp only [next]

/-- A list is read to its closing bracket. -/
theorem readItems_items {texts : List String} {cs : List Char} (h : WritesItems texts cs)
    {rounds : Nat} (enough : texts.length < rounds) (size depth : Nat) (read : List Value)
    (rest : List Char) :
    readItems (readValue size depth) rounds read (cs ++ ']' :: rest) =
      some (read.reverse ++ texts.map fun text => .string text.toList, rest) := by
  induction h generalizing rounds read with
  | nil hspace =>
      obtain ⟨rounds, rfl⟩ := Nat.exists_eq_add_of_lt enough
      rw [readItems, skipTrivia_space hspace, skipTrivia_ink (by decide)]
      simp
  | last hbefore head hafter =>
      obtain ⟨rounds, rfl⟩ := Nat.exists_eq_add_of_lt enough
      rw [List.append_assoc, List.append_assoc,
        readItems_item hbefore head hafter (by decide) (by decide)]
      simp
  | cons hbefore head hafter _ ih =>
      obtain ⟨rounds, rfl⟩ := Nat.exists_eq_add_of_lt enough
      rw [List.append_assoc, List.append_assoc, List.append_assoc, List.cons_append,
        readItems_item hbefore head hafter (by decide) (by decide)]
      simp only
      rw [ih (by simp; omega)]
      simp

/-! ## Values -/

/-- What a key of a settings file is given. -/
inductive Setting where
  | text (text : String)
  | texts (texts : List String)
  | integer (n : Int)
deriving DecidableEq, Repr

namespace Setting

def value : Setting → Value
  | text s => .string s.toList
  | texts ss => .array (ss.map fun s => .string s.toList)
  | integer n => .integer n

/-- Integers have 64 bits. -/
def InRange : Setting → Prop
  | integer n => -2 ^ 63 ≤ n ∧ n < 2 ^ 63
  | _ => True

instance : DecidablePred InRange
  | text _ => inferInstanceAs (Decidable True)
  | texts _ => inferInstanceAs (Decidable True)
  | integer _ => inferInstanceAs (Decidable (_ ∧ _))

/-- How a value may be written. -/
inductive Writes : Setting → List Char → Prop
  | text {s : String} {cs : List Char} (h : WritesText s cs) : Writes (.text s) cs
  | texts {ss : List String} {cs : List Char} (h : WritesItems ss cs) :
      Writes (.texts ss) ('[' :: (cs ++ [']']))
  | integer {n : Int} (range : InRange (.integer n)) : Writes (.integer n) (intText n)

variable {v : Setting} {cs : List Char}

theorem exists_writes (range : v.InRange) : ∃ cs, v.Writes cs := by
  cases v with
  | text s =>
      obtain ⟨cs, h⟩ := exists_writesText s
      exact ⟨cs, .text h⟩
  | texts ss =>
      obtain ⟨cs, h⟩ := exists_writesItems ss
      exact ⟨_, .texts h⟩
  | integer n => exact ⟨_, .integer range⟩

theorem Writes.isAllowed (h : v.Writes cs) : ∀ c ∈ cs, isAllowed c = true := by
  cases h with
  | text h => exact h.isAllowed
  | texts h =>
      have brackets : Toml.isAllowed '[' = true ∧ Toml.isAllowed ']' = true := by decide
      simp only [List.forall_mem_cons, List.forall_mem_append]
      exact ⟨brackets.1, h.isAllowed, brackets.2, by simp⟩
  | integer _ => exact fun c hc => isAllowed_of_isBare (isBare_of_mem_intText hc)

/-- A value begins with a character that is no space. -/
theorem Writes.exists_cons (h : v.Writes cs) : ∃ c more, cs = c :: more ∧ IsInk c := by
  cases h with
  | text h =>
      cases h with
      | mk _ => exact ⟨_, _, rfl, by decide⟩
  | texts _ => exact ⟨_, _, rfl, by decide⟩
  | @integer n _ =>
      obtain ⟨c, more, hcons⟩ := List.exists_cons_of_ne_nil (intText_ne_nil n)
      have bare : isBare c = true := isBare_of_mem_intText (n := n) (by simp [hcons])
      exact ⟨c, more, hcons, isInk_of_isBare bare⟩

/-- **A value is read to the end of its line.** -/
theorem Writes.readValue_eq (h : v.Writes cs) {size : Nat} (enough : cs.length < size)
    (depth : Nat) (rest : List Char) :
    readValue size (depth + 1) (cs ++ '\n' :: rest) = some (v.value, '\n' :: rest) := by
  cases h with
  | text h => exact readValue_text h (by simp) size (depth + 1)
  | @texts ss inside h =>
      have items : ss.length < size := by
        have := h.length_le
        simp only [List.length_cons, List.length_append] at enough
        omega
      have read := readItems_items h items size depth [] ('\n' :: rest)
      rw [List.cons_append, List.append_assoc, List.singleton_append, readValue, readWith]
      simp only [Option.bind_eq_bind, Option.bind_some, read]
      rfl
  | @integer n range =>
      have read := readScalar_intText range.1 range.2 rest
      obtain ⟨c, more, hcons⟩ := List.exists_cons_of_ne_nil (intText_ne_nil n)
      have bare : isBare c = true := isBare_of_mem_intText (n := n) (by simp [hcons])
      rw [hcons, List.cons_append] at read ⊢
      -- neither a list nor a table
      rw [readValue, readWith.eq_3 _ _ _
        (fun _ h => ne_of_isBare bare (by decide) (List.cons.inj h).1)
        (fun _ h => ne_of_isBare bare (by decide) (List.cons.inj h).1)]
      exact read

end Setting

/-! ## Keys -/

/-- How a key may be written: as it is if all its characters are those of bare keys, or as a
text. -/
inductive WritesName : String → List Char → Prop
  | bare {name : String} (nonempty : name ≠ "") (bare : ∀ c ∈ name.toList, isBare c = true) :
      WritesName name name.toList
  | quoted {name : String} {cs : List Char} (h : WritesText name cs) : WritesName name cs

variable {name : String} {cs : List Char}

theorem exists_writesName (name : String) : ∃ cs, WritesName name cs := by
  obtain ⟨cs, h⟩ := exists_writesText name
  exact ⟨cs, .quoted h⟩

theorem WritesName.isAllowed (h : WritesName name cs) : ∀ c ∈ cs, isAllowed c = true := by
  cases h with
  | bare _ bare => exact fun c hc => isAllowed_of_isBare (bare c hc)
  | quoted h => exact h.isAllowed

theorem WritesName.exists_cons (h : WritesName name cs) :
    ∃ c more, cs = c :: more ∧ (c = '"' ∨ isBare c = true) := by
  cases h with
  | bare nonempty bare =>
      have nonempty : name.toList ≠ [] := fun hnil => nonempty (String.toList_eq_nil_iff.mp hnil)
      obtain ⟨c, more, hcons⟩ := List.exists_cons_of_ne_nil nonempty
      exact ⟨c, more, hcons, .inr (bare c (by simp [hcons]))⟩
  | quoted h =>
      cases h with
      | mk _ => exact ⟨_, _, rfl, .inl rfl⟩

/-- A name is read if no character of a bare key follows it. -/
theorem readName_eq (h : WritesName name cs) {rest : List Char}
    (after : ∀ c ∈ rest.head?, isBare c = false) : readName (cs ++ rest) = some (name, rest) := by
  cases h with
  | bare nonempty bare =>
      have run : (name.toList ++ rest).takeWhile isBare = name.toList := by
        rw [List.takeWhile_append_of_pos bare]
        cases rest with
        | nil => simp
        | cons c rest =>
            have ends : isBare c = false := after c rfl
            rw [List.takeWhile_cons_of_neg (by simp [ends]), List.append_nil]
      obtain ⟨c, more, hcons, -⟩ := (WritesName.bare nonempty bare).exists_cons
      have first : isBare c = true := bare c (by simp [hcons])
      have other {d : Char} (hd : isBare d = false) (text : List Char) :
          name.toList ++ rest ≠ d :: text := by
        rw [hcons]
        exact fun heq => ne_of_isBare first hd (List.cons.inj heq).1
      have nonempty : name.toList.isEmpty = false := by simp [hcons]
      rw [readName.eq_3 _ (other (by decide)) (other (by decide)), run, nonempty, List.drop_left]
      simp
  | quoted h =>
      cases h with
      | mk quotes =>
          rw [List.cons_append, List.append_assoc, List.singleton_append, readName,
            readBasic_quotes quotes]
          simp

/-- A character that ends a key. -/
structure EndsKey (c : Char) : Prop where
  notBare : isBare c = false
  notBlank : isBlank c = false
  notPoint : c ≠ '.'

/-- A key of one name is read up to the mark after it. -/
theorem readKey_eq (h : WritesName name cs) {blanks : List Char} (hblanks : IsBlank blanks)
    {mark : Char} (ends : EndsKey mark) (rest : List Char) :
    readKey (cs ++ (blanks ++ mark :: rest)) = some (⟨[], name⟩, mark :: rest) := by
  obtain ⟨c, more, hcons, first⟩ := h.exists_cons
  have ink : isBlank c = false := by
    rcases first with rfl | bare
    · decide
    · exact (isInk_of_isBare bare).notBlank
  have start : skipBlanks (cs ++ (blanks ++ mark :: rest)) = cs ++ (blanks ++ mark :: rest) := by
    rw [hcons, List.cons_append, skipBlanks_cons ink]
  have after : ∀ d ∈ (blanks ++ mark :: rest).head?, isBare d = false :=
    hblanks.isSpace.forall_head? (isBare · = false) (by decide) ends.notBare rest
  have next : skipBlanks (blanks ++ mark :: rest) = mark :: rest := by
    rw [skipBlanks_blank hblanks, skipBlanks_cons ends.notBlank]
  have names (rounds : Nat) :
      readNames (rounds + 1) (cs ++ (blanks ++ mark :: rest)) = some ([name], mark :: rest) := by
    -- no point follows, so this is the only name
    have onlyOne : ∀ more, mark :: rest ≠ '.' :: more :=
      fun _ heq => ends.notPoint (List.cons.inj heq).1
    simp only [readNames, start, readName_eq h after, Option.bind_eq_bind, Option.bind_some, next]
    rfl
  have deep : depthLimit - 1 = 78 + 1 := rfl
  rw [readKey, deep, names 78]
  rfl

/-- A pair is read: a key and a value with blanks around the sign between them. -/
theorem readPair_eq (h : WritesName name cs) {v : Setting} {text : List Char} (hv : v.Writes text)
    {before after : List Char} (hbefore : IsBlank before) (hafter : IsBlank after)
    {value : List Char → Option (Value × List Char)} {rest left : List Char}
    (read : value (text ++ rest) = some (v.value, left)) :
    readPair value (cs ++ (before ++ '=' :: (after ++ (text ++ rest)))) =
      some ((⟨[], name⟩, v.value), left) := by
  have ends : EndsKey '=' := ⟨by decide, by decide, by decide⟩
  have key := readKey_eq h hbefore ends (after ++ (text ++ rest))
  have start : skipBlanks (after ++ (text ++ rest)) = text ++ rest := by
    obtain ⟨c, more, rfl, ink⟩ := hv.exists_cons
    rw [skipBlanks_blank hafter, List.cons_append, skipBlanks_cons ink.notBlank]
  simp only [readPair, key, readMark, if_true, Option.bind_eq_bind, Option.bind_some, start, read]
  rfl

end SkillMarket.Toml
