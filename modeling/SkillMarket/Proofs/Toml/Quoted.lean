import SkillMarket.Toml.Reader

/-!
# Texts between double quotes

`Quotes text inside` says what may stand between double quotes for a text: each character as it is,
or escaped. Quotes, backslashes and control characters must be escaped. However this is done, the
text is read back, and every text can be written so.
-/

namespace SkillMarket.Toml

/-! ## Escapes -/

/-- The control characters of ASCII. -/
def isControl (c : Char) : Bool := c.toNat < 0x20 || c.toNat == 0x7F

/-- What may stand for a character between double quotes. -/
inductive Escapes : Char → List Char → Prop
  | plain {c : Char} (notControl : isControl c = false) (notQuote : c ≠ '"')
      (notBackslash : c ≠ '\\') : Escapes c [c]
  | letter {c l : Char} (h : letterEscapes.lookup l = some c) : Escapes c ['\\', l]
  | digits {c mark : Char} {ds : List Char} (h : digitEscapes.lookup mark = some ds.length)
      (hex : ∀ d ∈ ds, (digit? 16 d).isSome) (value : valueOf 16 ds = c.toNat) :
      Escapes c ('\\' :: mark :: ds)

/-- What may stand for a text between double quotes. -/
inductive Quotes : List Char → List Char → Prop
  | nil : Quotes [] []
  | cons {c : Char} {text first more : List Char} (head : Escapes c first)
      (tail : Quotes text more) : Quotes (c :: text) (first ++ more)

/-- A text with nothing to escape stands for itself. -/
theorem quotes_self {text : List Char}
    (h : ∀ c ∈ text, isControl c = false ∧ c ≠ '"' ∧ c ≠ '\\') : Quotes text text := by
  induction text with
  | nil => exact .nil
  | cons c text ih =>
      obtain ⟨⟨notControl, notQuote, notBackslash⟩, others⟩ := List.forall_mem_cons.mp h
      exact .cons (.plain notControl notQuote notBackslash) (ih others)

/-! ## Reading -/

theorem charOf?_toNat (c : Char) : charOf? c.toNat = some c := by
  have valid : c.toNat < 0xD800 ∨ 0xDFFF < c.toNat ∧ c.toNat < 0x110000 := c.valid
  have scalar : (c.toNat < 0xD800 || (0xDFFF < c.toNat && c.toNat ≤ 0x10FFFF)) = true := by
    simp only [Bool.or_eq_true, Bool.and_eq_true, decide_eq_true_eq]
    omega
  rw [charOf?, if_pos scalar, Char.ofNat_toNat]

theorem readEscape?_letter {c l : Char} (h : letterEscapes.lookup l = some c)
    (rest : List Char) : readEscape? (l :: rest) = some (c, 1) := by
  simp [readEscape?, h]

/-- A mark of an escape with digits is no escape of its own. -/
theorem lookup_letterEscapes_of_mark {mark : Char} {count : Nat}
    (h : digitEscapes.lookup mark = some count) : letterEscapes.lookup mark = none := by
  simp only [digitEscapes, List.lookup_cons, List.lookup_nil] at h
  split at h
  · next hmark => rw [eq_of_beq hmark]; rfl
  · split at h
    · next hmark => rw [eq_of_beq hmark]; rfl
    · simp at h

theorem readEscape?_digits {c mark : Char} {ds : List Char}
    (h : digitEscapes.lookup mark = some ds.length) (hex : ∀ d ∈ ds, (digit? 16 d).isSome)
    (value : valueOf 16 ds = c.toNat) (rest : List Char) :
    readEscape? (mark :: (ds ++ rest)) = some (c, ds.length + 1) := by
  have all : ds.all (digit? 16 · |>.isSome) = true := List.all_eq_true.mpr hex
  simp only [readEscape?, lookup_letterEscapes_of_mark h, h, Option.bind_eq_bind,
    Option.bind_some, List.take_left, Nat.lt_irrefl, decide_false, all, Bool.not_true,
    Bool.or_false, Bool.false_eq_true, if_false, value, charOf?_toNat]
  rfl

/-- What an escape has read is passed over. -/
theorem readBasic_pass (passed rest : List Char) :
    readBasic passed.length (passed ++ rest) = readBasic 0 rest := by
  induction passed with
  | nil => rfl
  | cons c passed ih => exact ih

/-- An escape is read as its character, and reading goes on after it. -/
theorem readBasic_backslash {c : Char} {marks rest : List Char}
    (h : readEscape? (marks ++ rest) = some (c, marks.length)) :
    readBasic 0 ('\\' :: (marks ++ rest)) =
      (readBasic 0 rest).map fun r => (c :: r.1, r.2) := by
  have notQuote : '\\' ≠ '"' := by decide
  have notNewline : '\\' ≠ '\n' := by decide
  simp only [readBasic, notQuote, notNewline, if_false, if_true, h, Option.bind_eq_bind,
    Option.bind_some, readBasic_pass]
  cases readBasic 0 rest <;> rfl

/-- One character is read, whatever stands for it. -/
theorem readBasic_escapes {c : Char} {inside : List Char} (h : Escapes c inside)
    (rest : List Char) :
    readBasic 0 (inside ++ rest) = (readBasic 0 rest).map fun r => (c :: r.1, r.2) := by
  cases h with
  | plain notControl notQuote notBackslash =>
      have notNewline : c ≠ '\n' := by
        rintro rfl
        exact absurd notControl (by decide)
      simp [readBasic, notQuote, notNewline, notBackslash]
  | @letter l h => exact @readBasic_backslash c [l] rest (readEscape?_letter h rest)
  | @digits mark ds h hex value =>
      exact @readBasic_backslash c (mark :: ds) rest (readEscape?_digits h hex value rest)

/-- A text is read up to its closing quote. -/
theorem readBasic_quotes {text inside : List Char} (h : Quotes text inside) (rest : List Char) :
    readBasic 0 (inside ++ '"' :: rest) = some (text, rest) := by
  induction h with
  | nil => simp [readBasic]
  | cons head _ ih => rw [List.append_assoc, readBasic_escapes head, ih, Option.map_some]

/-! ## Allowed characters -/

theorem isAllowed_of_range {c : Char} (low : 0x20 ≤ c.toNat) (high : c.toNat ≤ 0x7E) :
    isAllowed c = true := by
  have visible : (decide (' ' ≤ c) && decide (c ≤ '~')) = true :=
    Bool.and_eq_true_iff.mpr ⟨decide_eq_true low, decide_eq_true high⟩
  simp [isAllowed, visible]

theorem isAllowed_of_not_isControl {c : Char} (h : isControl c = false) : isAllowed c = true := by
  simp only [isControl, Bool.or_eq_false_iff, decide_eq_false_iff_not, Nat.not_lt,
    beq_eq_false_iff_ne] at h
  by_cases ascii : c.toNat ≤ 0x7F
  · exact isAllowed_of_range h.1 (by omega)
  · have beyond : 0x80 ≤ c.toNat := by omega
    simp [isAllowed, beyond]

theorem isAllowed_of_digit {base : Nat} {c : Char} (h : (digit? base c).isSome) :
    isAllowed c = true := by
  by_cases decimal : c.isDigit = true
  · simp only [Char.isDigit, ge_iff_le, Bool.and_eq_true, decide_eq_true_eq] at decimal
    exact isAllowed_of_range (Nat.le_trans (by decide) decimal.1)
      (Nat.le_trans decimal.2 (by decide))
  by_cases lower : ('a' ≤ c && c ≤ 'f') = true
  · simp only [Bool.and_eq_true, decide_eq_true_eq] at lower
    exact isAllowed_of_range (Nat.le_trans (by decide) lower.1) (Nat.le_trans lower.2 (by decide))
  by_cases upper : ('A' ≤ c && c ≤ 'F') = true
  · simp only [Bool.and_eq_true, decide_eq_true_eq] at upper
    exact isAllowed_of_range (Nat.le_trans (by decide) upper.1) (Nat.le_trans upper.2 (by decide))
  · rw [digit?, if_neg decimal, if_neg lower, if_neg upper] at h
    simp at h

/-- A key of a list of pairs, with its value, is one of them. -/
theorem mem_of_lookup {α β : Type} [BEq α] [LawfulBEq α] {key : α} {value : β}
    {pairs : List (α × β)} (h : pairs.lookup key = some value) : (key, value) ∈ pairs := by
  obtain ⟨before, after, rfl, -⟩ := List.lookup_eq_some_iff.mp h
  simp

theorem Escapes.isAllowed {c : Char} {inside : List Char} (h : Escapes c inside) :
    ∀ d ∈ inside, isAllowed d = true := by
  have backslash : Toml.isAllowed '\\' = true := by decide
  cases h with
  | plain notControl _ _ => simpa using isAllowed_of_not_isControl notControl
  | @letter l h =>
      have letters : ∀ e ∈ letterEscapes, Toml.isAllowed e.1 = true := by decide
      simpa using ⟨backslash, letters _ (mem_of_lookup h)⟩
  | @digits mark ds h hex _ =>
      have marks : ∀ e ∈ digitEscapes, Toml.isAllowed e.1 = true := by decide
      simp only [List.forall_mem_cons]
      exact ⟨backslash, marks _ (mem_of_lookup h), fun d hd => isAllowed_of_digit (hex d hd)⟩

theorem Quotes.isAllowed {text inside : List Char} (h : Quotes text inside) :
    ∀ c ∈ inside, isAllowed c = true := by
  induction h with
  | nil => simp
  | cons head _ ih => exact List.forall_mem_append.mpr ⟨head.isAllowed, ih⟩

/-! ## Writing -/

/-- The number of a character of ASCII in four digits. -/
def fourDigits (n : Nat) : List Char := ['0', '0', Nat.digitChar (n / 16), Nat.digitChar (n % 16)]

theorem valueOf_fourDigits : ∀ n < 0x80,
    (fourDigits n).all (digit? 16 · |>.isSome) = true ∧ valueOf 16 (fourDigits n) = n := by
  decide

/-- Every character can be written. -/
theorem exists_escapes (c : Char) : ∃ inside, Escapes c inside := by
  by_cases control : isControl c = true
  · have ascii : c.toNat < 0x80 := by
      simp only [isControl, Bool.or_eq_true, decide_eq_true_eq, beq_iff_eq] at control
      omega
    obtain ⟨hex, value⟩ := valueOf_fourDigits c.toNat ascii
    exact ⟨_, @Escapes.digits c 'u' (fourDigits c.toNat) rfl (List.all_eq_true.mp hex) value⟩
  · by_cases quote : c = '"'
    · rw [quote]
      exact ⟨['\\', '"'], .letter rfl⟩
    · by_cases backslash : c = '\\'
      · rw [backslash]
        exact ⟨['\\', '\\'], .letter rfl⟩
      · exact ⟨[c], .plain (by simpa using control) quote backslash⟩

/-- Every text can be written. -/
theorem exists_quotes (text : List Char) : ∃ inside, Quotes text inside := by
  induction text with
  | nil => exact ⟨[], .nil⟩
  | cons c text ih =>
      obtain ⟨first, head⟩ := exists_escapes c
      obtain ⟨more, tail⟩ := ih
      exact ⟨first ++ more, .cons head tail⟩

end SkillMarket.Toml
