import SkillMarket.Proofs.Json.Numeral
import SkillMarket.Toml.Reader

/-!
# Integers of a settings file

The decimal text of an integer at the end of a line is read as this integer. It is neither taken for
the start of a date or a time, nor for a number in another base.
-/

namespace SkillMarket.Toml

open Json (natText intText isDigit_of_mem_natText natText_ne_leadingZero ne_of_isDigit)

variable {ds : List Char}

/-! ## Digits -/

theorem digit?_of_isDigit {c : Char} (h : c.isDigit = true) :
    digit? 10 c = some (c.toNat - 48) := by
  have range : 48 ≤ c.toNat ∧ c.toNat ≤ 57 := by
    simp only [Char.isDigit, ge_iff_le, Bool.and_eq_true, decide_eq_true_eq] at h
    exact ⟨h.1, h.2⟩
  have small : c.toNat - 48 < 10 := by omega
  rw [digit?, if_pos h, if_pos small]

theorem valueOf_digits (digits : ∀ c ∈ ds, c.isDigit = true) :
    valueOf 10 ds = Nat.ofDigitChars 10 ds 0 := by
  have step (n : Nat) : ds.foldl (fun n d => n * 10 + (digit? 10 d).getD 0) n =
      Nat.ofDigitChars 10 ds n := by
    induction ds generalizing n with
    | nil => simp
    | cons c ds ih =>
        obtain ⟨first, more⟩ := List.forall_mem_cons.mp digits
        rw [List.foldl_cons, ih more, Nat.ofDigitChars_cons, digit?_of_isDigit first,
          Option.getD_some, Nat.mul_comm]
        rfl
  exact step 0

theorem valueOf_natText (n : Nat) : valueOf 10 (natText n) = n := by
  rw [valueOf_digits fun _ hc => isDigit_of_mem_natText hc]
  exact Nat.ofDigitChars_ten_toDigits

/-! ## Dates and times -/

/-- A number of so many digits leaves the digits after it. -/
theorem exists_readPart_eq {count low high n : Nat} {rest after : List Char}
    (h : readPart count low high (ds ++ '\n' :: rest) = some (n, after)) :
    ∃ more, more ⊆ ds ∧ after = more ++ '\n' :: rest := by
  simp only [readPart, Option.ite_none_right_eq_some, Bool.and_eq_true, decide_eq_true_eq,
    Option.some.injEq, Prod.mk.injEq] at h
  obtain ⟨⟨⟨⟨-, digits⟩, -⟩, -⟩, -, rfl⟩ := h
  refine ⟨ds.drop count, List.drop_subset count ds, ?_⟩
  rw [List.drop_append_of_le_length]
  -- the newline is no digit
  by_contra long
  have newline : '\n' ∈ (ds ++ '\n' :: rest).take count := by
    obtain ⟨k, rfl⟩ := Nat.exists_eq_add_of_lt (Nat.lt_of_not_le long)
    rw [Nat.add_assoc, List.take_length_add_append, List.take_succ_cons]
    simp
  exact absurd (List.all_eq_true.mp digits _ newline) (by decide)

/-- A mark that is no digit does not follow. -/
theorem readMark_digits {mark : Char} (digits : ∀ c ∈ ds, c.isDigit = true)
    (notDigit : mark.isDigit = false) (notNewline : mark ≠ '\n') (rest : List Char) :
    readMark mark (ds ++ '\n' :: rest) = none := by
  cases ds with
  | nil => simp [readMark, Ne.symm notNewline]
  | cons c ds =>
      simp [readMark, ne_of_isDigit (digits c (by simp)) notDigit]

/-- Digits alone are no date and no time. -/
theorem skipDateTime_digits (digits : ∀ c ∈ ds, c.isDigit = true) (rest : List Char) :
    skipDateTime (ds ++ '\n' :: rest) = none := by
  have unmarked (mark : Char) (notDigit : mark.isDigit = false) (notNewline : mark ≠ '\n')
      {count low high : Nat} {r : Nat × List Char}
      (h : readPart count low high (ds ++ '\n' :: rest) = some r) : readMark mark r.2 = none := by
    obtain ⟨more, subset, hmore⟩ := exists_readPart_eq h
    rw [hmore]
    exact readMark_digits (fun c hc => digits c (subset hc)) notDigit notNewline rest
  have noDate : skipDate (ds ++ '\n' :: rest) = none := by
    cases h : readPart 4 0 9999 (ds ++ '\n' :: rest) with
    | none => simp [skipDate, h]
    | some r => simp [skipDate, h, unmarked '-' (by decide) (by decide) h]
  have noTime : skipTime (ds ++ '\n' :: rest) = none := by
    cases h : readPart 2 0 23 (ds ++ '\n' :: rest) with
    | none => simp [skipTime, h]
    | some r => simp [skipTime, h, unmarked ':' (by decide) (by decide) h]
  rw [skipDateTime, noDate, noTime]

/-- A sign is not the start of a date or a time. -/
theorem skipDateTime_minus (rest : List Char) : skipDateTime ('-' :: rest) = none := by
  have noPart (count low high : Nat) : readPart (count + 1) low high ('-' :: rest) = none := by
    simp [readPart]
  simp [skipDateTime, skipDate, skipTime, noPart]

/-! ## Numbers -/

theorem ne_underscore {c : Char} (h : c.isDigit = true) : c ≠ '_' := ne_of_isDigit h rfl

theorem wellSpaced_digits (digits : ∀ c ∈ ds, c.isDigit = true) :
    readDigits.wellSpaced ds = true := by
  induction ds with
  | nil => rfl
  | cons c ds ih =>
      obtain ⟨first, more⟩ := List.forall_mem_cons.mp digits
      have other := ne_underscore first
      rw [readDigits.wellSpaced.eq_4 c ds (fun h _ => other h) (fun _ h _ => other h)]
      exact ih more

theorem readDigits_digits (digits : ∀ c ∈ ds, c.isDigit = true) (nonempty : ds ≠ [])
    (rest : List Char) : readDigits 10 (ds ++ '\n' :: rest) = some (ds, '\n' :: rest) := by
  obtain ⟨c, more, rfl⟩ := List.exists_cons_of_ne_nil nonempty
  have counts : ∀ d ∈ c :: more, (d == '_' || (digit? 10 d).isSome) = true := fun d hd => by
    simp [digit?_of_isDigit (digits d hd)]
  have run : (c :: more ++ '\n' :: rest).takeWhile (fun d => d == '_' || (digit? 10 d).isSome) =
      c :: more := by
    rw [List.takeWhile_append_of_pos counts, List.takeWhile_cons_of_neg (by decide),
      List.append_nil]
  have kept : (c :: more).filter (· ≠ '_') = c :: more :=
    List.filter_eq_self.mpr fun d hd => decide_eq_true (ne_underscore (digits d hd))
  have first : (digit? 10 c).isSome = true := by simp [digit?_of_isDigit (digits c (by simp))]
  rw [List.cons_append, readDigits, if_pos first, ← List.cons_append]
  simp only [run, wellSpaced_digits digits, if_true, kept, List.drop_left]

theorem readWhole_natText (n : Nat) (rest : List Char) :
    readWhole (natText n ++ '\n' :: rest) = some (natText n, '\n' :: rest) := by
  have digits : ∀ c ∈ natText n, c.isDigit = true := fun c hc => isDigit_of_mem_natText hc
  have read := readDigits_digits digits Nat.toDigits_ne_nil rest
  cases htext : natText n with
  | nil => exact absurd htext Nat.toDigits_ne_nil
  | cons c ds =>
      by_cases zero : c = '0'
      · -- a zero stands alone
        obtain rfl : ds = [] := by
          cases ds with
          | nil => rfl
          | cons d ds => exact absurd (zero ▸ htext) (natText_ne_leadingZero n d ds)
        rw [zero]
        rfl
      · rw [← htext, readWhole.eq_2 _ fun more h => ?_, read]
        rw [htext] at h
        exact zero (List.cons.inj h).1

theorem readDecimal_natText {negative : Bool} {n : Nat} {i : Int} {v : Value}
    (sign : (if negative then -(n : Int) else n) = i) (h : integer? i = some v)
    (rest : List Char) :
    readDecimal negative (natText n ++ '\n' :: rest) = some (v, '\n' :: rest) := by
  have noFraction : readFraction ('\n' :: rest) = some (none, '\n' :: rest) := rfl
  have noExponent : readExponent ('\n' :: rest) = some (none, '\n' :: rest) := rfl
  simp only [readDecimal, readWhole_natText, Option.bind_eq_bind, Option.bind_some, noFraction,
    noExponent, Option.isNone_none, Bool.and_self, if_true, valueOf_natText, sign, h]
  rfl

/-- Integers of 64 bits are held. -/
theorem integer?_eq {n : Int} (low : -2 ^ 63 ≤ n) (high : n < 2 ^ 63) :
    integer? n = some (.integer n) := by
  have least : Int64.minValue.toInt = -2 ^ 63 := by decide
  have greatest : Int64.maxValue.toInt = 2 ^ 63 - 1 := by decide
  have range : (decide (Int64.minValue.toInt ≤ n) && decide (n ≤ Int64.maxValue.toInt)) = true := by
    simp only [Bool.and_eq_true, decide_eq_true_eq]
    omega
  rw [integer?, if_pos range]

/-- A text does not begin with a word whose first character it does not begin with. -/
theorem after?_cons_of_ne {w c : Char} (h : c ≠ w) (ws cs : List Char) :
    after? (w :: ws) (c :: cs) = none := if_neg h

theorem exists_natText_eq (n : Nat) : ∃ c ds, natText n = c :: ds ∧ c.isDigit = true := by
  obtain ⟨c, ds, hcons⟩ := List.exists_cons_of_ne_nil (Nat.toDigits_ne_nil (b := 10) (n := n))
  exact ⟨c, ds, hcons, isDigit_of_mem_natText (n := n) (by rw [natText, hcons]; simp)⟩

theorem readUnsigned_natText {negative : Bool} {n : Nat} {i : Int} {v : Value}
    (sign : (if negative then -(n : Int) else n) = i) (h : integer? i = some v)
    (rest : List Char) :
    readUnsigned negative (natText n ++ '\n' :: rest) = some (v, '\n' :: rest) := by
  obtain ⟨c, ds, hcons, digit⟩ := exists_natText_eq n
  have noInf : after? "inf".toList (natText n ++ '\n' :: rest) = none := by
    rw [hcons]
    exact after?_cons_of_ne (ne_of_isDigit digit rfl) _ _
  have noNan : after? "nan".toList (natText n ++ '\n' :: rest) = none := by
    rw [hcons]
    exact after?_cons_of_ne (ne_of_isDigit digit rfl) _ _
  rw [readUnsigned, noInf, noNan]
  exact readDecimal_natText sign h rest

/-- The text of an integer names no base. -/
theorem eq_newline_of_natText {n : Nat} {mark : Char} {rest more : List Char}
    (h : natText n ++ '\n' :: rest = '0' :: mark :: more) : mark = '\n' := by
  obtain ⟨c, ds, hcons, -⟩ := exists_natText_eq n
  rw [hcons, List.cons_append, List.cons.injEq] at h
  obtain ⟨rfl, h⟩ := h
  cases ds with
  | nil => exact (List.cons.inj h).1.symm
  | cons d ds => exact absurd hcons (natText_ne_leadingZero n d ds)

theorem readNumber_natText {n : Nat} {i : Int} {v : Value} (sign : n = i)
    (h : integer? i = some v) (rest : List Char) :
    readNumber (natText n ++ '\n' :: rest) = some (v, '\n' :: rest) := by
  obtain ⟨c, ds, hcons, digit⟩ := exists_natText_eq n
  have unsigned {d : Char} (hd : d.isDigit = false) (more : List Char) :
      natText n ++ '\n' :: rest ≠ d :: more := by
    rw [hcons]
    exact fun hmore => ne_of_isDigit digit hd (List.cons.inj hmore).1
  have noBase {mark : Char} (hmark : mark ≠ '\n') (more : List Char) :
      natText n ++ '\n' :: rest ≠ '0' :: mark :: more :=
    fun hmore => hmark (eq_newline_of_natText hmore)
  rw [readNumber.eq_6 _ (noBase (by decide)) (noBase (by decide)) (noBase (by decide))
    (unsigned (by decide)) (unsigned (by decide))]
  exact @readUnsigned_natText false n i v sign h rest

/-- **An integer of 64 bits is read back.** -/
theorem readScalar_intText {n : Int} (low : -2 ^ 63 ≤ n) (high : n < 2 ^ 63) (rest : List Char) :
    readScalar (intText n ++ '\n' :: rest) = some (.integer n, '\n' :: rest) := by
  have held := integer?_eq low high
  obtain ⟨c, ds, hcons, digit⟩ := exists_natText_eq n.natAbs
  have digits : ∀ c ∈ natText n.natAbs, c.isDigit = true := fun c hc => isDigit_of_mem_natText hc
  -- neither a truth value nor a date comes first
  have number {d : Char} {more : List Char} (notQuote : (d = '"' || d = '\'') = false)
      (notTrue : d ≠ 't') (notFalse : d ≠ 'f') (noDate : skipDateTime (d :: more) = none) :
      readScalar (d :: more) = readNumber (d :: more) := by
    have noTrue : after? "true".toList (d :: more) = none := after?_cons_of_ne notTrue _ _
    have noFalse : after? "false".toList (d :: more) = none := after?_cons_of_ne notFalse _ _
    rw [readScalar, notQuote, noTrue, noFalse, noDate]
    rfl
  by_cases negative : n < 0
  · have text : intText n = '-' :: natText n.natAbs := by simp [intText, negative]
    have sign : (if true = true then -(n.natAbs : Int) else n.natAbs) = n := by
      rw [if_pos rfl]
      omega
    rw [text, List.cons_append, number (by decide) (by decide) (by decide) (skipDateTime_minus _)]
    exact readUnsigned_natText sign held rest
  · have text : intText n = natText n.natAbs := by simp [intText, negative]
    have sign : (n.natAbs : Int) = n := by omega
    have notDouble : c ≠ '"' := ne_of_isDigit digit rfl
    have notSingle : c ≠ '\'' := ne_of_isDigit digit rfl
    have notQuote : (c = '"' || c = '\'') = false := by simp [notDouble, notSingle]
    have noDate := skipDateTime_digits digits rest
    rw [text]
    have read := readNumber_natText sign held rest
    rw [hcons, List.cons_append] at noDate read ⊢
    rw [number notQuote (ne_of_isDigit digit rfl) (ne_of_isDigit digit rfl) noDate]
    exact read

end SkillMarket.Toml
