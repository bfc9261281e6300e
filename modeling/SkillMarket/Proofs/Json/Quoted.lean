import SkillMarket.Json.Printer
import SkillMarket.Json.Reader

/-!
# Quoted strings

A string in quotes reads back as itself, whatever characters it holds. The reader takes one round
for each character that was quoted, however many characters its escape has, so its fuel is
measured by the string and not by the text.
-/

namespace SkillMarket.Json

/-! ## Escapes of four digits -/

/-- A digit of an escape has the value it was written for. -/
theorem hexValue?_digitChar {n : Nat} (h : n < 16) : hexValue? (Nat.digitChar n) = some n := by
  have all : ∀ m : Fin 16, hexValue? (Nat.digitChar m) = some m.val := by decide
  exact all ⟨n, h⟩

/-- A control character, written with two digits, is read as its number. -/
theorem readHex_control {n : Nat} (h : n < 0x20) (rest : List Char) :
    readHex ('0' :: '0' :: Nat.digitChar (n / 16) :: Nat.digitChar (n % 16) :: rest)
      = .ok (n, rest) := by
  have zero : hexValue? '0' = some 0 := by decide
  have high := hexValue?_digitChar (show n / 16 < 16 by omega)
  have low := hexValue?_digitChar (show n % 16 < 16 by omega)
  simp only [readHex, zero, high, low]
  rw [show ((0 * 16 + 0) * 16 + n / 16) * 16 + n % 16 = n by omega]

/-- A control character is no half of a pair of surrogates, so its escape stands for itself. -/
theorem readEscape_control {c : Char} (h : c.toNat < 0x20) (rest : List Char) :
    readEscape ('u' :: '0' :: '0' :: Nat.digitChar (c.toNat / 16) ::
      Nat.digitChar (c.toNat % 16) :: rest) = .ok (c, rest) := by
  have low : (0xDC00 ≤ c.toNat && c.toNat ≤ 0xDFFF) = false := by
    simp only [Bool.and_eq_false_iff, decide_eq_false_iff_not]
    omega
  have high : (0xD800 ≤ c.toNat && c.toNat ≤ 0xDBFF) = false := by
    simp only [Bool.and_eq_false_iff, decide_eq_false_iff_not]
    omega
  rw [readEscape]
  simp only [readHex_control h, low, high, Bool.false_eq_true, if_false, Char.ofNat_toNat]

/-! ## Strings -/

/-- One round of the reader takes what was written for one character. -/
theorem readString_escape (fuel : Nat) (read : List Char) (c : Char) (rest : List Char) :
    readString (fuel + 1) read (escape c ++ rest) = readString fuel (c :: read) rest := by
  unfold escape
  split
  · rfl
  · rfl
  · rfl
  · rfl
  · rfl
  · rfl
  · rfl
  · next quote backslash _ _ _ _ _ =>
    split
    · next control =>
      simp only [List.cons_append, List.nil_append, readString, readEscape_control control]
    · next visible =>
      simp only [List.cons_append, List.nil_append]
      rw [readString]
      · rw [if_neg visible]
      · exact fun h => quote h
      · exact fun h => backslash h

/-- Reading goes on through all the characters of a string, up to its closing quote. -/
theorem readString_escaped {fuel : Nat} {cs : List Char} (h : cs.length < fuel)
    (read rest : List Char) :
    readString fuel read (cs.flatMap escape ++ '"' :: rest) = .ok (read.reverse ++ cs, rest) := by
  induction cs generalizing fuel read with
  | nil =>
    obtain ⟨fuel, rfl⟩ : ∃ f, fuel = f + 1 := ⟨fuel - 1, by simp at h; omega⟩
    simp [readString]
  | cons c cs ih =>
    obtain ⟨fuel, rfl⟩ : ∃ f, fuel = f + 1 := ⟨fuel - 1, by simp at h; omega⟩
    rw [List.flatMap_cons, List.append_assoc, readString_escape, ih (by simpa using h)]
    simp

/-- Quoting writes one character at least for each one, and the two quotes. -/
theorem length_lt_quote (cs : List Char) : cs.length + 1 < (quote cs).length := by
  have one (c : Char) : 1 ≤ (escape c).length := by
    unfold escape
    split <;> try simp
    split <;> simp
  have all : cs.length ≤ (cs.flatMap escape).length := by
    induction cs with
    | nil => simp
    | cons c cs ih =>
      have := one c
      simp only [List.flatMap_cons, List.length_append, List.length_cons]
      omega
  simp only [quote, List.length_cons, List.length_append, List.length_nil]
  omega

end SkillMarket.Json
