/-!
White space, and trimming it.

A blank is a character with the property White_Space: the ASCII blanks with vertical tab and
form feed, the next-line control, and the space separators.
-/

namespace SkillMarket.Text

/-- The characters with the property White_Space. -/
def isBlank (c : Char) : Bool :=
  let n := c.toNat
  (9 ≤ n && n ≤ 13) || n == 0x20 || n == 0x85 || n == 0xA0 || n == 0x1680 ||
    (0x2000 ≤ n && n ≤ 0x200A) || n == 0x2028 || n == 0x2029 || n == 0x202F ||
    n == 0x205F || n == 0x3000

/-- Drops the blanks at the end. -/
def trimRight (cs : List Char) : List Char := (cs.reverse.dropWhile isBlank).reverse

/-- Drops the blanks at both ends. -/
def trim (cs : List Char) : List Char := trimRight (cs.dropWhile isBlank)

theorem trim_nil : trim [] = [] := rfl

/-- A text without blanks at its ends is left alone. -/
theorem trim_eq_self {cs : List Char} (first : ∀ c ∈ cs.head?, ¬ isBlank c)
    (last : ∀ c ∈ cs.getLast?, ¬ isBlank c) : trim cs = cs := by
  have h₁ : cs.dropWhile isBlank = cs := by
    cases cs with
    | nil => rfl
    | cons c r => simp_all
  have h₂ : cs.reverse.dropWhile isBlank = cs.reverse := by
    cases h : cs.reverse with
    | nil => rfl
    | cons c r =>
      have : cs.getLast? = some c := by rw [← List.head?_reverse, h]; rfl
      simp_all
  rw [trim, h₁, trimRight, h₂, List.reverse_reverse]

/-- Holds nothing but blanks. -/
def isAllBlank (cs : List Char) : Bool := cs.all isBlank

end SkillMarket.Text
