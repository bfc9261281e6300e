import Mathlib.Data.List.Basic
import SkillMarket.Yaml.Scalar

/-!
# Reading plain scalars in a block

Words with single characters and spaces between them are read as they are written, up to the colon
of a key or to the end of the line.
-/

namespace SkillMarket.Yaml

/-- A character that stands for itself wherever it is in a plain scalar of a block. -/
structure IsPlainChar (c : Char) : Prop where
  notBreak : isBreak c = false
  notBlank : isBlank c = false
  notColon : c ≠ ':'
  notHash : c ≠ '#'
  notReturn : c ≠ '\r'
  notNextLine : c ≠ '\u0085'

theorem ne_of_test {test : Char → Bool} {c d : Char} (hc : test c = true) (hd : test d = false) :
    c ≠ d := by
  rintro rfl
  simp [hd] at hc

/-- The characters that may mean something else than themselves. -/
def plainMarks : List Char := ['\n', '\u2028', '\u2029', ' ', '\t', ':', '#', '\r', '\u0085']

/-- The characters that satisfy a test stand for themselves, if no other character does. -/
theorem IsPlainChar.of_test {test : Char → Bool} (h : plainMarks.any test = false) {c : Char}
    (hc : test c = true) : IsPlainChar c := by
  have other (d : Char) (hd : d ∈ plainMarks) : c ≠ d :=
    ne_of_test hc (by simpa using List.any_eq_false.mp h d hd)
  constructor
  · simp [isBreak, other '\n' (by decide), other '\u2028' (by decide),
      other '\u2029' (by decide)]
  · simp [isBlank, other ' ' (by decide), other '\t' (by decide)]
  all_goals exact other _ (by decide)

theorem isPlainChar_of_isAlpha {c : Char} (h : c.isAlpha) : IsPlainChar c :=
  .of_test rfl h

variable {s : Setting} {place : Place}

/-- A character that stands for itself ends a gap and is read. -/
theorem readPlain_cons (inBlock : s.inFlow = false) {c : Char} (plain : IsPlainChar c)
    {gap : List Char} (inside : gap = [] ∨ 0 < place.column ∧ s.margin ≤ place.column)
    (rest : List Char) :
    readPlain s (.blanks gap) place (c :: rest) =
      (readPlain s .none (place.right c) rest).map fun r =>
        { r with text := gap.reverse ++ c :: r.text } := by
  have goesOn : ((Gap.blanks gap ≠ .none : Bool) && endsBefore s place (c :: rest)) = false := by
    rcases inside with rfl | ⟨column, margin⟩
    · rfl
    · have middle : (place.column == 0) = false := beq_eq_false_iff_ne.mpr (Nat.ne_of_gt column)
      simp [endsBefore, plain.notHash, middle, Nat.not_lt.mpr margin]
  have noEnd : endsAt s c rest = false := by simp [endsAt, inBlock, plain.notColon]
  have placed : isMisplacedColon s c rest = false := by simp [isMisplacedColon, inBlock]
  rw [readPlain, plain.notBreak, plain.notBlank, goesOn, placed, noEnd]
  rfl

/-- **Words and the spaces between them are read as they are written**, with a gap that was read
before. -/
theorem readPlain_append (inBlock : s.inFlow = false) {text : List Char}
    (chars : ∀ c ∈ text, c = ' ' ∨ IsPlainChar c) (last : text.getLast? ≠ some ' ')
    {gap : List Char} (follows : gap = [] ∨ text ≠ []) (inside : 0 < place.column)
    (margin : s.margin ≤ place.column) (tail : List Char) :
    readPlain s (.blanks gap) place (text ++ tail) =
      (readPlain s .none (text.foldl .right place) tail).map fun r =>
        { r with text := gap.reverse ++ text ++ r.text } := by
  induction text generalizing gap place with
  | nil =>
      obtain rfl : gap = [] := by simpa using follows
      cases hread : readPlain s .none place tail <;> simp [Gap.none]
  | cons c text ih =>
      have further : 0 < (place.right c).column := Nat.succ_pos _
      have margin' : s.margin ≤ (place.right c).column := Nat.le_succ_of_le margin
      obtain ⟨hc, others⟩ := List.forall_mem_cons.mp chars
      have lastOfRest : text.getLast? ≠ some ' ' := fun h => by
        rw [List.getLast?_cons, h] at last
        exact last rfl
      rcases hc with rfl | plain
      · -- the space is kept for the word after it
        have goesOn : text ≠ [] := by
          rintro rfl
          exact last rfl
        rw [List.cons_append, readPlain, if_neg (by decide), if_pos (by decide),
          if_neg (by simp [Gap.isBroken]), Gap.addBlank,
          ih others lastOfRest (.inr goesOn) further margin']
        simp
      · rw [List.cons_append, readPlain_cons inBlock plain (.inr ⟨inside, margin⟩), Gap.none,
          ih others lastOfRest (.inl rfl) further margin', Option.map_map]
        simp [Function.comp_def, Gap.none]

/-- A text that begins with a character that stands for itself may also stand at the start of a
line. -/
theorem readPlain_text (inBlock : s.inFlow = false) {c : Char} {text : List Char}
    (plain : IsPlainChar c) (chars : ∀ d ∈ text, d = ' ' ∨ IsPlainChar d)
    (last : text.getLast? ≠ some ' ') (margin : s.margin ≤ place.column + 1) {tail : List Char}
    {endsLine : Bool} {next : Cursor}
    (ends : readPlain s .none (text.foldl .right (place.right c)) tail =
      some ⟨[], endsLine, next⟩) :
    readPlain s .none place (c :: (text ++ tail)) = some ⟨c :: text, endsLine, next⟩ := by
  rw [Gap.none, readPlain_cons inBlock plain (.inl rfl), Gap.none,
    readPlain_append inBlock chars last (.inl rfl) (Nat.succ_pos _) margin, ends]
  simp

/-! ## Where a plain scalar ends -/

theorem readPlain_colon (inBlock : s.inFlow = false) (rest : List Char) :
    readPlain s .none place (':' :: ' ' :: rest) =
      some ⟨[], false, ⟨place, ':' :: ' ' :: rest⟩⟩ := by
  have placed : isMisplacedColon s ':' (' ' :: rest) = false := by simp [isMisplacedColon, inBlock]
  rw [readPlain, placed]
  rfl

/-- A text that stands to the left of the margin on the next line does not belong to it. -/
theorem readPlain_newline (inBlock : s.inFlow = false) (margin : 0 < s.margin) {c : Char}
    (notBreak : isBreak c = false) (notBlank : isBlank c = false) (rest : List Char) :
    readPlain s .none place ('\n' :: c :: rest) = some ⟨[], true, ⟨place.down, c :: rest⟩⟩ := by
  have ends : endsBefore s place.down (c :: rest) = true := by
    simp [endsBefore, inBlock, Place.down, margin]
  rw [readPlain, if_pos (by decide), readPlain, notBreak, notBlank, ends]
  rfl

end SkillMarket.Yaml
