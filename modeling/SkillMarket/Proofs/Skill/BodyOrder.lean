import Mathlib
import SkillMarket.Proofs.Skill.Fences
import SkillMarket.Proofs.Skill.FrontMatter

/-!
# The order of the lines of a body

Whatever the rubric looks for stands in one line, and what it counts it counts line by line. So the
lines of a body may stand in any order: the report stays the same, with the issues in their order.
-/

namespace SkillMarket.Skill

open Text

/-- Lines, each with the newline that ends it. -/
def written (ls : List (List Char)) : List Char := ls.flatMap (· ++ ['\n'])

theorem written_cons (line : List Char) (ls : List (List Char)) :
    written (line :: ls) = line ++ '\n' :: written ls := by
  simp [written]

/-! ## What is found in lines -/

/-- What a test finds behind a text that ends in a newline, it finds in the text or in a line. -/
theorem someTail_written {test : List Char → Bool} (h : StaysInLine test) {front : List Char}
    (ends : EndsLine front) (ls : List (List Char)) :
    someTail test (front ++ written ls) = (someTail test front || ls.any (someTail test)) := by
  have nothing : someTail test [] = false := h.noEnd
  -- lines alone
  have lines : someTail test (written ls) = ls.any (someTail test) := by
    induction ls with
    | nil => exact nothing
    | cons line ls ih => rw [written_cons, h.someTail_append, ih, List.any_cons]
  obtain ⟨start, rfl⟩ := endsLine_iff.mp ends
  rw [List.append_assoc, List.singleton_append, h.someTail_append, h.someTail_append, nothing,
    Bool.or_false, lines]

/-- The order of the lines does not matter to what a test finds. -/
theorem someTail_perm {test : List Char → Bool} (h : StaysInLine test) {front : List Char}
    (ends : EndsLine front) {ls ls' : List (List Char)} (perm : ls.Perm ls') :
    someTail test (front ++ written ls) = someTail test (front ++ written ls') := by
  rw [someTail_written h ends, someTail_written h ends, perm.any_eq]

theorem mentions_perm {front : List Char} (ends : EndsLine front) {ls ls' : List (List Char)}
    (perm : ls.Perm ls') (phrases : List String)
    (h : ∀ p ∈ phrases, p.toList ≠ [] ∧ '\n' ∉ p.toList) :
    mentions phrases (front ++ written ls) = mentions phrases (front ++ written ls') := by
  rw [Bool.eq_iff_iff, mentions, mentions, List.any_eq_true, List.any_eq_true]
  refine exists_congr fun p => and_congr_right fun hp => ?_
  rw [occurs_eq_someTail, occurs_eq_someTail,
    someTail_perm (staysInLine_phrase (h p hp).1 (h p hp).2) ends perm]

theorem fenceCount_written {front : List Char} (ends : EndsLine front) (ls : List (List Char)) :
    fenceCount (front ++ written ls) =
      fenceCount front + (ls.map fun line => fenceCount (line ++ ['\n'])).sum := by
  have lines : fenceCount (written ls) = (ls.map fun line => fenceCount (line ++ ['\n'])).sum := by
    induction ls with
    | nil => rfl
    | cons line ls ih =>
        rw [written_cons, fenceCount_append_newline, ih, List.map_cons, List.sum_cons]
  obtain ⟨start, rfl⟩ := endsLine_iff.mp ends
  rw [List.append_assoc, List.singleton_append, fenceCount_append_newline, lines]

/-! ## Reports -/

theorem isTimeSensitive_perm {front : List Char} (ends : EndsLine front)
    {ls ls' : List (List Char)} (perm : ls.Perm ls') :
    (timePatterns.any fun p => p.occurs (front ++ written ls)) =
      timePatterns.any fun p => p.occurs (front ++ written ls') := by
  have inLine : ∀ p ∈ timePatterns, p ≠ [] ∧ ∀ test ∈ p, test '\n' = false := by decide
  rw [Bool.eq_iff_iff, List.any_eq_true, List.any_eq_true]
  refine exists_congr fun p => and_congr_right fun hp => ?_
  have staysInLine := staysInLine_pattern (inLine p hp).1 (inLine p hp).2
  rw [Text.Pattern.occurs, Text.Pattern.occurs, someTail_perm staysInLine ends perm]

/-- The order of the lines does not matter to what is found in a text. -/
theorem TextTraits.of_perm {front : List Char} (ends : EndsLine front)
    {ls ls' : List (List Char)} (perm : ls.Perm ls') :
    of (front ++ written ls) = of (front ++ written ls') := by
  have newlines : countNewlines (front ++ written ls) = countNewlines (front ++ written ls') :=
    ((perm.flatMap_right _).append_left front).count_eq '\n'
  have fences : fenceCount (front ++ written ls) = fenceCount (front ++ written ls') := by
    rw [fenceCount_written ends, fenceCount_written ends, (perm.map _).sum_nat]
  have phrases := mentions_perm ends perm
  simp only [of, newlines, fences, isTimeSensitive_perm ends perm,
    phrases overviewHeadings (by decide), phrases usageHeadings (by decide),
    phrases ["C:\\"] (by decide), phrases ["skill", "Skill"] (by decide),
    phrases ["plugin", "Plugin"] (by decide)]

/-- **The order of the lines of a body does not matter.** Behind a text that ends in a newline and
whose front matter is settled, lines may change places: the report has the same score and the same
issues in the same order. -/
theorem Report.ofText_perm {front : List Char} (ends : EndsLine front) (settled : Settled front)
    {ls ls' : List (List Char)} (perm : ls.Perm ls') :
    ofText (front ++ written ls) = ofText (front ++ written ls') := by
  have findings : Findings.of (front ++ written ls) = Findings.of (front ++ written ls') := by
    rw [Findings.of, Findings.of, FrontMatter.ofText_append ends settled,
      FrontMatter.ofText_append ends settled, TextTraits.of_perm ends perm]
  rw [ofText, ofText, findings]

/-- A text with front matter, to be followed by a body. -/
def headedText : List Char := "---\nname: a-b\n---\n".toList

theorem ofText_perm_headedText :
    EndsLine headedText ∧ Settled headedText ∧
      ["see \x60\x60\x60sh".toList, "---".toList, "as of 2024".toList].Perm
        ["---".toList, "as of 2024".toList, "see \x60\x60\x60sh".toList] ∧
      Report.ofText (headedText ++
          written ["see \x60\x60\x60sh".toList, "---".toList, "as of 2024".toList]) =
        Report.ofText (headedText ++
          written ["---".toList, "as of 2024".toList, "see \x60\x60\x60sh".toList]) := by
  have ends : EndsLine headedText := rfl
  have settled : Settled headedText := .inl (by decide)
  have perm : ["see \x60\x60\x60sh".toList, "---".toList, "as of 2024".toList].Perm
      ["---".toList, "as of 2024".toList, "see \x60\x60\x60sh".toList] := by decide
  exact ⟨ends, settled, perm, Report.ofText_perm ends settled perm⟩

end SkillMarket.Skill
