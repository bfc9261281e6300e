import SkillMarket.Proofs.Text.Matches

/-!
# Looking within lines

A test of a text's beginning stays in the line if it gives the same answer whatever follows the next
newline. What such a test finds in a text it finds in one of the lines, and the matches that it
counts are those of the lines, added up.
-/

namespace SkillMarket.Text

/-! ## Tests that stay in the line -/

/-- The test looks no further than the next newline, and does not accept the end of a line. -/
structure StaysInLine (test : List Char → Bool) : Prop where
  noEnd : test [] = false
  cut : ∀ front rest, test (front ++ '\n' :: rest) = test front

/-- A newline cuts the text in two, and the test finds something in one of the parts. -/
theorem StaysInLine.someTail_append {test : List Char → Bool} (h : StaysInLine test)
    (front rest : List Char) :
    someTail test (front ++ '\n' :: rest) = (someTail test front || someTail test rest) := by
  induction front with
  | nil =>
      have atNewline : test ('\n' :: rest) = false := (h.cut [] rest).trans h.noEnd
      simp [someTail, atNewline, h.noEnd]
  | cons c front ih =>
      have here : test (c :: (front ++ '\n' :: rest)) = test (c :: front) :=
        h.cut (c :: front) rest
      simp only [List.cons_append, someTail, here, ih, Bool.or_assoc]

/-- A phrase without a newline stands in one line. -/
theorem staysInLine_phrase {phrase : List Char} (nonempty : phrase ≠ []) (h : '\n' ∉ phrase) :
    StaysInLine phrase.isPrefixOf where
  noEnd := by
    cases phrase with
    | nil => exact absurd rfl nonempty
    | cons c phrase => rfl
  cut front rest := by
    clear nonempty
    induction phrase generalizing front with
    | nil => simp
    | cons c phrase ih =>
        obtain ⟨first, others⟩ : '\n' ≠ c ∧ '\n' ∉ phrase := by simpa using h
        cases front with
        | nil => simp [List.isPrefixOf, Ne.symm first]
        | cons d front => simp [List.isPrefixOf, ih others]

/-- A pattern that no newline matches has its matches in one line. -/
theorem staysInLine_pattern {p : Pattern} (nonempty : p ≠ []) (h : ∀ test ∈ p, test '\n' = false) :
    StaysInLine p.begins where
  noEnd := by
    cases p with
    | nil => exact absurd rfl nonempty
    | cons test p => rfl
  cut front rest := by
    clear nonempty
    induction p generalizing front with
    | nil => simp [Pattern.begins]
    | cons test p ih =>
        obtain ⟨first, others⟩ := List.forall_mem_cons.mp h
        cases front with
        | nil => simp [Pattern.begins, first]
        | cons d front => simp [Pattern.begins, ih others]

/-! ## Matches that stay in the line -/

/-- The matches are found without looking further than the next newline, and none goes further. -/
structure MatchesInLine (length? : List Char → Option Nat) : Prop where
  cut : ∀ line rest, '\n' ∉ line → length? (line ++ '\n' :: rest) = length? (line ++ ['\n'])
  short : ∀ line n, '\n' ∉ line → length? (line ++ ['\n']) = some n → n ≤ line.length + 1

/-- The end of a line with its newline, or nothing. -/
def RestOfLine (cs : List Char) : Prop := cs = [] ∨ ∃ line, '\n' ∉ line ∧ cs = line ++ ['\n']

theorem RestOfLine.drop {cs : List Char} (h : RestOfLine cs) (n : Nat) :
    RestOfLine (cs.drop n) := by
  rcases h with rfl | ⟨line, noNewline, rfl⟩
  · exact .inl List.drop_nil
  · rcases Nat.lt_or_ge line.length n with past | inside
    · exact .inl (List.drop_eq_nil_of_le (by simpa [Nat.succ_le_iff] using past))
    · exact .inr ⟨line.drop n, fun h => noNewline (List.mem_of_mem_drop h),
        List.drop_append_of_le_length inside⟩

namespace MatchesInLine

variable {length? : List Char → Option Nat} (h : MatchesInLine length?)
include h

theorem length?_append {cs : List Char} (hcs : RestOfLine cs) (nonempty : cs ≠ [])
    (rest : List Char) : length? (cs ++ rest) = length? cs := by
  obtain ⟨line, noNewline, rfl⟩ := hcs.resolve_left nonempty
  rw [List.append_assoc]
  exact h.cut line rest noNewline

theorem le_length {cs : List Char} (hcs : RestOfLine cs) (nonempty : cs ≠ [])
    {n : Nat} (found : length? cs = some n) : n ≤ cs.length := by
  obtain ⟨line, noNewline, rfl⟩ := hcs.resolve_left nonempty
  simpa using h.short line n noNewline found

/-- The matches of a line and of what follows it are counted apart. -/
theorem countMatches_line {cs : List Char} (hcs : RestOfLine cs)
    (rest : List Char) :
    countMatches length? 0 (cs ++ rest) =
      countMatches length? 0 cs + countMatches length? 0 rest := by
  -- what is behind a match of this line is the rest of it again
  induction hsize : cs.length using Nat.strongRecOn generalizing cs with
  | ind size ih =>
      cases cs with
      | nil => simp [countMatches]
      | cons c more =>
          have left {n : Nat} (hn : n ≤ more.length) :
              countMatches length? 0 ((more ++ rest).drop n) =
                countMatches length? 0 (more.drop n) + countMatches length? 0 rest := by
            rw [List.drop_append_of_le_length hn]
            refine ih _ ?_ (hcs.drop (n + 1)) rfl
            rw [← hsize, List.length_drop, List.length_cons]
            omega
          have nonempty : c :: more ≠ [] := List.cons_ne_nil c more
          have same := h.length?_append hcs nonempty rest
          rw [List.cons_append] at same ⊢
          by_cases found : ∃ n, length? (c :: more) = some (n + 1)
          · obtain ⟨n, hn⟩ := found
            have inside : n ≤ more.length := Nat.le_of_succ_le_succ (h.le_length hcs nonempty hn)
            rw [countMatches_of_some hn, countMatches_of_some (same.trans hn), left inside]
            omega
          · have noMatch : ∀ n, length? (c :: more) ≠ some (n + 1) := fun n hn => found ⟨n, hn⟩
            rw [countMatches_of_ne_some noMatch, countMatches_of_ne_some (same ▸ noMatch)]
            exact left (Nat.zero_le _)

/-- **The matches before a newline and those after it are counted apart.** -/
theorem countMatches_append (front rest : List Char) :
    countMatches length? 0 (front ++ '\n' :: rest) =
      countMatches length? 0 (front ++ ['\n']) + countMatches length? 0 rest := by
  induction hsize : front.length using Nat.strongRecOn generalizing front with
  | ind size ih =>
      by_cases newline : '\n' ∈ front
      · obtain ⟨line, more, rfl, noNewline⟩ := List.eq_append_cons_of_mem newline
        have first : RestOfLine (line ++ ['\n']) := .inr ⟨line, noNewline, rfl⟩
        have shorter : more.length < size := by
          rw [← hsize, List.length_append, List.length_cons]
          omega
        rw [List.append_cons line, List.append_assoc, List.append_assoc (line ++ ['\n']),
          h.countMatches_line first, h.countMatches_line first, ih _ shorter more rfl,
          Nat.add_assoc]
      · rw [List.append_cons]
        exact h.countMatches_line (.inr ⟨front, newline, rfl⟩) rest

end MatchesInLine

end SkillMarket.Text
