import Mathlib.Data.List.Basic
import SkillMarket.Text.Search

/-!
# Matches from left to right

`Scan isMatch cs n` says how matches are counted, without a program: wherever one begins it is taken
and the search goes on behind it, and elsewhere it goes on with the next character. If no place is
the beginning of two matches, that is what `countMatches` counts.
-/

namespace SkillMarket.Text

/-- From left to right, so many matches are found in a text, none of which overlap. -/
inductive Scan (isMatch : List Char → Prop) : List Char → Nat → Prop
  | done : Scan isMatch [] 0
  | found {m rest : List Char} {n : Nat} (hit : isMatch m) (more : Scan isMatch rest n) :
      Scan isMatch (m ++ rest) (n + 1)
  | passed {c : Char} {rest : List Char} {n : Nat} (noMatch : ∀ m, isMatch m → ¬ m <+: c :: rest)
      (more : Scan isMatch rest n) : Scan isMatch (c :: rest) n

/-- The length of the one match that a text begins with is found. -/
structure FindsMatch (length? : List Char → Option Nat) (isMatch : List Char → Prop) : Prop where
  nonempty : ∀ m, isMatch m → m ≠ []
  length_eq : ∀ m rest, isMatch m → length? (m ++ rest) = some m.length
  exists_match : ∀ cs n, length? cs = some n → ∃ m rest, cs = m ++ rest ∧ isMatch m ∧ m.length = n

/-- Characters that are passed over do not count. -/
theorem countMatches_drop (length? : List Char → Option Nat) (pass : Nat) (cs : List Char) :
    countMatches length? pass cs = countMatches length? 0 (cs.drop pass) := by
  induction cs generalizing pass with
  | nil => simp [countMatches]
  | cons c cs ih =>
      cases pass with
      | zero => rfl
      | succ pass => rw [countMatches, List.drop_succ_cons, ih]

/-- A match is counted, and the search goes on behind it. -/
theorem countMatches_of_some {length? : List Char → Option Nat} {c : Char} {rest : List Char}
    {n : Nat} (found : length? (c :: rest) = some (n + 1)) :
    countMatches length? 0 (c :: rest) = countMatches length? 0 (rest.drop n) + 1 := by
  simp only [countMatches, found, countMatches_drop length? n]

/-- Without a match, or at an empty one, the search goes on with the next character. -/
theorem countMatches_of_ne_some {length? : List Char → Option Nat} {c : Char} {rest : List Char}
    (noMatch : ∀ n, length? (c :: rest) ≠ some (n + 1)) :
    countMatches length? 0 (c :: rest) = countMatches length? 0 rest := by
  rw [countMatches]
  cases hlength : length? (c :: rest) with
  | none => rfl
  | some n =>
      cases n with
      | zero => rfl
      | succ n => exact absurd hlength (noMatch n)

namespace FindsMatch

variable {length? : List Char → Option Nat} {isMatch : List Char → Prop}
  (h : FindsMatch length? isMatch)
include h

/-- A match is counted, whatever follows it. -/
theorem countMatches_match {m : List Char} (hit : isMatch m) (rest : List Char) :
    countMatches length? 0 (m ++ rest) = countMatches length? 0 rest + 1 := by
  have length_eq := h.length_eq m rest hit
  obtain ⟨c, m, rfl⟩ := List.exists_cons_of_ne_nil (h.nonempty m hit)
  rw [List.cons_append] at length_eq ⊢
  rw [countMatches_of_some length_eq, List.drop_left]

/-- Where no match begins, the search goes on with the next character. -/
theorem countMatches_cons {c : Char} {rest : List Char}
    (noMatch : ∀ m, isMatch m → ¬ m <+: c :: rest) :
    countMatches length? 0 (c :: rest) = countMatches length? 0 rest := by
  refine countMatches_of_ne_some fun n found => ?_
  obtain ⟨m, more, hcs, hit, -⟩ := h.exists_match _ _ found
  exact noMatch m hit ⟨more, hcs.symm⟩

/-- There is always something to count. -/
theorem scan_countMatches (cs : List Char) : Scan isMatch cs (countMatches length? 0 cs) := by
  induction hsize : cs.length using Nat.strongRecOn generalizing cs with
  | ind size ih =>
      cases cs with
      | nil => exact .done
      | cons c rest =>
          by_cases begins : ∃ m, isMatch m ∧ m <+: c :: rest
          · obtain ⟨m, hit, more, hcs⟩ := begins
            have shorter : more.length < size := by
              have := List.length_pos_iff.mpr (h.nonempty m hit)
              rw [← hsize, ← hcs, List.length_append]
              omega
            rw [← hcs, h.countMatches_match hit]
            exact .found hit (ih _ shorter more rfl)
          · have noMatch : ∀ m, isMatch m → ¬ m <+: c :: rest := fun m hit hm =>
              begins ⟨m, hit, hm⟩
            rw [h.countMatches_cons noMatch]
            exact .passed noMatch (ih _ (by simp [← hsize]) rest rfl)

/-- **The matches from left to right are what is counted.** -/
theorem scan_iff {cs : List Char} {n : Nat} :
    Scan isMatch cs n ↔ n = countMatches length? 0 cs := by
  constructor
  · intro scan
    induction scan with
    | done => rfl
    | found hit _ ih => rw [h.countMatches_match hit, ih]
    | passed noMatch _ ih => rw [h.countMatches_cons noMatch, ih]
  · rintro rfl
    exact h.scan_countMatches cs

end FindsMatch

end SkillMarket.Text
