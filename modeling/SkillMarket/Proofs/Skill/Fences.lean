import Mathlib.Data.List.TakeWhile
import SkillMarket.Proofs.Text.Lines
import SkillMarket.Proofs.Text.Matches
import SkillMarket.Proofs.Text.Search
import SkillMarket.Skill.Rubric

/-!
# Code fences and lines

A code fence begins with three backquotes and reaches to the end of a line. So counting the fences
from left to right is counting the lines that a newline ends and that end in a fence, and the fences
of a text are counted line by line.
-/

namespace SkillMarket.Skill

open Text

/-! ## A fence at the start of a line -/

/-- The line is three backquotes and a word, which may be empty. -/
def isOpener : List Char → Bool
  | '\x60' :: '\x60' :: '\x60' :: word => word.all isWord
  | _ => false

theorem drop_length_takeWhile (test : Char → Bool) (cs : List Char) :
    cs.drop (cs.takeWhile test).length = cs.dropWhile test := by
  have cut := @List.drop_left _ (cs.takeWhile test) (cs.dropWhile test)
  rwa [List.takeWhile_append_dropWhile] at cut

theorem fenceLength?_word {word : List Char} (h : '\n' ∉ word) (rest : List Char) :
    fenceLength? ('\x60' :: '\x60' :: '\x60' :: (word ++ '\n' :: rest)) =
      if word.all isWord then some (word.length + 4) else none := by
  simp only [fenceLength?, drop_length_takeWhile, List.dropWhile_append, List.isEmpty_iff]
  by_cases whole : word.all isWord = true
  · have letters := List.all_eq_true.mp whole
    have noneLeft : word.dropWhile isWord = [] := List.dropWhile_eq_nil_iff.mpr letters
    rw [if_pos noneLeft, if_pos whole, List.takeWhile_append_of_pos letters]
    simp [not_isWord_newline]
  · -- the word ends before a character of the line
    obtain ⟨c, left, hleft⟩ : ∃ c left, word.dropWhile isWord = c :: left := by
      refine List.exists_cons_of_ne_nil fun none => whole ?_
      exact List.all_eq_true.mpr (List.dropWhile_eq_nil_iff.mp none)
    have inside : c ∈ word := (List.dropWhile_suffix isWord).subset (by simp [hleft])
    have notNewline : c ≠ '\n' := fun hc => h (hc ▸ inside)
    simp [hleft, whole, notNewline]

/-- A fence at the start of a line reaches the end of the line. -/
theorem fenceLength?_line {line : List Char} (h : '\n' ∉ line) (rest : List Char) :
    fenceLength? (line ++ '\n' :: rest) =
      if isOpener line then some (line.length + 1) else none := by
  by_cases opener : ∃ word, line = '\x60' :: '\x60' :: '\x60' :: word
  · obtain ⟨word, rfl⟩ := opener
    have inside : '\n' ∉ word := fun hmem => h (by simp [hmem])
    exact fenceLength?_word inside rest
  · have notOpener : isOpener line = false := by
      unfold isOpener
      split
      · next word => exact absurd ⟨word, rfl⟩ opener
      · rfl
    rw [notOpener]
    unfold fenceLength?
    split
    · next word hline =>
      -- a shorter line would have its newline among the backquotes
      rcases line with _ | ⟨a, _ | ⟨b, _ | ⟨c, more⟩⟩⟩ <;> simp_all
    · rfl

/-- A code fence ends with the line it stands in. -/
theorem matchesInLine_fence : MatchesInLine fenceLength? where
  cut line rest h := by rw [fenceLength?_line h, fenceLength?_line h]
  short line n h found := by
    rw [fenceLength?_line h, Option.ite_none_right_eq_some, Option.some.injEq] at found
    omega

theorem fenceCount_append_newline (front rest : List Char) :
    fenceCount (front ++ '\n' :: rest) = fenceCount (front ++ ['\n']) + fenceCount rest :=
  matchesInLine_fence.countMatches_append front rest

/-! ## Fences from left to right -/

/-- A code fence: three backquotes, a word, which may be empty, and a newline. -/
def IsFence (m : List Char) : Prop :=
  ∃ word, m = '\x60' :: '\x60' :: '\x60' :: (word ++ ['\n']) ∧ ∀ c ∈ word, isWord c = true

theorem newline_notMem_word {word : List Char} (h : ∀ c ∈ word, isWord c = true) :
    '\n' ∉ word := fun hmem => by
  simpa [not_isWord_newline] using h _ hmem

/-- The fence that a text begins with is found. -/
theorem findsMatch_fence : FindsMatch fenceLength? IsFence where
  nonempty m := by
    rintro ⟨word, rfl, -⟩
    simp
  length_eq m rest := by
    rintro ⟨word, rfl, letters⟩
    have found := fenceLength?_word (newline_notMem_word letters) rest
    rw [if_pos (List.all_eq_true.mpr letters)] at found
    simpa using found
  exists_match cs n found := by
    unfold fenceLength? at found
    split at found
    · next rest =>
      simp only [drop_length_takeWhile, Option.ite_none_right_eq_some, Option.some.injEq,
        List.head?_eq_some_iff] at found
      obtain ⟨⟨more, hmore⟩, hlength⟩ := found
      refine ⟨_, more, ?_, ⟨rest.takeWhile isWord, rfl, fun c hc => List.mem_takeWhile_imp hc⟩, ?_⟩
      · simp [← hmore]
      · simpa using hlength
    · simp at found

/-! ## Lines that end in a fence -/

/-- The line ends in three backquotes with nothing but word characters after them. -/
def EndsInFence (line : List Char) : Prop :=
  ∃ front word, line = front ++ '\x60' :: '\x60' :: '\x60' :: word ∧ ∀ c ∈ word, isWord c = true

/-- That is seen from the end of the line. -/
theorem endsInFence_iff_reverse {line : List Char} :
    EndsInFence line ↔ ['\x60', '\x60', '\x60'] <+: line.reverse.dropWhile isWord := by
  constructor
  · rintro ⟨front, word, rfl, letters⟩
    have letters : ∀ c ∈ word.reverse, isWord c = true := fun c hc =>
      letters c (List.mem_reverse.mp hc)
    refine ⟨front.reverse, ?_⟩
    simp [List.dropWhile_append_of_pos letters, not_isWord_backquote]
  · rintro ⟨front, hfront⟩
    refine ⟨front.reverse, (line.reverse.takeWhile isWord).reverse, ?_, fun c hc =>
      List.mem_takeWhile_imp (List.mem_reverse.mp hc)⟩
    have whole := @List.takeWhile_append_dropWhile _ isWord line.reverse
    rw [← hfront] at whole
    have := congrArg List.reverse whole
    simpa using this.symm

instance : DecidablePred EndsInFence := fun _ => decidable_of_iff _ endsInFence_iff_reverse.symm

theorem isOpener_iff {fence : List Char} :
    isOpener fence = true ↔
      ∃ word, fence = '\x60' :: '\x60' :: '\x60' :: word ∧ ∀ c ∈ word, isWord c = true := by
  unfold isOpener
  split
  · simp
  · next other => simpa using fun word hword => absurd hword (other word)

/-- A line ends in a fence if it is one, or the line without its first character does. -/
theorem endsInFence_cons {c : Char} {line : List Char} :
    EndsInFence (c :: line) ↔ isOpener (c :: line) = true ∨ EndsInFence line := by
  have suffix_iff (line : List Char) :
      EndsInFence line ↔ ∃ fence, fence <:+ line ∧ isOpener fence = true := by
    constructor
    · rintro ⟨front, word, rfl, letters⟩
      exact ⟨_, ⟨front, rfl⟩, isOpener_iff.mpr ⟨word, rfl, letters⟩⟩
    · rintro ⟨fence, ⟨front, rfl⟩, opener⟩
      obtain ⟨word, rfl, letters⟩ := isOpener_iff.mp opener
      exact ⟨front, word, rfl, letters⟩
  rw [suffix_iff, suffix_iff]
  simp [List.suffix_cons_iff, or_and_right, exists_or]

/-- A line with its newline has one fence at most. -/
theorem fenceCount_line {line : List Char} (h : '\n' ∉ line) :
    fenceCount (line ++ ['\n']) = if EndsInFence line then 1 else 0 := by
  induction line with
  | nil => decide
  | cons c line ih =>
      have others : '\n' ∉ line := fun hmem => h (List.mem_cons_of_mem c hmem)
      have length_eq := fenceLength?_line h []
      rw [List.cons_append] at length_eq
      rw [fenceCount, List.cons_append]
      by_cases opener : isOpener (c :: line) = true
      · -- the fence is the whole line, and the search goes on behind it
        rw [if_pos opener, List.length_cons] at length_eq
        rw [countMatches_of_some length_eq]
        simp [endsInFence_cons, opener, countMatches]
      · rw [if_neg opener] at length_eq
        rw [countMatches_of_ne_some (by simp [length_eq]), ← fenceCount, ih others]
        simp [endsInFence_cons, opener]

/-- There is no fence without a newline. -/
theorem fenceCount_unended {line : List Char} (h : '\n' ∉ line) : fenceCount line = 0 := by
  induction line with
  | nil => rfl
  | cons c line ih =>
      rw [fenceCount, findsMatch_fence.countMatches_cons, ← fenceCount]
      · exact ih fun hmem => h (List.mem_cons_of_mem c hmem)
      · rintro m ⟨word, rfl, -⟩ ⟨rest, hrest⟩
        exact h (hrest ▸ by simp)

/-- **The fences of a text are its lines that end in one.** -/
theorem fenceCount_eq_countP (text : List Char) :
    fenceCount text = (endedLines text).countP (EndsInFence ·) := by
  induction text using lines_induction with
  | last line h => rw [fenceCount_unended h, endedLines_line h, List.countP_nil]
  | ended line rest h ih =>
      rw [fenceCount_append_newline, fenceCount_line h, ih, endedLines_line_append h,
        List.countP_cons, Nat.add_comm]
      simp only [decide_eq_true_eq]

/-- **Matching code fences counts lines.** From left to right, as many fences are found in a text as
are counted, and as there are lines that a newline ends and that end in a fence. So behind a text
that ends in a newline the fences are counted anew, and whatever is appended takes none away. -/
theorem fenceCount_lines (text : List Char) :
    (∀ n, Scan IsFence text n ↔ n = (endedLines text).countP (EndsInFence ·)) ∧
    fenceCount text = (endedLines text).countP (EndsInFence ·) ∧
    (text = [] ∨ EndsLine text → ∀ rest,
      fenceCount (text ++ rest) = fenceCount text + fenceCount rest) ∧
    ∀ rest, fenceCount text ≤ fenceCount (text ++ rest) := by
  refine ⟨fun n => ?_, fenceCount_eq_countP text, fun ends rest => ?_, fun rest => ?_⟩
  · rw [findsMatch_fence.scan_iff, ← fenceCount, fenceCount_eq_countP]
  · rcases ends with rfl | ends
    · rw [List.nil_append, show fenceCount [] = 0 from rfl, Nat.zero_add]
    · simp only [fenceCount_eq_countP, ends.endedLines_append, List.countP_append]
  · rw [fenceCount_eq_countP, fenceCount_eq_countP]
    exact (endedLines_isPrefix text rest).sublist.countP_le

/-- Backquotes in front of a fence and before a word, and a line that goes on after them. -/
def fencedText : List Char :=
  "\x60\x60\x60rust\n\x60\x60\x60\x60\na\x60\x60\x60b\x60\x60\x60é\n\x60\x60\x60 x\n".toList

theorem fenceCount_fencedText :
    EndsLine fencedText ∧ Scan IsFence fencedText 3 ∧
      fenceCount (fencedText ++ "\x60\x60\x60\n\x60\x60\x60".toList) =
        fenceCount fencedText + fenceCount "\x60\x60\x60\n\x60\x60\x60".toList := by
  have ends : EndsLine fencedText := rfl
  obtain ⟨scan, -, append, -⟩ := fenceCount_lines fencedText
  exact ⟨ends, (scan 3).mpr (by decide), append (.inr ends) _⟩

end SkillMarket.Skill
