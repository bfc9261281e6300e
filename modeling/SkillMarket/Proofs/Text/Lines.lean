import Mathlib.Data.List.Basic
import SkillMarket.Text.Lines

/-!
# Lines of a text that is put together

A newline cuts a text: the lines before it do not depend on what follows. So the lines of a text
that goes on after a newline are its own lines and the lines of what follows, and lines that were
put together are found again, but for a carriage return that a newline takes with it.
-/

namespace SkillMarket.Text

/-! ## One character -/

@[simp] theorem lines_newline (rest : List Char) : lines ('\n' :: rest) = [] :: lines rest := rfl

/-- A carriage return belongs to the newline after it. -/
theorem lines_return {rest : List Char} (h : rest.head? = some '\n') :
    lines ('\r' :: rest) = lines rest := by
  obtain ⟨more, rfl⟩ := List.head?_eq_some_iff.mp h
  rfl

/-- Every other character begins the first line. -/
theorem lines_cons {c : Char} {rest : List Char} (notNewline : c ≠ '\n')
    (notEnding : ¬ (c = '\r' ∧ rest.head? = some '\n')) :
    lines (c :: rest) = (c :: (lines rest).headD []) :: (lines rest).tail := by
  rw [lines.eq_4 _ _ notNewline fun more hc hmore => notEnding ⟨hc, by simp [hmore]⟩]
  cases lines rest <;> rfl

theorem lines_ne_nil {cs : List Char} (h : cs ≠ []) : lines cs ≠ [] := by
  cases cs with
  | nil => exact absurd rfl h
  | cons c rest =>
      by_cases newline : c = '\n'
      · simp [newline]
      · by_cases ending : c = '\r' ∧ rest.head? = some '\n'
        · obtain ⟨rfl, hrest⟩ := ending
          obtain ⟨more, rfl⟩ := List.head?_eq_some_iff.mp hrest
          simp [lines]
        · simp [lines_cons newline ending]

/-! ## Cutting at a newline -/

theorem head?_append_newline (front rest : List Char) :
    (front ++ '\n' :: rest).head? = (front ++ ['\n']).head? := by
  cases front <;> rfl

/-- **The lines before a newline do not depend on what follows it.** -/
theorem lines_append_newline (front rest : List Char) :
    lines (front ++ '\n' :: rest) = lines (front ++ ['\n']) ++ lines rest := by
  induction front with
  | nil => rfl
  | cons c front ih =>
      have same := head?_append_newline front rest
      rw [List.cons_append, List.cons_append]
      by_cases newline : c = '\n'
      · rw [newline, lines_newline, lines_newline, ih, List.cons_append]
      · by_cases ending : c = '\r' ∧ (front ++ ['\n']).head? = some '\n'
        · obtain ⟨rfl, hhead⟩ := ending
          rw [lines_return hhead, lines_return (same.trans hhead), ih]
        · have nonempty : lines (front ++ ['\n']) ≠ [] := lines_ne_nil (by simp)
          rw [lines_cons newline (same ▸ ending), lines_cons newline ending, ih]
          cases hlines : lines (front ++ ['\n']) with
          | nil => exact absurd hlines nonempty
          | cons line more => rfl

/-- A text that ends in a newline. -/
def EndsLine (cs : List Char) : Prop := cs.getLast? = some '\n'

theorem endsLine_iff {cs : List Char} : EndsLine cs ↔ ∃ front, cs = front ++ ['\n'] :=
  List.getLast?_eq_some_iff

/-- A text that ends in a newline keeps its lines whatever follows. -/
theorem EndsLine.lines_append {front : List Char} (h : EndsLine front) (rest : List Char) :
    lines (front ++ rest) = lines front ++ lines rest := by
  obtain ⟨start, rfl⟩ := endsLine_iff.mp h
  rw [List.append_assoc, List.singleton_append, lines_append_newline]

/-! ## Lines that a newline ends -/

/-- The lines that a newline ends, with all their characters. What stands after the last newline is
none of them. -/
def endedLines (cs : List Char) : List (List Char) := (cs.splitOn '\n').dropLast

theorem endedLines_append_newline (front rest : List Char) :
    endedLines (front ++ '\n' :: rest) = front.splitOn '\n' ++ endedLines rest := by
  rw [endedLines, List.splitOn_append_cons_self,
    List.dropLast_append_of_ne_nil (List.splitOn_ne_nil _ _), endedLines]

theorem endedLines_line {line : List Char} (h : '\n' ∉ line) : endedLines line = [] := by
  rw [endedLines, List.splitOn_eq_singleton h, List.dropLast_singleton]

theorem endedLines_line_append {line : List Char} (h : '\n' ∉ line) (rest : List Char) :
    endedLines (line ++ '\n' :: rest) = line :: endedLines rest := by
  rw [endedLines_append_newline, List.splitOn_eq_singleton h, List.singleton_append]

/-- A text is a line without an end, or a line, the newline that ends it, and a text. -/
theorem lines_induction {motive : List Char → Prop}
    (last : ∀ line, '\n' ∉ line → motive line)
    (ended : ∀ line rest, '\n' ∉ line → motive rest → motive (line ++ '\n' :: rest))
    (cs : List Char) : motive cs := by
  induction hsize : cs.length using Nat.strongRecOn generalizing cs with
  | ind size ih =>
      by_cases newline : '\n' ∈ cs
      · obtain ⟨line, rest, rfl, noNewline⟩ := List.eq_append_cons_of_mem newline
        have shorter : rest.length < size := by
          rw [← hsize, List.length_append, List.length_cons]
          omega
        exact ended line rest noNewline (ih _ shorter rest rfl)
      · exact last cs newline

/-- A text that ends in a newline has its lines ended, and so have those of what follows. -/
theorem EndsLine.endedLines_append {front : List Char} (h : EndsLine front) (rest : List Char) :
    endedLines (front ++ rest) = endedLines front ++ endedLines rest := by
  obtain ⟨start, rfl⟩ := endsLine_iff.mp h
  rw [List.append_assoc, List.singleton_append, endedLines_append_newline,
    endedLines_append_newline]
  simp [endedLines]

/-- What is appended to a text leaves its ended lines as they are. -/
theorem endedLines_isPrefix (front rest : List Char) :
    endedLines front <+: endedLines (front ++ rest) := by
  induction front using lines_induction with
  | last line h =>
      rw [endedLines_line h]
      exact List.nil_prefix
  | ended line more h ih =>
      rw [List.append_assoc, List.cons_append, endedLines_line_append h, endedLines_line_append h]
      exact List.cons_prefix_cons.mpr ⟨rfl, ih⟩

/-! ## Lines that were put together -/

/-- A line without the carriage return that a newline after it takes with it. -/
def dropReturn : List Char → List Char
  | [] => []
  | c :: rest => if c = '\r' ∧ rest = [] then [] else c :: dropReturn rest

/-- Nothing is lost of a line that ends in another character. -/
theorem dropReturn_eq_self {line : List Char} (h : line.getLast? ≠ some '\r') :
    dropReturn line = line := by
  induction line with
  | nil => rfl
  | cons c rest ih =>
      cases rest with
      | nil => simpa [dropReturn] using h
      | cons d rest =>
          rw [dropReturn, if_neg (by simp), ih (by simpa using h)]

/-- Nothing is lost in front of a character that is no carriage return. -/
theorem dropReturn_append_cons (front : List Char) {c : Char} (h : c ≠ '\r')
    (rest : List Char) : dropReturn (front ++ c :: rest) = front ++ c :: dropReturn rest := by
  induction front with
  | nil => simp [dropReturn, h]
  | cons d front ih => simp [dropReturn, ih]

theorem dropReturn_append_return (front : List Char) : dropReturn (front ++ ['\r']) = front := by
  induction front with
  | nil => rfl
  | cons c front ih => simp [dropReturn, ih]

theorem dropReturn_subset (line : List Char) : dropReturn line ⊆ line := by
  induction line with
  | nil => exact List.Subset.refl _
  | cons c rest ih =>
      rw [dropReturn]
      split
      · exact List.nil_subset _
      · exact List.cons_subset_cons c ih

/-- A line that a newline follows is the first line. -/
theorem lines_line_append {line : List Char} (h : '\n' ∉ line) (rest : List Char) :
    lines (line ++ '\n' :: rest) = dropReturn line :: lines rest := by
  induction line with
  | nil => rfl
  | cons c line ih =>
      obtain ⟨newline, more⟩ : '\n' ≠ c ∧ '\n' ∉ line := by simpa using h
      have found := ih more
      rw [List.cons_append]
      by_cases last : line = []
      · subst last
        by_cases carriage : c = '\r'
        · subst carriage
          rfl
        · rw [lines_cons (Ne.symm newline) (by simp [carriage]), found]
          simp [dropReturn, carriage]
      · have notEnding : (line ++ '\n' :: rest).head? ≠ some '\n' := by
          cases line with
          | nil => exact absurd rfl last
          | cons d line =>
            have first : '\n' ≠ d ∧ '\n' ∉ line := by simpa using more
            simpa using Ne.symm first.1
        rw [lines_cons (Ne.symm newline) fun ending => notEnding ending.2, found]
        simp [dropReturn, last]

/-- A text without a newline is one line. -/
theorem lines_line {line : List Char} (h : '\n' ∉ line) (nonempty : line ≠ []) :
    lines line = [line] := by
  induction line with
  | nil => exact absurd rfl nonempty
  | cons c line ih =>
      obtain ⟨newline, more⟩ : '\n' ≠ c ∧ '\n' ∉ line := by simpa using h
      have notEnding : line.head? ≠ some '\n' := fun hhead =>
        more (List.mem_of_mem_head? hhead)
      rw [lines_cons (Ne.symm newline) fun ending => notEnding ending.2]
      by_cases last : line = []
      · rw [last]
        rfl
      · rw [ih more last]
        rfl

theorem joinLines_cons_cons (line next : List Char) (more : List (List Char)) :
    joinLines (line :: next :: more) = line ++ '\n' :: joinLines (next :: more) := by
  rw [joinLines, List.intercalate_cons_cons]
  simp [joinLines]

/-- Lines that are put together: the first one, and each other one after a newline. -/
theorem joinLines_cons (line : List Char) (more : List (List Char)) :
    joinLines (line :: more) = line ++ more.flatMap ('\n' :: ·) := by
  induction more generalizing line with
  | nil => simp [joinLines]
  | cons next more ih => rw [joinLines_cons_cons, ih next, List.flatMap_cons, List.cons_append]

/-- The first of lines that are put together is found again; if others follow, a carriage return at
its end is lost. -/
theorem lines_joinLines_cons {line : List Char} (nonempty : line ≠ []) (h : '\n' ∉ line)
    (more : List (List Char)) :
    lines (joinLines (line :: more)) =
      (if more = [] then line else dropReturn line) :: lines (joinLines more) := by
  cases more with
  | nil =>
      have single : joinLines [line] = line := by simp [joinLines]
      rw [single, lines_line h nonempty]
      rfl
  | cons next more => rw [joinLines_cons_cons, lines_line_append h, if_neg (by simp)]

/-- Lines that are put together in front of a text are found again. -/
theorem lines_joinLines_append {front : List (List Char)} (h : ∀ line ∈ front, '\n' ∉ line)
    (line : List Char) (more : List (List Char)) :
    lines (joinLines (front ++ line :: more)) =
      front.map dropReturn ++ lines (joinLines (line :: more)) := by
  induction front with
  | nil => rfl
  | cons first front ih =>
      obtain ⟨newline, others⟩ := List.forall_mem_cons.mp h
      have joined : joinLines (first :: (front ++ line :: more)) =
          first ++ '\n' :: joinLines (front ++ line :: more) := by
        cases front <;> exact joinLines_cons_cons _ _ _
      rw [List.cons_append, joined, lines_line_append newline, ih others]
      rfl

end SkillMarket.Text
