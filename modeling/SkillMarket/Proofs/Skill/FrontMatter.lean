import Mathlib.Data.List.TakeWhile
import SkillMarket.Proofs.Text.Lines
import SkillMarket.Skill.FrontMatter

/-!
# Front matter and what follows it

Front matter is what stands between two fences at the start of a text, if there is something. Once
it has been closed it stays what it is, whatever follows, and a text whose first line is no fence
never has any.
-/

namespace SkillMarket.Skill

open Text

/-- Lines after a closed block do not change it. -/
theorem blockLines?_append {ls block : List (List Char)} (h : blockLines? ls = some block)
    (more : List (List Char)) : blockLines? (ls ++ more) = some block := by
  cases ls with
  | nil => simp [blockLines?] at h
  | cons first rest =>
      simp only [blockLines?, Option.ite_none_right_eq_some, Option.some.injEq] at h
      obtain ⟨hblock, rfl⟩ := h
      simp only [Bool.and_eq_true, decide_eq_true_eq] at hblock
      -- the closing fence ends the block before the lines that follow
      have inside : (rest ++ more).takeWhile (!isFence ·) = rest.takeWhile (!isFence ·) := by
        rw [List.takeWhile_append, if_neg (Nat.ne_of_lt hblock.2)]
      have shorter := Nat.lt_add_right more.length hblock.2
      simp [blockLines?, inside, shorter, hblock.1.1, hblock.1.2]

theorem blockLines?_of_not_isFence {first : List Char} (h : isFence first = false)
    (rest : List (List Char)) : blockLines? (first :: rest) = none := by
  simp [blockLines?, h]

/-- The block is what stands between two fences, if there is something. -/
theorem blockLines?_eq_some {opening closing : List Char} {inside : List (List Char)}
    (opens : isFence opening = true) (closes : isFence closing = true)
    (nonempty : inside ≠ []) (others : ∀ line ∈ inside, isFence line = false)
    (rest : List (List Char)) :
    blockLines? (opening :: (inside ++ closing :: rest)) = some inside := by
  have block : (inside ++ closing :: rest).takeWhile (!isFence ·) = inside := by
    rw [List.takeWhile_append_of_pos (by simpa using others), List.takeWhile_cons_of_neg
      (by simp [closes]), List.append_nil]
  simp [blockLines?, block, opens, nonempty]

/-- The text has front matter, or its first line rules it out. -/
def Settled (text : List Char) : Prop :=
  (block? text).isSome = true ∨ ∃ first, (lines text).head? = some first ∧ isFence first = false

/-- **What follows a settled text changes nothing about its front matter.** -/
theorem block?_append {front : List Char} (ends : EndsLine front) (settled : Settled front)
    (rest : List Char) : block? (front ++ rest) = block? front := by
  unfold block?
  rw [ends.lines_append]
  rcases settled with closed | ⟨first, hfirst, notFence⟩
  · rw [block?, Option.isSome_map] at closed
    obtain ⟨block, hblock⟩ := Option.isSome_iff_exists.mp closed
    rw [hblock, blockLines?_append hblock]
  · obtain ⟨more, hlines⟩ := List.head?_eq_some_iff.mp hfirst
    rw [hlines, List.cons_append, blockLines?_of_not_isFence notFence,
      blockLines?_of_not_isFence notFence]

theorem FrontMatter.ofText_append {front : List Char} (ends : EndsLine front)
    (settled : Settled front) (rest : List Char) : ofText (front ++ rest) = ofText front := by
  rw [ofText, ofText, block?_append ends settled]

/-! ## Between two fences -/

/-- Lines cut at two of them. -/
structure Layout where
  opening : List Char
  inside : List (List Char)
  closing : List Char
  rest : List (List Char)

def Layout.lines (l : Layout) : List (List Char) := l.opening :: (l.inside ++ l.closing :: l.rest)

/-- The lines are cut at two fences, with something but no fence between them. -/
structure Layout.Fenced (l : Layout) : Prop where
  opens : isFence l.opening = true
  closes : isFence l.closing = true
  nonempty : l.inside ≠ []
  others : ∀ line ∈ l.inside, isFence line = false

theorem Layout.Fenced.blockLines? {l : Layout} (h : l.Fenced) :
    blockLines? l.lines = some l.inside :=
  blockLines?_eq_some h.opens h.closes h.nonempty h.others l.rest

/-- Lines hold a block exactly if they can be cut so, and the block is what is inside. -/
theorem blockLines?_eq_some_iff {ls inside : List (List Char)} :
    blockLines? ls = some inside ↔ ∃ l : Layout, l.Fenced ∧ ls = l.lines ∧ l.inside = inside := by
  constructor
  · intro h
    cases ls with
    | nil => simp [Skill.blockLines?] at h
    | cons first rest =>
        simp only [Skill.blockLines?, Option.ite_none_right_eq_some, Option.some.injEq] at h
        obtain ⟨hblock, rfl⟩ := h
        simp only [Bool.and_eq_true, Bool.not_eq_true', decide_eq_true_eq,
          List.isEmpty_eq_false_iff] at hblock
        obtain ⟨⟨opens, nonempty⟩, shorter⟩ := hblock
        -- the first line after those inside is a fence
        have cut := List.takeWhile_append_dropWhile (p := (!isFence ·)) (l := rest)
        cases hafter : rest.dropWhile (!isFence ·) with
        | nil =>
            rw [hafter, List.append_nil] at cut
            exact absurd shorter (by rw [cut]; exact Nat.lt_irrefl _)
        | cons closing more =>
            have closes : isFence closing = true := by
              have stops := List.head?_dropWhile_not (!isFence ·) rest
              simpa [hafter] using stops
            refine ⟨⟨first, rest.takeWhile (!isFence ·), closing, more⟩,
              ⟨opens, closes, nonempty, fun line hline => ?_⟩, ?_, rfl⟩
            · simpa using List.mem_takeWhile_imp hline
            · rw [Layout.lines, ← hafter, cut]
  · rintro ⟨l, fenced, rfl, rfl⟩
    exact fenced.blockLines?

/-- Nothing is inside if a fence follows at once, or no line at all. -/
theorem takeWhile_not_isFence_eq_nil_iff {ls : List (List Char)} :
    ls.takeWhile (!isFence ·) = [] ↔ ls = [] ∨ ∃ first ∈ ls.head?, isFence first = true := by
  cases ls with
  | nil => simp
  | cons first more => by_cases h : isFence first = true <;> simp [h]

/-- A fence follows if the lines before the first one are not all of them. -/
theorem length_takeWhile_not_isFence_lt_iff {ls : List (List Char)} :
    (ls.takeWhile (!isFence ·)).length < ls.length ↔ ¬ ∀ line ∈ ls, isFence line = false := by
  rw [← Nat.not_le, not_iff_not]
  constructor
  · intro h line hline
    have all := (List.takeWhile_prefix (!isFence ·)).eq_of_length_le h
    simpa using List.takeWhile_eq_self_iff.mp all line hline
  · intro h
    have all : ls.takeWhile (!isFence ·) = ls := List.takeWhile_eq_self_iff.mpr (by simpa using h)
    rw [all]

/-- Lines hold no block if they do not start with a fence, if no other fence follows, or if one
follows at once. -/
theorem blockLines?_eq_none_iff {ls : List (List Char)} :
    blockLines? ls = none ↔ (∀ first ∈ ls.head?, isFence first = false) ∨
      (∀ line ∈ ls.tail, isFence line = false) ∨ ∃ second ∈ ls[1]?, isFence second = true := by
  cases ls with
  | nil => simp [blockLines?]
  | cons first rest =>
      have second : (first :: rest)[1]? = rest.head? := by
        rw [List.getElem?_cons_succ, List.head?_eq_getElem?]
      simp only [blockLines?, ite_eq_right_iff, reduceCtorEq, Bool.and_eq_true, Bool.not_eq_true',
        decide_eq_true_eq, List.isEmpty_eq_false_iff, imp_false, second, List.tail_cons,
        List.head?_cons, Option.mem_def, Option.some.injEq, forall_eq', ne_eq,
        takeWhile_not_isFence_eq_nil_iff, length_takeWhile_not_isFence_lt_iff]
      constructor
      · intro h
        by_cases opens : isFence first = true
        · by_cases unclosed : ∀ line ∈ rest, isFence line = false
          · exact .inr (.inl unclosed)
          · by_cases closed : ∃ second, rest.head? = some second ∧ isFence second = true
            · exact .inr (.inr closed)
            · have lines : rest ≠ [] := by
                rintro rfl
                simp at unclosed
              exact absurd ⟨⟨opens, not_or.mpr ⟨lines, closed⟩⟩, unclosed⟩ h
        · exact .inl (by simpa using opens)
      · rintro (notOpening | unclosed | closed) ⟨⟨opens, nonempty⟩, shorter⟩
        · simp [notOpening] at opens
        · exact shorter unclosed
        · exact nonempty (.inr closed)

/-! ## Lines that are put together -/

/-- A carriage return at the end of a line makes no difference when the line is trimmed. -/
theorem trim_append_return (line : List Char) : trim (line ++ ['\r']) = trim line := by
  have blank : isBlank '\r' = true := by decide
  rw [trim, trim, List.dropWhile_append]
  split
  · next all =>
    rw [List.isEmpty_iff.mp all, List.dropWhile_cons_of_pos blank, List.dropWhile_nil]
  · rw [trimRight, List.reverse_append, List.reverse_singleton, List.singleton_append,
      List.dropWhile_cons_of_pos blank, ← trimRight]

theorem isFence_dropReturn (line : List Char) : isFence (dropReturn line) = isFence line := by
  by_cases last : line.getLast? = some '\r'
  · obtain ⟨front, rfl⟩ := List.getLast?_eq_some_iff.mp last
    rw [isFence, isFence, trim_append_return, dropReturn_append_return]
  · rw [dropReturn_eq_self last]

/-- A line that is a fence is not empty. -/
theorem ne_nil_of_isFence {line : List Char} (h : isFence line = true) : line ≠ [] := by
  rintro rfl
  simp [isFence, trim_nil] at h

/-- Lines that are put together have their block, if no carriage return ends a line inside. -/
theorem Layout.Fenced.block?_joinLines {l : Layout} (h : l.Fenced)
    (noNewline : ∀ line ∈ l.lines, '\n' ∉ line)
    (noReturn : ∀ line ∈ l.inside, line.getLast? ≠ some '\r') :
    block? (joinLines l.lines) = some (joinLines l.inside) := by
  obtain ⟨opening, inside, closing, rest⟩ := l
  simp only [Layout.lines, List.forall_mem_cons, List.forall_mem_append] at noNewline
  obtain ⟨first, middle, last, -⟩ := noNewline
  have front : ∀ line ∈ opening :: inside, '\n' ∉ line := List.forall_mem_cons.mpr ⟨first, middle⟩
  have kept : inside.map dropReturn = inside := by
    refine Eq.trans (List.map_congr_left fun line hline => ?_) inside.map_id
    exact dropReturn_eq_self (noReturn line hline)
  -- the fences may lose a carriage return, which leaves them fences
  obtain ⟨closing', rest', found, closes⟩ : ∃ closing' rest',
      Text.lines (joinLines (closing :: rest)) = closing' :: rest' ∧ isFence closing' = true := by
    refine ⟨_, _, lines_joinLines_cons (ne_nil_of_isFence h.closes) last rest, ?_⟩
    split
    · exact h.closes
    · exact (isFence_dropReturn closing).trans h.closes
  have fenced : Layout.Fenced ⟨dropReturn opening, inside, closing', rest'⟩ :=
    ⟨(isFence_dropReturn opening).trans h.opens, closes, h.nonempty, h.others⟩
  rw [block?, Layout.lines, ← List.cons_append, lines_joinLines_append front, found, List.map_cons,
    kept, List.cons_append]
  exact congrArg _ fenced.blockLines?

/-- A newline at the end is an empty line more. -/
theorem joinLines_append_newline (first : List Char) (more : List (List Char)) :
    joinLines (first :: more) ++ ['\n'] = joinLines (first :: (more ++ [[]])) := by
  simp [joinLines_cons]

/-- **Front matter is what two fences delimit.** A text has a block exactly if its lines are a
fence, some lines that are none, another fence and anything more; so it has none if it does not
start with a fence, if that is never closed, or if it is closed at once. Lines of this form that are
put together, with or without a newline at the end, have the lines inside as their block. A block
that has been read from a text that ends in a newline stays, whatever follows. -/
theorem block?_between_fences :
    (∀ text block, block? text = some block ↔
      ∃ l : Layout, l.Fenced ∧ lines text = l.lines ∧ block = joinLines l.inside) ∧
    (∀ text, block? text = none ↔ (∀ first ∈ (lines text).head?, isFence first = false) ∨
      (∀ line ∈ (lines text).tail, isFence line = false) ∨
        ∃ second ∈ (lines text)[1]?, isFence second = true) ∧
    (∀ l : Layout, l.Fenced → (∀ line ∈ l.lines, '\n' ∉ line) →
      (∀ line ∈ l.inside, line.getLast? ≠ some '\r') →
        block? (joinLines l.lines) = some (joinLines l.inside) ∧
        block? (joinLines l.lines ++ ['\n']) = some (joinLines l.inside)) ∧
    (∀ front, EndsLine front → (block? front).isSome = true → ∀ rest,
      block? (front ++ rest) = block? front ∧
      FrontMatter.ofText (front ++ rest) = FrontMatter.ofText front) := by
  refine ⟨fun text block => ?_, fun text => ?_, fun l fenced noNewline noReturn => ⟨?_, ?_⟩,
    fun front ends closed rest => ⟨?_, ?_⟩⟩
  · rw [block?, Option.map_eq_some_iff]
    constructor
    · rintro ⟨inside, found, rfl⟩
      obtain ⟨l, fenced, cut, rfl⟩ := blockLines?_eq_some_iff.mp found
      exact ⟨l, fenced, cut, rfl⟩
    · rintro ⟨l, fenced, cut, rfl⟩
      exact ⟨l.inside, blockLines?_eq_some_iff.mpr ⟨l, fenced, cut, rfl⟩, rfl⟩
  · rw [block?, Option.map_eq_none_iff, blockLines?_eq_none_iff]
  · exact fenced.block?_joinLines noNewline noReturn
  · -- the newline ends an empty line that is the last one
    have more : (⟨l.opening, l.inside, l.closing, l.rest ++ [[]]⟩ : Layout).lines =
        l.opening :: (l.inside ++ l.closing :: l.rest ++ [[]]) := by simp [Layout.lines]
    have longer : Layout.Fenced ⟨l.opening, l.inside, l.closing, l.rest ++ [[]]⟩ :=
      ⟨fenced.opens, fenced.closes, fenced.nonempty, fenced.others⟩
    rw [Layout.lines, joinLines_append_newline, ← more]
    refine longer.block?_joinLines (fun line hline => ?_) noReturn
    rw [more, ← List.cons_append, ← Layout.lines] at hline
    rcases List.mem_append.mp hline with old | new
    · exact noNewline line old
    · simp [List.mem_singleton.mp new]
  · exact block?_append ends (.inl closed) rest
  · exact FrontMatter.ofText_append ends (.inl closed) rest

/-- Fences with blanks and a carriage return around a line that starts like one. -/
def blankLayout : Layout where
  opening := "---\r".toList
  inside := [[], "---x".toList]
  closing := "\u3000 ---\t".toList
  rest := ["---".toList, []]

theorem block?_blankLayout :
    blankLayout.Fenced ∧ EndsLine (joinLines blankLayout.lines) ∧
      block? (joinLines blankLayout.lines) = some "\n---x".toList ∧
      ∀ rest, block? (joinLines blankLayout.lines ++ rest) = some "\n---x".toList := by
  have fenced : blankLayout.Fenced :=
    ⟨by decide, by decide, by decide, by decide⟩
  have ends : EndsLine (joinLines blankLayout.lines) := by
    rw [EndsLine]
    decide
  obtain ⟨-, -, joined, stays⟩ := block?_between_fences
  have found := (joined blankLayout fenced (by decide) (by decide)).1
  refine ⟨fenced, ends, found, fun rest => ?_⟩
  rw [(stays _ ends (by rw [found]; rfl) rest).1]
  exact found

end SkillMarket.Skill
