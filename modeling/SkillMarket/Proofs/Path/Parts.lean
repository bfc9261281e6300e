import Mathlib.Data.List.Basic
import SkillMarket.Path

/-!
# The parts of a path

A path is the texts between its slashes, and those that count are its parts, but for a mark at the
start: the root, or a `.`. Going on from a path adds parts at the end, and its parent is what is
left without the last one. So all that is said about a path by its parts stays true of every other
text for the same path.
-/

namespace SkillMarket

/-! ## Texts between separators -/

theorem Text.splitAll_eq_splitOn (sep : Char) (cs : List Char) :
    Text.splitAll sep cs = cs.splitOn sep := by
  induction cs with
  | nil => rfl
  | cons c cs ih =>
      rw [splitAll, List.splitOn_cons_eq_if_modifyHead, ih]
      cases hsplit : cs.splitOn sep with
      | nil => exact absurd hsplit (List.splitOn_ne_nil sep cs)
      | cons piece pieces => simp

/-- A character that is no separator is in one of the texts between the separators. -/
theorem mem_splitOn {sep c : Char} (h : c ≠ sep) {cs : List Char} :
    (∃ piece ∈ cs.splitOn sep, c ∈ piece) ↔ c ∈ cs := by
  induction cs with
  | nil => simp
  | cons d cs ih =>
      rw [List.splitOn_cons_eq_if_modifyHead]
      by_cases hd : d = sep
      · simp [hd, h, ih]
      · cases hsplit : cs.splitOn sep with
        | nil => exact absurd hsplit (List.splitOn_ne_nil sep cs)
        | cons piece pieces =>
            rw [hsplit] at ih
            simp [hd, ← ih, or_assoc]

/-- No separator is between the separators. -/
theorem sep_notMem_of_mem_splitOn {sep : Char} {cs piece : List Char}
    (h : piece ∈ cs.splitOn sep) : sep ∉ piece := by
  induction cs generalizing piece with
  | nil => simp_all
  | cons d cs ih =>
      rw [List.splitOn_cons_eq_if_modifyHead] at h
      by_cases hd : d = sep
      · simp only [hd, beq_self_eq_true, if_true, List.mem_cons] at h
        rcases h with rfl | h
        · simp
        · exact ih h
      · cases hsplit : cs.splitOn sep with
        | nil => exact absurd hsplit (List.splitOn_ne_nil sep cs)
        | cons first pieces =>
            rw [hsplit] at ih h
            simp only [beq_iff_eq, hd, if_false, List.modifyHead_cons, List.mem_cons] at h
            rcases h with rfl | h
            · simpa [Ne.symm hd] using ih List.mem_cons_self
            · exact ih (List.mem_cons_of_mem _ h)

namespace Path

/-! ## The start and the inside of a path -/

/-- The part that the start of a text stands for. -/
def leading (cs : List Char) : List Part :=
  match start cs with
  | ['/'] => [.root]
  | ['.'] => [.here]
  | _ => []

/-- The parts that the texts between the slashes stand for. -/
def inner (cs : List Char) : List Part := ((cs.splitOn '/').filter counts).map Part.ofPiece

/-- A text starts at the root, with a `.`, or with a text that counts, unless it is empty. -/
theorem start_cases (cs : List Char) :
    (∃ rest, cs = '/' :: rest ∧ start cs = ['/']) ∨
    ((cs = ['.'] ∨ ∃ rest, cs = '.' :: '/' :: rest) ∧ start cs = ['.']) ∨
    ((cs = [] ∨ ∃ piece more, cs.splitOn '/' = piece :: more ∧ counts piece = true) ∧
      start cs = []) := by
  unfold start
  split
  · exact .inl ⟨_, rfl, rfl⟩
  · exact .inr (.inl ⟨.inl rfl, rfl⟩)
  · exact .inr (.inl ⟨.inr ⟨_, rfl⟩, rfl⟩)
  · next noRoot noDot noDotSlash =>
    refine .inr (.inr ⟨?_, rfl⟩)
    cases hsplit : cs.splitOn '/' with
    | nil => exact absurd hsplit (List.splitOn_ne_nil _ cs)
    | cons piece more =>
        have whole : ['/'].intercalate (cs.splitOn '/') = cs := List.intercalate_splitOn '/'
        rw [hsplit] at whole
        by_cases hcounts : counts piece = true
        · exact .inr ⟨piece, more, rfl, hcounts⟩
        -- an empty text or a `.` in front would be one of the other starts
        · simp only [counts, Bool.and_eq_true, decide_eq_true_eq, not_and, not_not] at hcounts
          left
          cases more with
          | nil =>
              rw [List.intercalate_singleton] at whole
              by_contra nonempty
              exact noDot (whole.symm.trans (hcounts (whole ▸ nonempty)))
          | cons next more =>
              rw [List.intercalate_cons_cons] at whole
              by_cases hpiece : piece = []
              · exact absurd whole.symm (by rw [hpiece]; exact noRoot _)
              · exact absurd whole.symm (by rw [hcounts hpiece]; exact noDotSlash _)

theorem splitOn_dot_slash (rest : List Char) :
    ('.' :: '/' :: rest).splitOn '/' = ['.'] :: rest.splitOn '/' :=
  List.splitOn_append_cons_self_of_not_mem (show '/' ∉ ['.'] by decide) rest

/-- A text whose first part counts has no mark at its start. -/
theorem start_of_counts {cs piece : List Char} {more : List (List Char)}
    (h : cs.splitOn '/' = piece :: more) (hcounts : counts piece = true) : start cs = [] := by
  rcases start_cases cs with ⟨rest, rfl, -⟩ | ⟨rfl | ⟨rest, rfl⟩, -⟩ | ⟨-, hstart⟩
  · rw [List.splitOn_cons_eq_if_modifyHead] at h
    simp_all [counts]
  · rw [List.splitOn_eq_singleton (by decide)] at h
    simp_all [counts]
  · rw [splitOn_dot_slash] at h
    simp_all [counts]
  · exact hstart

theorem parts_eq (path : String) : parts path = leading path.toList ++ inner path.toList := by
  have same : (pieces path.toList).filter counts = (path.toList.splitOn '/').filter counts := by
    rw [pieces, Text.splitAll_eq_splitOn]
    rcases start_cases path.toList with ⟨rest, hcs, hstart⟩ | ⟨hcs, hstart⟩ | ⟨-, hstart⟩
    · rw [hstart, hcs, List.splitOn_cons_eq_if_modifyHead]
      simp [counts]
    · rcases hcs with hcs | ⟨rest, hcs⟩
      · rw [hstart, hcs]
        rfl
      · rw [hstart, hcs, splitOn_dot_slash, List.length_singleton, List.drop_one, List.tail_cons,
          List.splitOn_cons_eq_if_modifyHead]
        simp [counts]
    · rw [hstart, List.length_nil, List.drop_zero]
  rw [parts, same]
  rfl

@[simp] theorem inner_nil : inner [] = [] := rfl

theorem inner_append_slash (front back : List Char) :
    inner (front ++ '/' :: back) = inner front ++ inner back := by
  rw [inner, List.splitOn_append_cons_self, List.filter_append, List.map_append, inner, inner]

theorem inner_slash (back : List Char) : inner ('/' :: back) = inner back :=
  inner_append_slash [] back

/-- What follows a slash does not change how a path starts. -/
theorem leading_append_slash {front : List Char} (h : front ≠ []) (back : List Char) :
    leading (front ++ '/' :: back) = leading front := by
  have same : start (front ++ '/' :: back) = start front := by
    rcases start_cases front with ⟨rest, rfl, hstart⟩ | ⟨rfl | ⟨rest, rfl⟩, hstart⟩ |
        ⟨rfl | ⟨piece, more, hsplit, hcounts⟩, hstart⟩
    · exact hstart.symm
    · exact hstart.symm
    · exact hstart.symm
    · exact absurd rfl h
    · rw [hstart]
      have whole : (front ++ '/' :: back).splitOn '/' = piece :: (more ++ back.splitOn '/') := by
        rw [List.splitOn_append_cons_self, hsplit, List.cons_append]
      exact start_of_counts whole hcounts
  rw [leading, same, leading]

/-! ## Paths with the same parts -/

/-- A part that only the start of a path stands for. -/
def Part.isMark : Part → Bool
  | .root => true
  | .here => true
  | _ => false

theorem isMark_of_mem_leading {cs : List Char} {part : Part} (h : part ∈ leading cs) :
    part.isMark = true := by
  unfold leading at h
  split at h <;> simp_all [Part.isMark]

theorem not_isMark_of_mem_inner {cs : List Char} {part : Part} (h : part ∈ inner cs) :
    part.isMark = false := by
  obtain ⟨piece, -, rfl⟩ := List.mem_map.mp h
  unfold Part.ofPiece
  split <;> rfl

/-- The parts of a path say how it starts and what follows. -/
theorem parts_eq_parts_iff {a b : String} :
    parts a = parts b ↔ leading a.toList = leading b.toList ∧ inner a.toList = inner b.toList := by
  refine ⟨fun h => ?_, fun ⟨hleading, hinner⟩ => by rw [parts_eq, parts_eq, hleading, hinner]⟩
  have marks (path : String) : (parts path).filter Part.isMark = leading path.toList := by
    rw [parts_eq, List.filter_append,
      List.filter_eq_self.mpr fun _ => isMark_of_mem_leading,
      List.filter_eq_nil_iff.mpr fun _ hp => by simp [not_isMark_of_mem_inner hp], List.append_nil]
  have others (path : String) : (parts path).filter (!·.isMark) = inner path.toList := by
    rw [parts_eq, List.filter_append,
      List.filter_eq_nil_iff.mpr fun _ hp => by simp [isMark_of_mem_leading hp],
      List.filter_eq_self.mpr fun _ hp => by simp [not_isMark_of_mem_inner hp], List.nil_append]
  exact ⟨by rw [← marks, h, marks], by rw [← others, h, others]⟩

theorem same_iff {a b : String} : same a b = true ↔ parts a = parts b := by
  simp [same]

theorem isAbsolute_eq (path : String) :
    isAbsolute path = (leading path.toList == [.root]) := by
  unfold isAbsolute leading
  rcases start_cases path.toList with ⟨rest, hcs, hstart⟩ | ⟨hcs, hstart⟩ | ⟨hcs, hstart⟩
  · simp [hcs, start]
  · rcases hcs with hcs | ⟨rest, hcs⟩ <;> simp [hcs, start]
  · rw [hstart]
    rcases hcs with hcs | ⟨piece, more, hsplit, hcounts⟩
    · simp [hcs]
    · cases hcs : path.toList with
      | nil => rfl
      | cons c cs =>
          have : c ≠ '/' := by
            rintro rfl
            simp [hcs, start] at hstart
          simpa using this

/-- Only the empty path has no parts. -/
theorem parts_eq_nil_iff {path : String} : parts path = [] ↔ path = "" := by
  refine ⟨fun h => ?_, fun h => by rw [h]; rfl⟩
  rw [parts_eq, List.append_eq_nil_iff] at h
  obtain ⟨hleading, hinner⟩ := h
  rcases start_cases path.toList with ⟨rest, hcs, hstart⟩ | ⟨hcs, hstart⟩ | ⟨hcs, hstart⟩
  · simp [leading, hstart] at hleading
  · simp [leading, hstart] at hleading
  · rcases hcs with hcs | ⟨piece, more, hsplit, hcounts⟩
    · simpa using hcs
    · simp [inner, hsplit, hcounts] at hinner

/-! ## Going on from a path -/

/-- What a path goes on with stands after a slash. -/
theorem exists_toList_join {base path : String} (nonempty : base ≠ "")
    (relative : isAbsolute path = false) :
    ∃ front, (join base path).toList = front ++ '/' :: path.toList ∧
      (front ≠ [] ∧ base.toList = front ∨ base.toList = front ++ ['/']) := by
  have joined :
      join base path = if endsInSlash base then base ++ path else base ++ "/" ++ path := by
    simp [join, relative, nonempty]
  by_cases slash : endsInSlash base = true
  · obtain ⟨front, hfront⟩ := List.getLast?_eq_some_iff.mp (by simpa [endsInSlash] using slash)
    exact ⟨front, by simp [joined, slash, hfront], .inr hfront⟩
  · refine ⟨base.toList, ?_, .inl ⟨by simpa using nonempty, rfl⟩⟩
    simp [joined, slash]

/-- **Going on from a path adds parts at the end**, and a `.` in front of them does not count. -/
theorem parts_join {base path : String} (nonempty : base ≠ "")
    (relative : isAbsolute path = false) :
    parts (join base path) = parts base ++ inner path.toList := by
  obtain ⟨front, hjoin, ⟨hfront, hbase⟩ | hbase⟩ := exists_toList_join nonempty relative
  · rw [parts_eq, parts_eq, hjoin, hbase, leading_append_slash hfront, inner_append_slash,
      List.append_assoc]
  · have hleading : leading (front ++ '/' :: path.toList) = leading (front ++ ['/']) := by
      by_cases hfront : front = []
      · rw [hfront]
        rfl
      · rw [leading_append_slash hfront, leading_append_slash hfront]
    rw [parts_eq, parts_eq, hjoin, hbase, hleading, inner_append_slash, inner_append_slash,
      inner_nil, List.append_nil, List.append_assoc]

theorem join_empty (path : String) : join "" path = path := by
  unfold join
  split
  · rfl
  · simp

/-- Two texts for the same path stay so when both go on in the same way. -/
theorem parts_join_congr {base base' : String} (h : parts base = parts base') (path : String) :
    parts (join base path) = parts (join base' path) := by
  by_cases absolute : isAbsolute path = true
  · rw [join, join, if_pos absolute, if_pos absolute]
  · have relative : isAbsolute path = false := by simpa using absolute
    by_cases empty : base = ""
    · have empty' : base' = "" := parts_eq_nil_iff.mp (by rw [← h, parts_eq_nil_iff, empty])
      rw [empty, empty']
    · have nonempty' : base' ≠ "" := fun h' =>
        empty (parts_eq_nil_iff.mp (by rw [h, parts_eq_nil_iff, h']))
      rw [parts_join empty relative, parts_join nonempty' relative, h]

/-- Going on with names, whatever the path, adds their parts. -/
theorem parts_join_of_leading {path : String} (h : leading path.toList = []) (base : String) :
    parts (join base path) = parts base ++ parts path := by
  by_cases empty : base = ""
  · rw [empty, join_empty]
    rfl
  · have relative : isAbsolute path = false := by simp [isAbsolute_eq, h]
    rw [parts_join empty relative, parts_eq path, h, List.nil_append]

/-- The path is one name. -/
def IsOne (path name : String) : Prop := parts path = [.name name]

instance (path name : String) : Decidable (IsOne path name) :=
  inferInstanceAs (Decidable (parts path = [.name name]))

theorem IsOne.leading_eq {path name : String} (h : IsOne path name) :
    leading path.toList = [] := by
  unfold IsOne at h
  rw [parts_eq] at h
  cases hleading : leading path.toList with
  | nil => rfl
  | cons part more =>
      have mark : part.isMark = true := isMark_of_mem_leading (hleading ▸ List.mem_cons_self)
      rw [hleading, List.cons_append, List.cons.injEq] at h
      simp [h.1, Part.isMark] at mark

/-- Going on with a name adds the name. -/
theorem IsOne.parts_join {path name : String} (h : IsOne path name) (base : String) :
    parts (join base path) = parts base ++ [.name name] := by
  rw [parts_join_of_leading h.leading_eq, show parts path = [.name name] from h]

/-- The last part of a path, if it is a name, says what the path is called. -/
theorem fileName?_eq_some_iff {path name : String} :
    fileName? path = some name ↔ (parts path).getLast? = some (.name name) := by
  unfold fileName?
  split
  · next text h => simp [h]
  · next h => simpa using h name

/-! ## The parent of a path -/

theorem filter_dropWhile_not {α : Type} (test : α → Bool) (as : List α) :
    (as.dropWhile (!test ·)).filter test = as.filter test := by
  induction as with
  | nil => rfl
  | cons a as ih =>
      by_cases h : test a = true
      · simp [h]
      · simp [h, ih]

/-- Texts without slashes, with slashes between them, are found again. -/
theorem inner_intercalate {pieces : List (List Char)} (h : ∀ piece ∈ pieces, '/' ∉ piece) :
    inner (['/'].intercalate pieces) = (pieces.filter counts).map Part.ofPiece := by
  unfold inner
  by_cases hnil : pieces = []
  · rw [hnil]
    rfl
  · rw [List.splitOn_intercalate '/' h hnil]

/-- Texts of which the first is empty start with a slash when they are put together. -/
theorem intercalate_nil_cons (more : List (List Char)) :
    ['/'].intercalate ([] :: more) = [] ∨
      ∃ rest, ['/'].intercalate ([] :: more) = '/' :: rest := by
  cases more with
  | nil => exact .inl rfl
  | cons piece more => exact .inr ⟨_, List.intercalate_cons_cons⟩

/-- The first texts of a path, after its start, are a path that starts in the same way. -/
theorem parts_of_isPrefix {cs : List Char} {kept : List (List Char)} (h : kept <+: pieces cs) :
    leading (start cs ++ ['/'].intercalate kept) = leading cs ∧
      inner (start cs ++ ['/'].intercalate kept) = (kept.filter counts).map Part.ofPiece := by
  rw [pieces, Text.splitAll_eq_splitOn] at h
  have inside := inner_intercalate fun _ hpiece => sep_notMem_of_mem_splitOn (h.subset hpiece)
  rw [← inside]
  rcases start_cases cs with ⟨rest, rfl, hstart⟩ | ⟨hcs, hstart⟩ | ⟨hcs, hstart⟩
  · rw [hstart]
    exact ⟨rfl, inner_slash _⟩
  · -- a slash, or nothing, follows the `.`
    have follows : ['/'].intercalate kept = [] ∨ ∃ rest, ['/'].intercalate kept = '/' :: rest := by
      cases kept with
      | nil => exact .inl rfl
      | cons piece more =>
          have empty : piece = [] := by
            rcases hcs with rfl | ⟨rest, rfl⟩ <;>
              simp_all [List.splitOn_cons_eq_if_modifyHead, List.cons_prefix_cons]
          rw [empty]
          exact intercalate_nil_cons more
    have here : leading cs = [.here] := by simp [leading, hstart]
    rw [hstart, here]
    rcases follows with hnil | ⟨rest, hslash⟩
    · rw [hnil]
      exact ⟨rfl, rfl⟩
    · rw [hslash]
      exact ⟨rfl, (inner_append_slash ['.'] rest).trans (inner_slash rest).symm⟩
  · refine ⟨?_, by rw [hstart, List.nil_append]⟩
    have none : leading cs = [] := by simp [leading, hstart]
    rw [none, hstart, List.nil_append]
    rw [hstart, List.length_nil, List.drop_zero] at h
    cases kept with
    | nil => rfl
    | cons piece more =>
        have whole := List.splitOn_intercalate '/'
          (fun _ hpiece => sep_notMem_of_mem_splitOn (h.subset hpiece))
          (List.cons_ne_nil piece more)
        rcases hcs with rfl | ⟨first, others, hsplit, hcounts⟩
        · simp_all [List.cons_prefix_cons]
        · rw [hsplit, List.cons_prefix_cons] at h
          rw [leading, start_of_counts whole (h.1 ▸ hcounts)]

/-- Walking back over what does not pass a test, one that does, and again over what does not, leaves
a start of the list with all the others that pass. -/
theorem exists_dropWhile_eq_cons {α : Type} (test : α → Bool) {as : List α}
    (h : as.filter test ≠ []) :
    ∃ last more, as.reverse.dropWhile (!test ·) = last :: more ∧
      (more.dropWhile (!test ·)).reverse <+: as ∧
      as.filter test = (more.dropWhile (!test ·)).reverse.filter test ++ [last] := by
  have reversed : (as.reverse.dropWhile (!test ·)).filter test = (as.filter test).reverse := by
    rw [filter_dropWhile_not, List.filter_reverse]
  have suffix : as.reverse.dropWhile (!test ·) <:+ as.reverse := List.dropWhile_suffix _
  cases hlast : as.reverse.dropWhile (!test ·) with
  | nil =>
      rw [hlast, List.filter_nil, eq_comm, List.reverse_eq_nil_iff] at reversed
      exact absurd reversed h
  | cons last more =>
      have passes : test last = true := by
        have := List.head?_dropWhile_not (!test ·) as.reverse
        simpa [hlast] using this
      refine ⟨last, more, rfl, ?_, ?_⟩
      · rw [← List.reverse_suffix, List.reverse_reverse]
        exact (List.dropWhile_suffix _).trans ((List.suffix_cons last more).trans (hlast ▸ suffix))
      · rw [← List.reverse_reverse (as.filter test), ← reversed, hlast,
          List.filter_cons_of_pos passes, List.reverse_cons, List.filter_reverse,
          filter_dropWhile_not]

/-- **The parent of a path is what is left without its last part.** -/
theorem exists_parent?_eq {path name : String} {before : List Part}
    (h : parts path = before ++ [.name name]) :
    ∃ parent, parent? path = some parent ∧ parts parent = before := by
  have whole : parts path = leading path.toList ++
      ((pieces path.toList).filter counts).map Part.ofPiece := rfl
  rw [whole] at h
  -- without a text that counts there is no name
  have named : (pieces path.toList).filter counts ≠ [] := by
    intro none
    rw [none, List.map_nil, List.append_nil] at h
    have isLeading : .name name ∈ leading path.toList := by simp [h]
    simpa [Part.isMark] using isMark_of_mem_leading isLeading
  obtain ⟨piece, more, hlast, kept, hfilter⟩ := exists_dropWhile_eq_cons counts named
  obtain ⟨hleading, hinner⟩ := parts_of_isPrefix kept
  rw [hfilter, List.map_append, List.map_singleton, ← List.append_assoc] at h
  unfold parent?
  simp only [hlast]
  refine ⟨_, rfl, ?_⟩
  rw [parts_eq, String.toList_ofList, hleading, hinner]
  exact (List.append_inj' h rfl).1

end Path

end SkillMarket
