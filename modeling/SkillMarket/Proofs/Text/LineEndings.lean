import SkillMarket.Text.Lines

/-!
# Line endings

`Spelling text spelt` says that `spelt` is the text with each newline spelt in one of three ways.
Every text is a spelling of exactly one text without carriage returns, and `normalizeNewlines` finds
it, in one pass or by two replacements.
-/

namespace SkillMarket.Text

/-- A way of writing a text: a newline stands alone, after a carriage return, or is a carriage
return that no newline follows. -/
inductive Spelling : List Char → List Char → Prop
  | nil : Spelling [] []
  | char {c : Char} {text spelt : List Char} (notNewline : c ≠ '\n') (notReturn : c ≠ '\r')
      (more : Spelling text spelt) : Spelling (c :: text) (c :: spelt)
  | newline {text spelt : List Char} (more : Spelling text spelt) :
      Spelling ('\n' :: text) ('\n' :: spelt)
  | returnNewline {text spelt : List Char} (more : Spelling text spelt) :
      Spelling ('\n' :: text) ('\r' :: '\n' :: spelt)
  | carriageReturn {text spelt : List Char} (alone : spelt.head? ≠ some '\n')
      (more : Spelling text spelt) : Spelling ('\n' :: text) ('\r' :: spelt)

/-! ## Normalizing -/

theorem normalizeNewlines_cons {c : Char} (h : c ≠ '\r') (rest : List Char) :
    normalizeNewlines (c :: rest) = c :: normalizeNewlines rest :=
  normalizeNewlines.eq_4 c rest (fun _ hc _ => h hc) h

theorem normalizeNewlines_return {rest : List Char} (alone : rest.head? ≠ some '\n') :
    normalizeNewlines ('\r' :: rest) = '\n' :: normalizeNewlines rest :=
  normalizeNewlines.eq_3 rest fun _ hrest => alone (by rw [hrest]; rfl)

/-- The text that was spelt is found again. -/
theorem Spelling.normalizeNewlines_eq {text spelt : List Char} (h : Spelling text spelt) :
    normalizeNewlines spelt = text := by
  induction h with
  | nil => rfl
  | char _ notReturn _ ih => rw [normalizeNewlines_cons notReturn, ih]
  | newline _ ih => rw [normalizeNewlines_cons (by decide), ih]
  | returnNewline _ ih => rw [normalizeNewlines.eq_2, ih]
  | carriageReturn alone _ ih => rw [normalizeNewlines_return alone, ih]

/-- Every text spells its normal form. -/
theorem spelling_normalizeNewlines (spelt : List Char) :
    Spelling (normalizeNewlines spelt) spelt := by
  induction spelt using normalizeNewlines.induct with
  | case1 => exact .nil
  | case2 rest ih => exact .returnNewline ih
  | case3 rest alone ih =>
      have alone : rest.head? ≠ some '\n' := fun hrest =>
        let ⟨more, hmore⟩ := List.head?_eq_some_iff.mp hrest
        alone more hmore
      rw [normalizeNewlines_return alone]
      exact .carriageReturn alone ih
  | case4 c rest _ notReturn ih =>
      rw [normalizeNewlines_cons notReturn]
      by_cases newline : c = '\n'
      · rw [newline]
        exact .newline ih
      · exact .char newline notReturn ih

/-- A text has one normal form. -/
theorem spelling_iff {text spelt : List Char} :
    Spelling text spelt ↔ normalizeNewlines spelt = text :=
  ⟨Spelling.normalizeNewlines_eq, fun h => h ▸ spelling_normalizeNewlines spelt⟩

theorem Spelling.noReturn {text spelt : List Char} (h : Spelling text spelt) : '\r' ∉ text := by
  induction h with
  | nil => simp
  | char _ notReturn _ ih => simpa [Ne.symm notReturn] using ih
  | newline _ ih => simpa using ih
  | returnNewline _ ih => simpa using ih
  | carriageReturn _ _ ih => simpa using ih

/-- A text without carriage returns spells itself. -/
theorem normalizeNewlines_eq_self {text : List Char} (h : '\r' ∉ text) :
    normalizeNewlines text = text := by
  induction text with
  | nil => rfl
  | cons c text ih =>
      obtain ⟨notReturn, more⟩ : '\r' ≠ c ∧ '\r' ∉ text := by simpa using h
      rw [normalizeNewlines_cons (Ne.symm notReturn), ih more]

/-- A spelling keeps all characters but the carriage returns, in their order. -/
theorem Spelling.sublist {text spelt : List Char} (h : Spelling text spelt) :
    (spelt.filter (· ≠ '\r')).Sublist text := by
  induction h with
  | nil => exact List.Sublist.refl _
  | char _ notReturn _ ih => simpa [notReturn] using ih
  | newline _ ih => simpa using ih
  | returnNewline _ ih => simpa using ih
  | carriageReturn _ _ ih => simpa using ih.trans (List.sublist_cons_self _ _)

/-- A spelling adds nothing but newlines. -/
theorem Spelling.filter_eq {text spelt : List Char} (h : Spelling text spelt) :
    text.filter (· ≠ '\n') = spelt.filter (fun c => c ≠ '\n' ∧ c ≠ '\r') := by
  induction h with
  | nil => rfl
  | char notNewline notReturn _ ih => simpa [notNewline, notReturn] using ih
  | newline _ ih => simpa using ih
  | returnNewline _ ih => simpa using ih
  | carriageReturn _ _ ih => simpa using ih

/-! ## Two replacements -/

/-- Replaces a text wherever it occurs, from left to right, after passing over some characters. -/
def replaceFrom (pass : Nat) (old new : List Char) : List Char → List Char
  | [] => []
  | c :: rest =>
    match pass with
    | pass + 1 => replaceFrom pass old new rest
    | 0 =>
      if old.isPrefixOf (c :: rest) then new ++ replaceFrom (old.length - 1) old new rest
      else c :: replaceFrom 0 old new rest

def replaceAll (old new text : List Char) : List Char := replaceFrom 0 old new text

theorem replaceAll_char (old new : Char) (text : List Char) :
    replaceAll [old] [new] text = text.map fun c => if c = old then new else c := by
  unfold replaceAll
  induction text with
  | nil => rfl
  | cons c text ih =>
      by_cases hc : c = old
      · simp [replaceFrom, hc, ih]
      · simp [replaceFrom, hc, Ne.symm hc, ih]

/-- **Replacing a carriage return with its newline first, and a lone one then, does all in one
pass.** -/
theorem normalizeNewlines_eq_replaceAll (spelt : List Char) :
    normalizeNewlines spelt = replaceAll ['\r'] ['\n'] (replaceAll ['\r', '\n'] ['\n'] spelt) := by
  rw [replaceAll_char]
  unfold replaceAll
  induction spelt using normalizeNewlines.induct with
  | case1 => rfl
  | case2 rest ih => simp [normalizeNewlines, replaceFrom, ih]
  | case3 rest alone ih =>
      have noPair : ['\r', '\n'].isPrefixOf ('\r' :: rest) = false := by
        cases rest with
        | nil => rfl
        | cons d rest =>
            have other : '\n' ≠ d := fun hd => alone rest (by rw [hd])
            simp [List.isPrefixOf, other]
      rw [normalizeNewlines.eq_3 rest alone, replaceFrom, noPair, ih]
      simp
  | case4 c rest _ notReturn ih =>
      have other : c ≠ '\r' := notReturn
      simp [normalizeNewlines_cons other, replaceFrom, Ne.symm other, other, ih]

end SkillMarket.Text
