import SkillMarket.Proofs.Yaml.Lexer
import SkillMarket.Proofs.Yaml.Plain

/-!
# Taking a key and its value

A line with a key, a colon and words takes three rounds of the lexer: one for the key, one for the
colon, which puts the tokens of the key and of a new mapping in front of it, and one for the words.
-/

namespace SkillMarket.Yaml

variable {size rounds line : Nat}

/-! ## One round -/

/-- A character that no gap holds is where the next token begins. -/
theorem skipGap_cons {inFlow keyAllowed : Bool} {place : Place} {c : Char}
    (notBreak : isBreak c = false) (notBlank : isBlank c = false) (notHash : c ≠ '#')
    (notMark : c ≠ '\uFEFF') (rest : List Char) :
    skipGap inFlow false keyAllowed place (c :: rest) = (⟨place, c :: rest⟩, keyAllowed) := by
  simp only [isBlank, Bool.or_eq_false_iff] at notBlank
  simp [skipGap, notBreak, notBlank.1, notBlank.2, notHash, notMark]

/-- No block is closed when the margin is the second column. -/
theorem Lexer.closeBlocks_eq {l : Lexer} (h : ∀ m ∈ l.margins, m = 1) (bound : Nat) :
    l.closeBlocks (bound + 1) = l := by
  obtain ⟨cursor, margins, keyAllowed, possible, outer, tokens, count⟩ := l
  have none : margins.takeWhile (bound + 1 < ·) = [] ∧
      margins.dropWhile (bound + 1 < ·) = margins := by
    cases margins with
    | nil => simp
    | cons m more =>
        have first : m = 1 := h m (by simp)
        simp [first]
  unfold closeBlocks
  split
  · rfl
  · simp [none.1, none.2]

/-- A round passes over a gap and takes the next token, when it gives up no key and closes no
block. -/
theorem Lexer.run_succ {l : Lexer} {place : Place} {c : Char} {rest : List Char}
    {keyAllowed : Bool} (outer : l.outer = [])
    (gap : Yaml.skipGap false false l.keyAllowed l.cursor.place l.cursor.rest =
      (⟨place, c :: rest⟩, keyAllowed))
    (fresh : ∀ k ∈ l.possible, k.isStale place = false) (margins : ∀ m ∈ l.margins, m = 1) :
    l.run size (rounds + 1) =
      (({ l with cursor := ⟨place, c :: rest⟩, keyAllowed := keyAllowed } : Lexer).take
        size c rest).bind (Lexer.run size rounds) := by
  obtain ⟨cursor, blocks, allowed, possible, _, tokens, count⟩ := l
  subst outer
  have keys : dropStaleKey place possible = some possible := by
    cases possible with
    | none => rfl
    | some k => simp [dropStaleKey, fresh k rfl]
  have kept :
      (⟨cursor, blocks, allowed, possible, [], tokens, count⟩ : Lexer).skipGap.dropStaleKeys =
        some ⟨⟨place, c :: rest⟩, blocks, keyAllowed, possible, [], tokens, count⟩ := by
    simp [Lexer.skipGap, inFlow, gap, dropStaleKeys, keys]
  have closed := closeBlocks_eq
    (l := ⟨⟨place, c :: rest⟩, blocks, keyAllowed, possible, [], tokens, count⟩) margins
  rw [run, kept, Option.bind_eq_bind, Option.bind_some]
  dsimp only
  rw [closed]

/-! ## Letters and colons -/

theorem not_isIndicator_of_isAlpha {c : Char} (h : c.isAlpha) : isIndicator c = false := by
  have others : "-?:,[]\x7b\x7d#&*!|>'\"%@\x60".toList.any Char.isAlpha = false := by decide
  rw [isIndicator, List.contains_eq_mem, decide_eq_false_iff_not]
  exact fun hmem => List.any_eq_false.mp others c hmem h

/-- A plain scalar begins with a letter. -/
theorem Lexer.take_letter (l : Lexer) {c : Char} (h : c.isAlpha) (rest : List Char) :
    l.take size c rest = l.takePlain := by
  have other (d : Char) (hd : d.isAlpha = false) : (c == d) = false :=
    beq_eq_false_iff_ne.mpr (ne_of_test h hd)
  have noMark : atDocumentMark (c :: rest) = false := by
    unfold atDocumentMark
    split
    · next h' => exact absurd (List.cons.inj h').1 (ne_of_test h rfl)
    · next h' => exact absurd (List.cons.inj h').1 (ne_of_test h rfl)
    · rfl
  have plain := isPlainChar_of_isAlpha h
  have begins : beginsPlain l.inFlow c rest = true := by
    simp [beginsPlain, plain.notBlank, plain.notBreak, not_isIndicator_of_isAlpha h]
  simp only [take, noMark, begins, other '%' rfl, other '[' rfl, other ']' rfl, other '\x7b' rfl,
    other '\x7d' rfl, other ',' rfl, other '-' rfl, other '?' rfl, other ':' rfl, other '*' rfl,
    other '&' rfl, other '!' rfl, other '|' rfl, other '>' rfl, other '\'' rfl, other '"' rfl,
    Bool.and_false, Bool.false_and, Bool.false_eq_true, if_false, if_true]

/-- A colon and a space after it are the colon of a value. -/
theorem Lexer.take_colon (l : Lexer) (rest : List Char) :
    l.take size ':' (' ' :: rest) = l.takeValue := by
  simp [take, atDocumentMark, atBlank, isBlank]

/-- A plain scalar is taken after it has been noted that a key may begin with it. -/
theorem Lexer.takePlain_eq {l m : Lexer} {r : PlainRead} (noted : l.noteKey = some m)
    (read : readPlain ⟨m.inFlow, m.margin⟩ .none m.cursor.place m.cursor.rest = some r) :
    l.takePlain = some { m.add (.scalar true r.text) with
      cursor := r.next, keyAllowed := r.endsLine } := by
  rw [takePlain, noted, Option.bind_eq_bind, Option.bind_some]
  dsimp only
  rw [read]
  rfl

/-! ## The rounds of a pair -/

/-- The margins of the outermost block mapping, or those outside it. -/
def IsOutermost (margins : List Nat) : Prop := margins = [] ∨ margins = [1]

theorem IsOutermost.eq_one {margins : List Nat} (h : IsOutermost margins) :
    ∀ m ∈ margins, m = 1 := by
  rcases h with rfl | rfl <;> simp

/-- The token that opens the outermost mapping, if it is not open yet. -/
def opening (margins : List Nat) : List Token := if margins = [] then [.mappingStart] else []

/-- A word of letters at the start of a line may be a key. -/
theorem run_key {margins : List Nat} (outermost : IsOutermost margins) {c : Char}
    {key : List Char} (letters : ∀ d ∈ c :: key, d.isAlpha) (rest : List Char)
    (tokens : List Token) (count : Nat) :
    Lexer.run size (rounds + 1)
        ⟨⟨⟨line, 0, 0⟩, c :: (key ++ ':' :: ' ' :: rest)⟩, margins, true, none, [], tokens, count⟩ =
      Lexer.run size rounds
        ⟨⟨(c :: key).foldl .right ⟨line, 0, 0⟩, ':' :: ' ' :: rest⟩, margins, false,
          some ⟨count, ⟨line, 0, 0⟩, margins.headD 0 == 1⟩, [], .scalar true (c :: key) :: tokens,
          count + 1⟩ := by
  obtain ⟨letter, others⟩ := List.forall_mem_cons.mp letters
  have plain := isPlainChar_of_isAlpha letter
  have margin : margins.headD 0 ≤ 1 := by rcases outermost with rfl | rfl <;> decide
  have last : key.getLast? ≠ some ' ' := fun h =>
    ne_of_test (others _ (List.mem_of_getLast? h)) rfl rfl
  have read : readPlain ⟨false, margins.headD 0⟩ .none ⟨line, 0, 0⟩
      (c :: (key ++ ':' :: ' ' :: rest)) =
      some ⟨c :: key, false, ⟨(c :: key).foldl .right ⟨line, 0, 0⟩, ':' :: ' ' :: rest⟩⟩ :=
    readPlain_text rfl plain (fun d hd => .inr (isPlainChar_of_isAlpha (others d hd))) last margin
      (readPlain_colon rfl rest)
  have gap : skipGap false false true ⟨line, 0, 0⟩ (c :: (key ++ ':' :: ' ' :: rest)) =
      (⟨⟨line, 0, 0⟩, c :: (key ++ ':' :: ' ' :: rest)⟩, true) :=
    skipGap_cons plain.notBreak plain.notBlank plain.notHash (ne_of_test letter rfl) _
  have noted : (⟨⟨⟨line, 0, 0⟩, c :: (key ++ ':' :: ' ' :: rest)⟩, margins, true, none, [], tokens,
      count⟩ : Lexer).noteKey =
        some ⟨⟨⟨line, 0, 0⟩, c :: (key ++ ':' :: ' ' :: rest)⟩, margins, true,
          some ⟨count, ⟨line, 0, 0⟩, margins.headD 0 == 1⟩, [], tokens, count⟩ := rfl
  rw [Lexer.run_succ rfl gap (by simp) outermost.eq_one, Lexer.take_letter _ letter,
    Lexer.takePlain_eq noted read]
  rfl

/-- The colon after the word makes it a key, and opens the mapping if it is not open yet. -/
theorem run_colon {margins : List Nat} (outermost : IsOutermost margins) {place : Place}
    (sameLine : place.line = line) (short : place.bytes ≤ maxKeyLength) (required : Bool)
    (rest : List Char) (word : Token) (tokens : List Token) (count : Nat) :
    Lexer.run size (rounds + 1)
        ⟨⟨place, ':' :: ' ' :: rest⟩, margins, false, some ⟨count, ⟨line, 0, 0⟩, required⟩, [],
          word :: tokens, count + 1⟩ =
      Lexer.run size rounds
        ⟨⟨place.right ':', ' ' :: rest⟩, [1], false, none, [],
          .value :: word :: .key :: (opening margins ++ tokens),
          count + 3 + (opening margins).length⟩ := by
  have fresh : PossibleKey.isStale ⟨count, ⟨line, 0, 0⟩, required⟩ place = false := by
    simp [PossibleKey.isStale, sameLine, short]
  have gap : skipGap false false false place (':' :: ' ' :: rest) =
      (⟨place, ':' :: ' ' :: rest⟩, false) :=
    skipGap_cons (by decide) (by decide) (by decide) (by decide) _
  rw [Lexer.run_succ rfl gap (by simp [fresh]) outermost.eq_one, Lexer.take_colon]
  rcases outermost with rfl | rfl <;>
    simp [Lexer.takeValue, Lexer.insert, Lexer.openBlock, Lexer.inFlow, Lexer.margin, Lexer.add,
      Lexer.skip, Cursor.skip, opening, Nat.add_assoc]

/-- Words after the colon are the value. -/
theorem run_value {place : Place} {c : Char} {text tail : List Char} (letter : c.isAlpha)
    (chars : ∀ d ∈ text, d = ' ' ∨ IsPlainChar d) (last : text.getLast? ≠ some ' ')
    {endsLine : Bool} {next : Cursor}
    (ends : readPlain ⟨false, 1⟩ .none (text.foldl .right ((place.right ' ').right c)) tail =
      some ⟨[], endsLine, next⟩)
    (tokens : List Token) (count : Nat) :
    Lexer.run size (rounds + 1)
        ⟨⟨place, ' ' :: c :: (text ++ tail)⟩, [1], false, none, [], tokens, count⟩ =
      Lexer.run size rounds
        ⟨next, [1], endsLine, none, [], .scalar true (c :: text) :: tokens, count + 1⟩ := by
  have plain := isPlainChar_of_isAlpha letter
  have read := readPlain_text (s := ⟨false, 1⟩) rfl plain chars last (Nat.le_add_left 1 _) ends
  have gap : skipGap false false false place (' ' :: c :: (text ++ tail)) =
      (⟨place.right ' ', c :: (text ++ tail)⟩, false) := by
    rw [skipGap, if_neg (by decide), if_neg (by decide), if_pos (by simp)]
    exact skipGap_cons plain.notBreak plain.notBlank plain.notHash (ne_of_test letter rfl) _
  have noted : (⟨⟨place.right ' ', c :: (text ++ tail)⟩, [1], false, none, [], tokens,
      count⟩ : Lexer).noteKey =
        some ⟨⟨place.right ' ', c :: (text ++ tail)⟩, [1], false, none, [], tokens, count⟩ := rfl
  rw [Lexer.run_succ rfl gap (by simp) (by simp), Lexer.take_letter _ letter,
    Lexer.takePlain_eq noted read]
  rfl

/-! ## Pairs -/

/-- A word that can be a key. -/
structure IsKeyWord (key : List Char) : Prop where
  nonempty : key ≠ []
  letters : ∀ c ∈ key, c.isAlpha
  short : 4 * key.length ≤ maxKeyLength

/-- Words that are read as they are written. -/
structure IsWords (text : List Char) : Prop where
  first : ∃ c ∈ text.head?, c.isAlpha
  chars : ∀ c ∈ text, c = ' ' ∨ IsPlainChar c
  last : text.getLast? ≠ some ' '

theorem line_foldl_right (cs : List Char) (place : Place) :
    (cs.foldl .right place).line = place.line := by
  induction cs generalizing place with
  | nil => rfl
  | cons c cs ih => exact ih (place.right c)

/-- A character has four bytes at most. -/
theorem bytes_foldl_right_le (cs : List Char) (place : Place) :
    (cs.foldl .right place).bytes ≤ place.bytes + 4 * cs.length := by
  induction cs generalizing place with
  | nil => exact Nat.le_refl _
  | cons c cs ih =>
      have size := c.utf8Size_le_four
      have rest := ih (place.right c)
      rw [Place.right] at rest
      rw [List.foldl_cons, List.length_cons]
      exact Nat.le_trans rest (by dsimp only; omega)

/-- **A key and its value are taken in three rounds.** The scalar ends somewhere on the line. -/
theorem run_pair {margins : List Nat} (outermost : IsOutermost margins) {key text : List Char}
    (hkey : IsKeyWord key) (htext : IsWords text) (line : Nat) :
    ∃ place : Place, place.line = line ∧ ∀ {size rounds : Nat} {tail : List Char} {endsLine next}
      (_ : readPlain ⟨false, 1⟩ .none place tail = some ⟨[], endsLine, next⟩)
      (tokens : List Token) (count : Nat),
      Lexer.run size (rounds + 3)
          ⟨⟨⟨line, 0, 0⟩, key ++ ':' :: ' ' :: (text ++ tail)⟩, margins, true, none, [], tokens,
            count⟩ =
        Lexer.run size rounds
          ⟨next, [1], endsLine, none, [],
            .scalar true text :: .value :: .scalar true key :: .key :: (opening margins ++ tokens),
            count + 4 + (opening margins).length⟩ := by
  obtain ⟨k, key, rfl⟩ := List.exists_cons_of_ne_nil hkey.nonempty
  obtain ⟨c, hc, letter⟩ := htext.first
  obtain ⟨text, rfl⟩ := List.head?_eq_some_iff.mp hc
  obtain ⟨-, chars⟩ := List.forall_mem_cons.mp htext.chars
  have last : text.getLast? ≠ some ' ' := fun h => by
    have := htext.last
    rw [List.getLast?_cons, h] at this
    exact this rfl
  let colon : Place := (k :: key).foldl .right ⟨line, 0, 0⟩
  have sameLine : colon.line = line := line_foldl_right _ _
  have short : colon.bytes ≤ maxKeyLength :=
    Nat.le_trans (bytes_foldl_right_le _ _) (by simpa using hkey.short)
  refine ⟨text.foldl .right (((colon.right ':').right ' ').right c),
    (line_foldl_right _ _).trans sameLine, fun ends tokens count => ?_⟩
  rw [List.cons_append, run_key outermost hkey.letters,
    run_colon outermost sameLine short, List.cons_append,
    run_value letter chars last ends, Nat.add_right_comm]

end SkillMarket.Yaml
