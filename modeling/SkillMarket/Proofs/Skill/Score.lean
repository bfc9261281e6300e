import SkillMarket.CommandLine.Run
import SkillMarket.Proofs.Binary64.Grid
import SkillMarket.Proofs.Binary64.Nearest
import SkillMarket.Skill.Rubric

/-!
# The score of a document

The rubric in exact decimals, and what becomes of it in binary64 numbers. Some of the points are no
binary64 numbers, so sums of them are off by a little. But ten times the total is exact again: it
is a number of halves, and near enough to be rounded to it. So the score is what the exact total
gives, and every decision that hangs on it is that of the exact total.
-/

namespace SkillMarket.Skill

open Binary64

/-! ## The rubric in exact decimals -/

/-- Points that are given or not. -/
def share (given : Bool) (points : ℚ) : ℚ := if given then points else 0

def exactDescriptionPoints : Option DescriptionTraits → ℚ
  | none => 0
  | some d =>
    share d.isLong 0.5 + share d.isSpecific 0.5 + share d.saysWhen 0.5 + share d.isThirdPerson 0.5

def exactNamePoints : Option NameTraits → ℚ
  | none => 0
  | some n => share n.isHyphenated 0.25 + share n.isSpecific 0.25

def exactLengthPoints (newlines : Nat) : ℚ :=
  if newlines < 300 then 1.5 else if newlines < 500 then 1 else if newlines < 800 then 0.5 else 0

def exactExamplePoints (count : Nat) : ℚ :=
  if count = 0 then 0 else if count < 3 then 0.5 else 1

def exactStructurePoints (t : TextTraits) : ℚ :=
  max 0 (1 - share (!t.hasOverview) 0.3 - share (!t.hasUsage) 0.3 - share t.hasWindowsPath 0.4)

def exactHabitPoints (t : TextTraits) : ℚ :=
  max 0 (1 - share t.isTimeSensitive 0.5 - share t.mixesTerms 0.5)

/-- The sum of all points, without rounding. -/
def Findings.exactTotal (f : Findings) : ℚ :=
  3 + exactDescriptionPoints f.description + exactNamePoints f.name +
    exactLengthPoints f.text.newlines + exactExamplePoints f.text.fences +
    exactStructurePoints f.text + exactHabitPoints f.text

/-- The natural number nearest to a rational one, the even one of two. -/
structure RoundsToEven (q : ℚ) (n : ℕ) : Prop where
  near : |q - n| ≤ 1 / 2
  tie : |q - n| = 1 / 2 → Even n

theorem roundsToEven_nearest (n : ℕ) {d : ℕ} (hd : 0 < d) :
    RoundsToEven (n / d) (nearest n d) := by
  obtain ⟨below, above, tie⟩ := (nearest_eq_iff hd).mp (rfl : nearest n d = _)
  generalize nearest n d = k at below above tie ⊢
  have positive : (0 : ℚ) < d := by exact_mod_cast hd
  have distance : (n / d : ℚ) - k = (n - k * d) / d := by field_simp
  have below' : 2 * (k * d) ≤ (2 * n + d : ℚ) := by exact_mod_cast below
  have above' : (2 * n : ℚ) ≤ 2 * (k * d) + d := by exact_mod_cast above
  refine ⟨?_, fun half => ?_⟩
  · rw [distance, abs_le, le_div_iff₀ positive, div_le_iff₀ positive]
    constructor <;> linarith
  · rw [Nat.even_iff]
    refine tie ?_
    rw [distance, abs_eq (by norm_num), div_eq_iff positive.ne', div_eq_iff positive.ne'] at half
    rcases half with half | half
    · right
      have : (2 * n : ℚ) = 2 * (k * d) + d := by linarith
      exact_mod_cast this
    · left
      have : (2 * (k * d) : ℚ) = 2 * n + d := by linarith
      exact_mod_cast this

/-! ## Points on the grid -/

/-- A quarter of a point, on the grid: `2^52`. -/
def quarter : Nat := 0x10000000000000

/-- The points are so many quarters, exactly. -/
structure Quarters (x : Binary64) (q : ℚ) (k : ℕ) : Prop where
  points : x = grid (k * quarter)
  exact : q = k / 4

theorem quarters_description (d : Option DescriptionTraits) :
    ∃ k ≤ 8, Quarters (descriptionPoints d) (exactDescriptionPoints d) k ∧
      (k = 8 ↔ descriptionIssues d = []) := by
  cases d with
  | none =>
      refine ⟨0, by decide, ⟨by decide +kernel, ?_⟩, by decide⟩
      norm_num [exactDescriptionPoints]
  | some d =>
      obtain ⟨a, b, c, d⟩ := d
      refine ⟨2 * (a.toNat + b.toNat + c.toNat + d.toNat), ?_, ⟨?_, ?_⟩, ?_⟩
      · revert a b c d
        decide
      · revert a b c d
        decide +kernel
      · cases a <;> cases b <;> cases c <;> cases d <;> norm_num [exactDescriptionPoints, share]
      · revert a b c d
        decide

theorem quarters_name (n : Option NameTraits) :
    ∃ k ≤ 2, Quarters (namePoints n) (exactNamePoints n) k ∧ (k = 2 ↔ nameIssues n = []) := by
  cases n with
  | none =>
      refine ⟨0, by decide, ⟨by decide +kernel, ?_⟩, by decide⟩
      norm_num [exactNamePoints]
  | some n =>
      obtain ⟨a, b⟩ := n
      refine ⟨a.toNat + b.toNat, ?_, ⟨?_, ?_⟩, ?_⟩
      · revert a b
        decide
      · revert a b
        decide +kernel
      · cases a <;> cases b <;> norm_num [exactNamePoints, share]
      · revert a b
        decide

/-- Only the length can cost points without an issue. -/
theorem quarters_length (newlines : Nat) :
    ∃ k ≤ 6, Quarters (lengthPoints newlines) (exactLengthPoints newlines) k ∧
      (k = 6 ↔ newlines < 300) ∧ (k = 6 → lengthIssues newlines = []) := by
  unfold lengthPoints exactLengthPoints lengthIssues
  by_cases short : newlines < 300
  · refine ⟨6, by decide, ⟨?_, ?_⟩, by simp [short], fun _ => if_pos (by omega)⟩
    · rw [if_pos short]
      decide +kernel
    · rw [if_pos short]
      norm_num
  · simp only [short, if_false, iff_false]
    by_cases fair : newlines < 500
    · simp only [if_pos fair]
      exact ⟨4, by decide, ⟨by decide +kernel, by norm_num⟩, by decide, by decide⟩
    · by_cases long : newlines < 800
      · simp only [if_neg fair, if_pos long]
        exact ⟨2, by decide, ⟨by decide +kernel, by norm_num⟩, by decide, by simp⟩
      · simp only [if_neg fair, if_neg long]
        exact ⟨0, by decide, ⟨by decide +kernel, by norm_num⟩, by decide, by simp⟩

theorem quarters_example (count : Nat) :
    ∃ k ≤ 4, Quarters (examplePoints count) (exactExamplePoints count) k ∧
      (k = 4 ↔ exampleIssues count = []) := by
  unfold examplePoints exactExamplePoints exampleIssues
  by_cases none : count = 0
  · simp only [if_pos none]
    exact ⟨0, by decide, ⟨by decide +kernel, by norm_num⟩, by simp⟩
  · by_cases few : count < 3
    · simp only [if_neg none, if_pos few]
      exact ⟨2, by decide, ⟨by decide +kernel, by norm_num⟩, by simp⟩
    · simp only [if_neg none, if_neg few]
      exact ⟨4, by decide, ⟨by decide +kernel, by norm_num⟩, by simp⟩

theorem quarters_habit (t : TextTraits) :
    ∃ k ≤ 4, Quarters (habitPoints t) (exactHabitPoints t) k ∧ (k = 4 ↔ habitIssues t = []) := by
  unfold habitPoints exactHabitPoints habitIssues
  generalize t.isTimeSensitive = a, t.mixesTerms = b
  refine ⟨4 - 2 * (a.toNat + b.toNat), by omega, ⟨?_, ?_⟩, ?_⟩
  · revert a b
    decide +kernel
  · cases a <;> cases b <;> norm_num [share]
  · revert a b
    decide

/-- The points for the structure, on the grid, and how many twentieths of a point they stand for:
by the number of headings that are missing, and whether there are Windows paths. Three tenths and
four tenths are no binary64 numbers, so some of the points are a few steps off. -/
def structureTable : Nat → Bool → Nat × Nat
  | 0, false => (18014398509481984, 20)
  | 1, false => (12610078956637388, 14)
  | _, false => (7205759403792793, 8)
  | 0, true => (10808639105689190, 12)
  | 1, true => (5404319552844594, 6)
  | _, true => (0, 0)

theorem structurePoints_eq (t : TextTraits) :
    ∃ missing ≤ 2, ∃ paths, structurePoints t = grid (structureTable missing paths).1 ∧
      exactStructurePoints t = (structureTable missing paths).2 / 20 ∧
      ((structureTable missing paths).2 = 20 ↔ structureIssues t = []) := by
  unfold structurePoints exactStructurePoints structureIssues
  generalize t.hasOverview = a, t.hasUsage = b, t.hasWindowsPath = c
  refine ⟨(!a).toNat + (!b).toNat, ?_, c, ?_, ?_, ?_⟩
  · revert a b
    decide
  · revert a b c
    decide +kernel
  · cases a <;> cases b <;> cases c <;> norm_num [share, structureTable]
  · revert a b c
    decide

theorem structureTable_bounds : ∀ missing ≤ 2, ∀ paths, (structureTable missing paths).1 ≤ 2 ^ 54 ∧
    ((structureTable missing paths).2 = 20 ∨ (structureTable missing paths).2 ≤ 14) := by
  decide

/-! ## Sums -/

theorem Quarters.add {x y : Binary64} {q r : ℚ} {k l : ℕ} (hx : Quarters x q k)
    (hy : Quarters y r l) (some : 1 ≤ k) (small : k + l ≤ 64) :
    Quarters (x + y) (q + r) (k + l) := by
  have long : 2 ^ 52 ≤ k * quarter + l * quarter := by unfold quarter; omega
  have range : k * quarter + l * quarter ≤ maxGrid := by unfold quarter maxGrid; omega
  have exact : rounded ((k + l) * quarter) = (k + l) * quarter :=
    roundUnits_self (representable_mul_two_pow (show k + l < 2 ^ 53 by omega) 52)
  refine ⟨?_, ?_⟩
  · rw [hx.points, hy.points, grid_add_grid long range, ← Nat.add_mul, exact]
  · rw [hx.exact, hy.exact]
    push_cast
    ring

/-- With all points but those for the structure and the habits, and with those for the habits, ten
times the sum is rounded to a number of halves. -/
theorem rounded_sum : ∀ missing ≤ 2, ∀ paths, ∀ q ≤ 32, 12 ≤ q → ∀ k ≤ 4,
    rounded
        (rounded (rounded (q * quarter + (structureTable missing paths).1) + k * quarter) * 10) =
      (5 * q + (structureTable missing paths).2 + 5 * k) * 2 ^ 53 := by
  decide +kernel

/-- The sum of the points for the structure and the habits to so many quarters. -/
theorem sum_mul_ten {missing : ℕ} (hm : missing ≤ 2) (paths : Bool) {q k : ℕ} (least : 12 ≤ q)
    (most : q ≤ 32) (hk : k ≤ 4) :
    (grid (q * quarter) + grid (structureTable missing paths).1 + grid (k * quarter)) * ofNat 10 =
      grid ((5 * q + (structureTable missing paths).2 + 5 * k) * 2 ^ 53) := by
  have part := (structureTable_bounds missing hm paths).1
  have exact := rounded_sum missing hm paths q most least k hk
  generalize (structureTable missing paths).1 = u at part exact
  have low : 2 ^ 52 ≤ q * quarter + u := by unfold quarter; omega
  have high : q * quarter + u ≤ 2 ^ 58 := by unfold quarter; omega
  -- the rounded sums stay between the same powers of two
  have low' := le_rounded low
  have high' := rounded_le high
  have few : k * quarter ≤ 2 ^ 54 := by unfold quarter; omega
  have more : rounded (q * quarter + u) + k * quarter ≤ 2 ^ 59 := by omega
  have low'' := le_rounded (Nat.le_add_right_of_le low' : 2 ^ 52 ≤ _ + k * quarter)
  have high'' := rounded_le more
  rw [grid_add_grid low (by unfold maxGrid; omega), grid_add_grid (by omega)
    (by unfold maxGrid; omega), grid_mul_ten (by omega) (by unfold maxGrid; omega), exact]

/-- What the exact total of a document comes to, in twentieths of a point. -/
structure Twentieths (f : Findings) (h : ℕ) : Prop where
  exact : f.exactTotal = h / 20
  least : 60 ≤ h
  most : h ≤ 200
  full : h = 200 ↔ f.issues = [] ∧ f.text.newlines < 300
  short : h = 200 ∨ h ≤ 195
  /-- **Ten times the total is exact**, though the total may not be. -/
  timesTen : f.total * ofNat 10 = grid (h * 2 ^ 53)

theorem Findings.exists_twentieths (f : Findings) : ∃ h, Twentieths f h := by
  obtain ⟨a, ha, description, allDescription⟩ := quarters_description f.description
  obtain ⟨b, hb, name, allName⟩ := quarters_name f.name
  obtain ⟨c, hc, length, allLength, noneLength⟩ := quarters_length f.text.newlines
  obtain ⟨d, hd, example', allExample⟩ := quarters_example f.text.fences
  obtain ⟨e, he, habit, allHabit⟩ := quarters_habit f.text
  obtain ⟨missing, hm, paths, points, exact, allStructure⟩ := structurePoints_eq f.text
  have fixed : Quarters fixedPoints 3 12 := ⟨by decide +kernel, by norm_num⟩
  have sum := (((fixed.add description (by omega) (by omega)).add name (by omega) (by omega)).add
    length (by omega) (by omega)).add example' (by omega) (by omega)
  have part := (structureTable_bounds missing hm paths).2
  refine ⟨5 * (12 + a + b + c + d) + (structureTable missing paths).2 + 5 * e, ?_, ?_, ?_, ?_, ?_,
    ?_⟩
  · rw [Findings.exactTotal, sum.exact, exact, habit.exact]
    push_cast
    ring
  · omega
  · omega
  · have none : f.issues = [] ↔ descriptionIssues f.description = [] ∧ nameIssues f.name = [] ∧
        lengthIssues f.text.newlines = [] ∧ exampleIssues f.text.fences = [] ∧
        structureIssues f.text = [] ∧ habitIssues f.text = [] := by
      simp [Findings.issues]
    rw [none, ← allDescription, ← allName, ← allExample, ← allStructure, ← allHabit, ← allLength]
    constructor
    · intro whole
      exact ⟨⟨by omega, by omega, noneLength (by omega), by omega, by omega, by omega⟩, by omega⟩
    · rintro ⟨⟨ha, hb, -, hd, hs, he⟩, hc⟩
      omega
  · omega
  · rw [Findings.total, sum.points, points, habit.points]
    exact sum_mul_ten hm paths (by omega) (by omega) he

/-! ## Scores -/

/-- The score is the number of tenths nearest to the exact total. -/
theorem Twentieths.score {f : Findings} {h : ℕ} (t : Twentieths f h) :
    f.score = ofRatio (nearest h 2) 10 := by
  rw [Findings.score, toTenths, t.timesTen, roundToEven_grid, natural_div_ten]

theorem eight_le_ofRatio : ∀ n ≤ 100, (ofNat 8).le (ofRatio n 10) = decide (80 ≤ n) := by
  decide +kernel

theorem eq_of_ofRatio_eq_ten : ∀ n ≤ 100, ofRatio n 10 = ofNat 10 ↔ n = 100 := by
  decide +kernel

theorem oneDecimal_ofRatio : ∀ n ≤ 100,
    CommandLine.oneDecimal (ofRatio n 10) = s!"{n / 10}.{n % 10}" := by
  decide +kernel

/-- **Rounding never changes a score.** The score of a document is the binary64 number nearest to
the tenths that its exact total is rounded to, a tie going to the even one. -/
theorem Report.score_ofText (text : List Char) :
    ∃ n : ℕ, RoundsToEven ((Findings.of text).exactTotal * 10) n ∧ 30 ≤ n ∧ n ≤ 100 ∧
      (ofText text).score = ofRatio n 10 ∧ IsNearest (ofText text).score (n / 10) ∧
      ((ofText text).passes (ofNat 8) = true ↔ 7.95 ≤ (Findings.of text).exactTotal) ∧
      CommandLine.oneDecimal (ofText text).score = s!"{n / 10}.{n % 10}" ∧
      ((ofText text).score = ofNat 10 ↔
        (ofText text).issues = [] ∧ Text.countNewlines text < 300) := by
  obtain ⟨h, t⟩ := (Findings.of text).exists_twentieths
  have score : (ofText text).score = ofRatio (nearest h 2) 10 := t.score
  obtain ⟨below, above, tie⟩ := (nearest_eq_iff (by decide)).mp (rfl : nearest h 2 = _)
  have least := t.least
  have most := t.most
  have short := t.short
  have tenths : (Findings.of text).exactTotal * 10 = h / (2 : ℕ) := by
    rw [t.exact]
    push_cast
    ring
  refine ⟨nearest h 2, ?_, by omega, by omega, score, ?_, ?_, ?_, ?_⟩
  · rw [tenths]
    exact roundsToEven_nearest h (by decide)
  · have inRange : Exact 10 := exact_ten_pow (k := 1) (by decide)
    have near := isNearest_ofRatio (d := 10) (by decide) inRange
      (show nearest h 2 ≤ 10 * 10 by omega)
    rw [score]
    exact_mod_cast near
  · rw [Report.passes, score, eight_le_ofRatio _ (by omega), decide_eq_true_iff, t.exact,
      le_div_iff₀ (by norm_num)]
    have half : (7.95 * 20 : ℚ) = (159 : ℕ) := by norm_num
    rw [half, Nat.cast_le]
    omega
  · rw [score, oneDecimal_ofRatio _ (by omega)]
  · have none : (ofText text).issues = [] ↔ (Findings.of text).issues = [] := List.map_eq_nil_iff
    have newlines : Text.countNewlines text = (Findings.of text).text.newlines := rfl
    rw [score, eq_of_ofRatio_eq_ten _ (by omega), none, newlines, ← t.full]
    omega

end SkillMarket.Skill
