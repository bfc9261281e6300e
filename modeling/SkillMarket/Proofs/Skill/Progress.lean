import Mathlib.Data.List.Basic
import SkillMarket.Proofs.Skill.Validation

/-!
# The course of a validation

Directories are validated one after the other: each is started, the validator is called on it, and
it is finished with the answer. So whatever a validator answers, all directories have their turn,
and at every moment the outcomes so far are the first ones of the summary, with one directory at
most under way. A listener that is told the events makes no difference to the outcomes.
-/

namespace SkillMarket.Skill

variable {σ τ : Type}

/-! ## Calls -/

/-- A validator that writes down its calls: each directory with the answer. -/
def logged (validate : Validator σ) : Validator (σ × List (String × Outcome)) :=
  fun dir (s, calls) =>
    let (outcome, s) := validate dir s
    (outcome, s, calls ++ [(dir, outcome)])

/-- **The validator is called once for each directory, in order, and its answers are the outcomes.**
Writing that down changes nothing else. -/
theorem validateAll_logged (validate : Validator σ) (dirs : List String) (s : σ)
    (calls : List (String × Outcome)) :
    let run := validateAll validate dirs s
    validateAll (logged validate) dirs (s, calls) =
      ⟨run.events, run.summary, run.state, calls ++ dirs.zip run.summary.outcomes⟩ := by
  induction dirs generalizing s calls with
  | nil => simp [validateAll]
  | cons dir dirs ih => simp [validateAll, logged, ih]

theorem length_outcomes (validate : Validator σ) (dirs : List String) (s : σ) :
    (validateAll validate dirs s).summary.outcomes.length = dirs.length := by
  induction dirs generalizing s with
  | nil => rfl
  | cons dir dirs ih => exact congrArg Nat.succ (ih _)

/-- Directories that are validated together are validated one part after the other. -/
theorem validateAll_append (validate : Validator σ) (before after : List String) (s : σ) :
    let first := validateAll validate before s
    let rest := validateAll validate after first.state
    validateAll validate (before ++ after) s =
      ⟨first.events ++ rest.events, ⟨first.summary.outcomes ++ rest.summary.outcomes⟩,
        rest.state⟩ := by
  induction before generalizing s with
  | nil => rfl
  | cons dir before ih => simp [validateAll, ih]

/-! ## Events -/

/-- The directory that is started. -/
def Event.directory? : Event → Option String
  | started dir => some dir
  | finished _ => none

/-- The outcome that a directory is finished with. -/
def Event.outcome? : Event → Option Outcome
  | started _ => none
  | finished outcome => some outcome

/-- Each directory is started, and then finished with its outcome. -/
def course (dirs : List String) (outcomes : List Outcome) : List Event :=
  (dirs.zip outcomes).flatMap fun (dir, outcome) => [.started dir, .finished outcome]

theorem course_cons (dir : String) (dirs : List String) (outcome : Outcome)
    (outcomes : List Outcome) :
    course (dir :: dirs) (outcome :: outcomes) =
      .started dir :: .finished outcome :: course dirs outcomes := rfl

theorem events_validateAll (validate : Validator σ) (dirs : List String) (s : σ) :
    let run := validateAll validate dirs s
    run.events = course dirs run.summary.outcomes := by
  induction dirs generalizing s with
  | nil => rfl
  | cons dir dirs ih => simp only [validateAll, course_cons, ih]

/-- The events so far tell what has been done: the first directories have been started and finished
with the first outcomes, and one more directory at most has been started. -/
structure SoFar (dirs : List String) (outcomes : List Outcome) (seen : List Event) : Prop where
  started : seen.filterMap Event.directory? <+: dirs
  finished : seen.filterMap Event.outcome? <+: outcomes
  not_before : (seen.filterMap Event.outcome?).length ≤ (seen.filterMap Event.directory?).length
  at_most_one :
    (seen.filterMap Event.directory?).length ≤ (seen.filterMap Event.outcome?).length + 1

/-- **At every moment one directory at most is under way.** -/
theorem soFar_of_isPrefix {dirs : List String} {outcomes : List Outcome}
    (same : outcomes.length = dirs.length) {seen : List Event}
    (h : seen <+: course dirs outcomes) : SoFar dirs outcomes seen := by
  induction dirs generalizing outcomes seen with
  | nil =>
      obtain rfl : outcomes = [] := List.length_eq_zero_iff.mp same
      obtain rfl : seen = [] := List.prefix_nil.mp h
      exact ⟨List.nil_prefix, List.nil_prefix, Nat.le_refl _, Nat.zero_le _⟩
  | cons dir dirs ih =>
      obtain ⟨outcome, outcomes, rfl⟩ := List.exists_cons_of_length_eq_add_one same
      rw [course_cons] at h
      -- nothing has happened, or the directory is under way, or it is finished
      match seen with
      | [] => exact ⟨List.nil_prefix, List.nil_prefix, Nat.le_refl _, Nat.zero_le _⟩
      | [e] =>
          obtain ⟨rfl, -⟩ := List.cons_prefix_cons.mp h
          exact ⟨List.prefix_append [dir] dirs, List.nil_prefix, Nat.zero_le _, Nat.le_refl _⟩
      | e :: e' :: seen =>
          obtain ⟨rfl, underWay⟩ := List.cons_prefix_cons.mp h
          obtain ⟨rfl, more⟩ := List.cons_prefix_cons.mp underWay
          obtain ⟨started, finished, not_before, at_most_one⟩ := ih (by simpa using same) more
          exact ⟨List.cons_prefix_cons.mpr ⟨rfl, started⟩,
            List.cons_prefix_cons.mpr ⟨rfl, finished⟩, Nat.succ_le_succ not_before,
            Nat.succ_le_succ at_most_one⟩

/-! ## Listeners -/

/-- A validation under way: the outcomes so far, and the states of the validator and of a
listener. -/
structure Progress (σ τ : Type) where
  outcomes : List Outcome
  state : σ
  heard : τ

/-- Validates one more directory, and tells the listener before and after. -/
def Progress.next (validate : Validator σ) (listen : Event → τ → τ) (p : Progress σ τ)
    (dir : String) : Progress σ τ :=
  let heard := listen (.started dir) p.heard
  let (outcome, state) := validate dir p.state
  ⟨p.outcomes ++ [outcome], state, listen (.finished outcome) heard⟩

/-- Validates directories in order and tells a listener what happens as it happens. -/
def validateTelling (validate : Validator σ) (listen : Event → τ → τ) (dirs : List String) (s : σ)
    (heard : τ) : Progress σ τ :=
  dirs.foldl (Progress.next validate listen) ⟨[], s, heard⟩

/-- Validates directories in order and tells nobody. -/
def validateQuietly (validate : Validator σ) (dirs : List String) (s : σ) : Summary :=
  ⟨(validateTelling validate (fun _ heard => heard) dirs s ()).outcomes⟩

theorem Progress.foldl_next (validate : Validator σ) (listen : Event → τ → τ) (dirs : List String)
    (p : Progress σ τ) :
    let run := validateAll validate dirs p.state
    dirs.foldl (Progress.next validate listen) p =
      ⟨p.outcomes ++ run.summary.outcomes, run.state,
        run.events.foldl (fun heard e => listen e heard) p.heard⟩ := by
  induction dirs generalizing p with
  | nil => simp [validateAll]
  | cons dir dirs ih => simp [validateAll, Progress.next, ih]

/-- **A listener is told the events, and makes no difference.** -/
theorem validateTelling_eq (validate : Validator σ) (listen : Event → τ → τ) (dirs : List String)
    (s : σ) (heard : τ) :
    let run := validateAll validate dirs s
    validateTelling validate listen dirs s heard =
      ⟨run.summary.outcomes, run.state,
        run.events.foldl (fun heard e => listen e heard) heard⟩ :=
  Progress.foldl_next validate listen dirs ⟨[], s, heard⟩

/-! ## What has failed -/

theorem Summary.mem_failed_iff {s : Summary} {o : Outcome} :
    o ∈ s.failed ↔ o ∈ s.outcomes ∧ o.passed = false := by
  rw [failed, List.mem_filter, Bool.not_eq_true']

theorem Summary.allPassed_iff {s : Summary} : s.allPassed = true ↔ s.failed = [] := by
  simp [allPassed, failed]

/-! ## All together -/

/-- A validation that loses nothing, keeps the order, and makes nothing up. -/
structure Faithful (validate : Validator σ) (dirs : List String) (s : σ) (run : Validation σ) :
    Prop where
  /-- There is one outcome for each directory. -/
  length_eq : run.summary.outcomes.length = dirs.length
  /-- The validator was called once for each directory, in order, and the outcomes are what it has
  answered. -/
  calls : (validateAll (logged validate) dirs (s, [])).state =
    (run.state, dirs.zip run.summary.outcomes)
  /-- Each directory was started, and then finished with its outcome. -/
  events_eq : run.events = course dirs run.summary.outcomes
  /-- Whatever the answer for a directory is, the others are validated as they would be alone: those
  before it, and those after it from the state that the validator has come to. -/
  others : ∀ before dir after, dirs = before ++ dir :: after →
    let first := validateAll validate before s
    let answer := validate dir first.state
    let rest := validateAll validate after answer.2
    run = ⟨first.events ++ .started dir :: .finished answer.1 :: rest.events,
      ⟨first.summary.outcomes ++ answer.1 :: rest.summary.outcomes⟩, rest.state⟩
  /-- At every moment, the events so far are those of the first directories. -/
  moments : ∀ seen, seen <+: run.events → SoFar dirs run.summary.outcomes seen
  /-- The failures are the outcomes that did not pass, in their order and as often as they occur. -/
  failed_sublist : run.summary.failed.Sublist run.summary.outcomes
  mem_failed : ∀ o, o ∈ run.summary.failed ↔ o ∈ run.summary.outcomes ∧ o.passed = false
  length_failed : run.summary.failed.length = (run.summary.outcomes.map (·.passed)).count false
  allPassed_iff : run.summary.allPassed = true ↔ run.summary.failed = []
  /-- Every listener is told these events, and the outcomes are the same for each. -/
  told : ∀ (τ : Type) (listen : Event → τ → τ) (heard : τ),
    validateTelling validate listen dirs s heard = ⟨run.summary.outcomes, run.state,
      run.events.foldl (fun heard e => listen e heard) heard⟩
  /-- So it is if nobody is told. -/
  quietly : validateQuietly validate dirs s = run.summary

/-- **A validation loses, reorders and invents nothing**, whatever the validator does and however
its answers depend on the calls before. -/
theorem faithful_validateAll (validate : Validator σ) (dirs : List String) (s : σ) :
    Faithful validate dirs s (validateAll validate dirs s) where
  length_eq := length_outcomes validate dirs s
  calls := by rw [validateAll_logged, List.nil_append]
  events_eq := events_validateAll validate dirs s
  others := by
    rintro before dir after rfl
    rw [validateAll_append]
    rfl
  moments seen h := by
    rw [events_validateAll] at h
    exact soFar_of_isPrefix (length_outcomes validate dirs s) h
  failed_sublist := List.filter_sublist
  mem_failed _ := Summary.mem_failed_iff
  length_failed := Summary.length_failed _
  allPassed_iff := Summary.allPassed_iff
  told _ listen heard := validateTelling_eq validate listen dirs s heard
  quietly := by rw [validateQuietly, validateTelling_eq]

/-- A validator that fails on its second call: the third directory has its turn all the same. -/
example :
    (validateAll (fun dir calls => (⟨dir, calls ≠ 1, ""⟩, calls + 1)) ["a", "b", "c"] 0).events =
      [.started "a", .finished ⟨"a", true, ""⟩, .started "b", .finished ⟨"b", false, ""⟩,
        .started "c", .finished ⟨"c", true, ""⟩] := by decide

end SkillMarket.Skill
