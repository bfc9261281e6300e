import SkillMarket.Skill.Validation

/-!
# What a validation runs

Directories that are validated by a program are launches of the program, one after the other. A
launch that ends well is a skill that has passed, and so what is said about all the skills is said
about all the launches.
-/

namespace SkillMarket.Skill

variable {σ : Type}

/-- Launches one after the other: what comes of each, and the world after them. -/
def launchAll (launch : Launcher σ) : List Invocation → σ → List (Except LaunchError Completed) × σ
  | [], s => ([], s)
  | i :: more, s =>
    let (result, s) := launch i s
    let (results, s) := launchAll launch more s
    (result :: results, s)

/-- The program was started, and has ended well. -/
def endedWell : Except LaunchError Completed → Bool
  | .ok c => c.succeeded
  | .error _ => false

theorem CommandValidator.passed_outcome (v : CommandValidator) (dir : String)
    (result : Except LaunchError Completed) : (v.outcome dir result).passed = endedWell result := by
  cases result <;> rfl

theorem length_launchAll (launch : Launcher σ) (invocations : List Invocation) (s : σ) :
    (launchAll launch invocations s).1.length = invocations.length := by
  induction invocations generalizing s with
  | nil => rfl
  | cons i more ih => exact congrArg Nat.succ (ih (launch i s).2)

variable (v : CommandValidator) (launch : Launcher σ) (current : String)

/-- **Validating launches the program once for each directory**, and each launch that ends well is a
skill that has passed. -/
theorem validateAll_command (dirs : List String) (s : σ) :
    let run := validateAll (v.validate launch current) dirs s
    let launched := launchAll launch (dirs.map (v.invocation current)) s
    run.summary.outcomes.map (·.passed) = launched.1.map endedWell ∧ run.state = launched.2 := by
  induction dirs generalizing s with
  | nil => exact ⟨rfl, rfl⟩
  | cons dir dirs ih =>
      obtain ⟨outcomes, state⟩ := ih (launch (v.invocation current dir) s).2
      constructor
      · exact List.cons_eq_cons.mpr ⟨v.passed_outcome dir _, outcomes⟩
      · exact state

/-! ## Counting what has passed -/

theorem Summary.allPassed_eq (s : Summary) : s.allPassed = (s.outcomes.map (·.passed)).all id := by
  rw [allPassed, List.all_map]
  rfl

theorem Summary.length_failed (s : Summary) :
    s.failed.length = (s.outcomes.map (·.passed)).count false := by
  rw [failed, ← List.countP_eq_length_filter, List.count, List.countP_map]
  exact congrArg (List.countP · _) (funext fun o => by cases h : o.passed <;> simp [h])

/-- All have passed, and none has failed, when every launch has ended well. -/
theorem summary_validateAll (dirs : List String) (s : σ) :
    let summary := (validateAll (v.validate launch current) dirs s).summary
    let results := (launchAll launch (dirs.map (v.invocation current)) s).1
    summary.allPassed = results.all endedWell ∧
      summary.failed.length = results.countP (!endedWell ·) ∧
      summary.outcomes.length = results.length := by
  have outcomes := (validateAll_command v launch current dirs s).1
  refine ⟨?_, ?_, ?_⟩
  · rw [Summary.allPassed_eq, outcomes, List.all_map]
    rfl
  · rw [Summary.length_failed, outcomes, List.count, List.countP_map]
    exact congrArg (List.countP · _) (funext fun r => by cases h : endedWell r <;> simp [h])
  · simpa using congrArg List.length outcomes

end SkillMarket.Skill
