import SkillMarket.Config.Basic
import SkillMarket.Process
import SkillMarket.Text.Blank
import SkillMarket.Text.Utf8

/-!
Validating skills: a validator looks at each directory in turn.

A validator may be anything that answers with an outcome, and its answers may depend on what went
before: it carries a state along. One such validator runs a program on the directory.
-/

namespace SkillMarket.Skill

/-- What a validator says about a skill. -/
structure Outcome where
  skill : String
  passed : Bool
  output : String
deriving DecidableEq, Repr

/-- Looks at a directory. -/
abbrev Validator (σ : Type) := String → σ → Outcome × σ

/-! ## Validating directories -/

/-- What happens while directories are validated. -/
inductive Event where
  | started (directory : String)
  | finished (outcome : Outcome)
deriving DecidableEq, Repr

/-- The outcomes, in the order of the directories. -/
structure Summary where
  outcomes : List Outcome
deriving DecidableEq, Repr

def Summary.allPassed (s : Summary) : Bool := s.outcomes.all (·.passed)

/-- The outcomes of the skills that did not pass. -/
def Summary.failed (s : Summary) : List Outcome := s.outcomes.filter (!·.passed)

/-- A validation: its events, its summary, and the state of the validator after it. -/
structure Validation (σ : Type) where
  events : List Event
  summary : Summary
  state : σ

/-- Validates directories in order. A failure does not end the validation. -/
def validateAll {σ : Type} (validate : Validator σ) : List String → σ → Validation σ
  | [], s => ⟨[], ⟨[]⟩, s⟩
  | dir :: dirs, s =>
    let (outcome, s) := validate dir s
    let rest := validateAll validate dirs s
    ⟨.started dir :: .finished outcome :: rest.events, ⟨outcome :: rest.summary.outcomes⟩,
      rest.state⟩

/-! ## Validating by a program -/

/-- A program that gets a skill's absolute path as its last argument. -/
structure CommandValidator where
  program : String
  args : List String
  directory : String
deriving DecidableEq, Repr

/-- The validator of the settings, run in a directory. -/
def CommandValidator.ofConfig (c : ValidationConfig) (directory : String) : CommandValidator :=
  ⟨c.program, c.args, directory⟩

/-- The name of a skill: the last name of its directory's path, or the path itself. -/
def skillName (dir : String) : String := (Path.fileName? dir).getD dir

/-- What a program has said: its output if it succeeded, else whatever is not blank of its output
and its errors. -/
def spoken (c : Completed) : String :=
  let output := Text.decodeLossy c.output.toList
  let errors := Text.decodeLossy c.errors.toList
  if c.succeeded || !Text.isAllBlank output then String.ofList output
  else if !Text.isAllBlank errors then String.ofList errors
  else s!"Validator exited with status: {c.status.text}"

/-- The program to run on a directory, seen from the directory `current`. -/
def CommandValidator.invocation (v : CommandValidator) (current dir : String) : Invocation :=
  ⟨v.program, v.args ++ [(Path.absolute? current dir).getD dir], v.directory⟩

/-- What comes of running the program on a directory. -/
def CommandValidator.outcome (v : CommandValidator) (dir : String) :
    Except LaunchError Completed → Outcome
  | .ok c => ⟨skillName dir, c.succeeded, spoken c⟩
  | .error e => ⟨skillName dir, false, s!"Failed to run validator '{v.program}': {e.message}"⟩

/-- Runs the program on a directory. -/
def CommandValidator.validate {σ : Type} (v : CommandValidator) (launch : Launcher σ)
    (current : String) : Validator σ := fun dir s =>
  let (result, s) := launch (v.invocation current dir) s
  (v.outcome dir result, s)

end SkillMarket.Skill
