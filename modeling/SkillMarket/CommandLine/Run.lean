import SkillMarket.CommandLine.Arguments
import SkillMarket.Config.Reader
import SkillMarket.Marketplace.Sync
import SkillMarket.Skill.Discovery
import SkillMarket.Skill.Document
import SkillMarket.Skill.Validation

/-!
Running commands: what is printed, what becomes of the file tree, and the exit code.
-/

namespace SkillMarket.CommandLine

open Marketplace Skill

/-- A line that is printed, among the output or among the errors. -/
inductive Line where
  | out (text : String)
  | err (text : String)
deriving DecidableEq, Repr

/-- What a command comes to. -/
structure Result where
  exit : Nat
  lines : List Line
  tree : FileTree

/-- The text printed among the output. -/
def Result.output (r : Result) : String :=
  String.join (r.lines.filterMap fun | .out s => some (s ++ "\n") | .err _ => none)

/-- The text printed among the errors. -/
def Result.errors (r : Result) : String :=
  String.join (r.lines.filterMap fun | .err s => some (s ++ "\n") | .out _ => none)

/-- The report of a failure, with what lies behind it. -/
def failureLine (message : String) (causes : List String) : Line :=
  .err (causes.foldl (fun s cause => s!"{s}\n\nCaused by:\n    {cause}") s!"Error: {message}")

/-- Where a command is run. -/
structure Surroundings where
  here : Location
  process : Nat
deriving DecidableEq, Repr

/-- The path of the current directory. -/
def Surroundings.current (s : Surroundings) : String := FileTree.fullPath s.here

/-! ## Syncing -/

def entryLine : EntryOutcome → Line
  | .skipped name => .out s!"  ⊘ {name}: Skipping non-local source"
  | .inSync name version => .out s!"  • {name}: {version} (unchanged)"
  | .updated name old new => .out s!"  ✓ {name}: {old.getD noVersion} → {new}"
where
  /-- What is shown where there was no version. -/
  noVersion : String := "(none)"

def plural (count : Nat) : String := if count = 1 then "plugin" else "plugins"

def reportLine (r : SyncReport) : Line :=
  match r.result with
  | .unchanged => .out "✓ All versions already in sync!"
  | .updated count => .out s!"✓ {r.manifestPath} updated ({count} {plural count})"

def syncErrorLines (descriptor : String) (e : SyncError) : List Line :=
  .err s!"  ✗ {e.message}" ::
    if e.plugin?.isSome then [.err s!"    Ensure {descriptor} exists with a version field."] else []

def runSync (s : Surroundings) (config : Config) (root : String) (t : FileTree) : Result :=
  let sync := Sync.ofConfig root config
  let run := sync.run t s.here s.process
  let start := [.out s!"→ Syncing {sync.manifestPath} with package versions...", .out ""] ++
    run.seen.map entryLine
  match run.result with
  | .ok report => ⟨0, start ++ [.out "", reportLine report], run.tree⟩
  | .error e => ⟨1, start ++ syncErrorLines config.marketplace.descriptor e, run.tree⟩

/-! ## Validating -/

/-- The lines for an outcome; blanks around what the validator says do not count. -/
def outcomeLines (o : Outcome) : List Line :=
  let said := String.ofList (Text.trim o.output.toList)
  if o.passed then .out s!"✓ {o.skill}" :: if said = "" then [] else [.out said]
  else [.err s!"✗ {o.skill} validation failed:", .err said]

def eventLines : Event → List Line
  | .started dir => [.out s!"Validating {skillName dir}..."]
  | .finished o => outcomeLines o

def summaryLines (s : Summary) : List Line :=
  if s.allPassed then [.out "✓ All skills validated successfully!"]
  else [.err s!"✗ {s.failed.length} of {s.outcomes.length} skills failed validation",
    failureLine "Some skills failed validation" []]

def runValidate (launch : Launcher FileTree) (s : Surroundings) (config : Config) (root : String)
    (t : FileTree) : Result :=
  match discover t s.here root config.validation.exclude with
  | .error e => ⟨1, [failureLine e.message [e.error.message]], t⟩
  | .ok dirs =>
    let validator := CommandValidator.ofConfig config.validation root
    let run := validateAll (validator.validate launch s.current) dirs t
    ⟨if run.summary.allPassed then 0 else 1,
      [.out s!"→ Validating {dirs.length} skills...", .out ""] ++ run.events.flatMap eventLines ++
        .out "" :: summaryLines run.summary,
      run.state⟩

/-! ## Scoring -/

/-- A number with one decimal place. -/
def oneDecimal (x : Binary64) : String := String.ofList x.fixedOne

def issueLines (issues : List String) : List Line :=
  if issues.isEmpty then []
  else [.out "", .out "Issues found:"] ++ issues.map fun issue => .out s!"  - {issue}"

def runQuality (s : Surroundings) (config : Config) (path : String) (t : FileTree) : Result :=
  match Document.load t s.here path with
  | .error e => ⟨1, [failureLine e.message e.causes], t⟩
  | .ok document =>
    let report := document.report
    let threshold := config.quality.threshold
    let lines := .out s!"{oneDecimal report.score}/10" :: issueLines report.issues
    if report.passes threshold then ⟨0, lines, t⟩
    else
      let verdict := s!"{document.path} scored {oneDecimal report.score}"
      ⟨1, lines ++ [failureLine s!"{verdict} (minimum {oneDecimal threshold})" []], t⟩

/-! ## Commands -/

/-- The settings that a command is run with. -/
def Command.settings (c : Command) (here : Location) (t : FileTree) : Except ConfigError Config :=
  match c.config with
  | some path => Config.load t here path
  | none => Config.loadOrDefault t here c.root

/-- Runs a command. -/
def Command.run (c : Command) (launch : Launcher FileTree) (s : Surroundings) (t : FileTree) :
    Result :=
  match c.settings s.here t with
  | .error e => ⟨1, [failureLine e.message []], t⟩
  | .ok config =>
    match c.task with
    | .sync => runSync s config c.root t
    | .validate => runValidate launch s config c.root t
    | .quality path => runQuality s config path t

/-- How the command line is used. -/
def usage : String :=
  "Usage: skillkit [--root <ROOT>] [--config <CONFIG>] [-v] <sync|validate|quality <PATH>>"

/-- The exit code of a command line that cannot be read. -/
def usageExit : Nat := 2

/-- Runs the command that the arguments name. -/
def run (args : List String) (launch : Launcher FileTree) (s : Surroundings) (t : FileTree) :
    Result :=
  match Command.parse? args with
  | none => ⟨usageExit, [.err usage], t⟩
  | some command => command.run launch s t

end SkillMarket.CommandLine
