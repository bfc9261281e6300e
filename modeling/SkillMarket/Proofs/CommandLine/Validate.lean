import Mathlib
import SkillMarket.CommandLine.Run
import SkillMarket.Proofs.FileTree.AbsolutePath
import SkillMarket.Proofs.Skill.Discovery
import SkillMarket.Proofs.Skill.Validation

/-!
# What `validate` checks and reports

The validator is launched once for each skill, in the root and with a path that is good for a reader
in every directory, and the exit code and the last lines say how the launches have ended.
-/

namespace SkillMarket.CommandLine

open FileTree Skill

variable {c : Command} {s : Surroundings} {t : FileTree} {config : Config}

/-- The launches for the skills with these names, at these locations. -/
structure Launches (t : FileTree) (s : Surroundings) (v : ValidationConfig) (root : String)
    (loc : Location) (names : List String) (invocations : List Invocation) : Prop where
  /-- The root is a directory. -/
  root_eq : t.stat s.here root = .ok (loc, .directory)
  /-- The names are in the strict order of their bytes, so that none is there twice. -/
  inOrder : names.Pairwise fun a b => Text.bytes a < Text.bytes b
  /-- They are the names of the directories in the root, but for those that are left out. -/
  mem_iff : ∀ name, name ∈ names ↔
    t.get? (loc ++ [name]) = some .directory ∧ IsSkillName v.exclude name
  /-- Each launch is that of the validator in the root, and its last argument leads to the skill,
  also from the current directory. -/
  each : List.Forall₂ (fun name i => ∃ path, IsPathTo t (loc ++ [name]) path ∧
    (path.utf8ByteSize < maxPath → t.stat s.here path = .ok (loc ++ [name], .directory)) ∧
    i = ⟨v.program, v.args ++ [path], root⟩) names invocations

/-- The result tells how the launches have ended. -/
structure Tells (launch : Launcher FileTree) (t : FileTree) (invocations : List Invocation)
    (r : Result) : Prop where
  /-- These launches and no others have changed the tree. -/
  tree_eq : r.tree = (launchAll launch invocations t).2
  exit_eq_zero_iff : r.exit = 0 ↔
    ∀ result ∈ (launchAll launch invocations t).1, endedWell result = true
  /-- The other exit code comes with the counts, in the last lines. -/
  exit_ne_zero : r.exit ≠ 0 → r.exit = 1 ∧ ∃ before, r.lines = before ++
    [.err (let failed := (launchAll launch invocations t).1.countP (!endedWell ·)
      s!"✗ {failed} of {invocations.length} skills failed validation"),
      failureLine "Some skills failed validation" []]

theorem exists_launches (wellFormed : t.WellFormed) (there : t.get? s.here = some .directory)
    {v : ValidationConfig} {root : String} {dirs : List String}
    (found : discover t s.here root v.exclude = .ok dirs) :
    ∃ loc names, Launches t s v root loc names
      (dirs.map ((CommandValidator.ofConfig v root).invocation s.current)) := by
  obtain ⟨loc, root_eq, rfl⟩ := discover_eq_ok_iff.mp found
  have mem_iff (name : String) : name ∈ skillNames v.exclude (t.children loc) ↔
      t.get? (loc ++ [name]) = some .directory ∧ IsSkillName v.exclude name := by
    rw [mem_skillNames_iff, mem_children_iff]
  refine ⟨loc, _, root_eq, pairwise_skillNames _ (nodup_children t loc), mem_iff, ?_⟩
  rw [List.map_map, List.forall₂_map_right_iff, List.forall₂_same]
  intro name hname
  have child := ((mem_iff name).mp hname).1
  obtain ⟨full, absolute, isPathTo⟩ := exists_absolute?_join wellFormed there root_eq child
  refine ⟨full, isPathTo, fun short => isPathTo.stat_eq short child s.here, ?_⟩
  change Path.absolute? s.current _ = _ at absolute
  simp [CommandValidator.invocation, CommandValidator.ofConfig, absolute]

/-- A validation prints its summary last. -/
theorem runValidate_of_found (launch : Launcher FileTree) {root : String} {dirs : List String}
    (found : discover t s.here root config.validation.exclude = .ok dirs) :
    let validator := CommandValidator.ofConfig config.validation root
    let run := validateAll (validator.validate launch s.current) dirs t
    let r := runValidate launch s config root t
    r.exit = (if run.summary.allPassed then 0 else 1) ∧
      (∃ before, r.lines = before ++ summaryLines run.summary) ∧ r.tree = run.state := by
  simp only [runValidate, found]
  exact ⟨trivial, ⟨_, List.append_cons _ (Line.out "") _⟩, trivial⟩

theorem runValidate_tells (launch : Launcher FileTree) {root : String} {dirs : List String}
    (found : discover t s.here root config.validation.exclude = .ok dirs) :
    Tells launch t
      (dirs.map ((CommandValidator.ofConfig config.validation root).invocation s.current))
      (runValidate launch s config root t) := by
  let v := CommandValidator.ofConfig config.validation root
  obtain ⟨allPassed, failed, all⟩ := summary_validateAll v launch s.current dirs t
  obtain ⟨-, state⟩ := validateAll_command v launch s.current dirs t
  obtain ⟨exit, ⟨before, lines⟩, tree⟩ := runValidate_of_found launch found
  rw [length_launchAll] at all
  refine ⟨tree.trans state, ?_, fun failure => ?_⟩
  · rw [exit, ← List.all_eq_true, ← allPassed]
    split
    · next passed => exact iff_of_true rfl passed
    · next notAll => exact iff_of_false Nat.one_ne_zero notAll
  · have notAll : (validateAll (v.validate launch s.current) dirs t).summary.allPassed ≠ true :=
      fun passed => failure (exit.trans (if_pos passed))
    refine ⟨exit.trans (if_neg notAll), before, ?_⟩
    rw [lines, summaryLines, if_neg notAll, failed, all]

/-- **The validator is launched once for each skill, and the exit code tells how that went.** For
every root that can be listed there are launches, one for each skill in the order of the names. Each
is that of the configured program in the root, with an absolute path of the skill as its last
argument. Whatever the program does, these launches are made, in this order; the exit code is 0 if
all of them have ended well, and else 1, with the number of those that have not. -/
theorem Command.run_validate {children : List (String × Node)} (wellFormed : t.WellFormed)
    (there : t.get? s.here = some .directory) (task : c.task = .validate)
    (settings : c.settings s.here t = .ok config)
    (listed : t.list s.here c.root = .ok children) :
    ∃ loc names invocations,
      Launches t s config.validation c.root loc names invocations ∧
        ∀ launch, Tells launch t invocations (c.run launch s t) := by
  obtain ⟨dirs, found⟩ : ∃ dirs,
      discover t s.here c.root config.validation.exclude = .ok dirs := by
    simp [discover, listed]
  obtain ⟨loc, names, launches⟩ := exists_launches wellFormed there found
  refine ⟨loc, names, _, launches, fun launch => ?_⟩
  have run : c.run launch s t = runValidate launch s config c.root t := by
    simp [Command.run, settings, task]
  rw [run]
  exact runValidate_tells launch found

/-- Skills beside the current directory, and what is none. -/
def annex : FileTree where
  nodes := [(["home"], .directory), (["kit"], .directory), (["kit", "b"], .directory),
    (["kit", ".git"], .directory), (["kit", "a"], .directory), (["kit", "scripts"], .directory),
    (["kit", "a", "c"], .directory), (["kit", "l"], .link "a")]
  distinct := by decide

def annexCommand : Command := ⟨".././kit/", none, .validate⟩

theorem run_validate_annex :
    annex.WellFormed ∧ annex.get? ["home"] = some .directory ∧ annexCommand.task = .validate ∧
      annexCommand.settings ["home"] annex = .ok .default ∧
      annex.list ["home"] annexCommand.root = .ok (annex.children ["kit"]) ∧
      ∃ loc names invocations,
        Launches annex ⟨["home"], 7⟩ .default annexCommand.root loc names invocations ∧
          ∀ launch, Tells launch annex invocations
            (annexCommand.run launch ⟨["home"], 7⟩ annex) := by
  have wellFormed : annex.WellFormed := wellFormed_of_nodes (by decide)
  have settings : annexCommand.settings ["home"] annex = .ok .default := by
    -- there is no settings file
    have steps_eq : steps ".././kit/skillkit.toml" = ["..", ".", "kit", "skillkit.toml"] := by
      decide
    have walk : annex.walk .follow maxLinks ["home"] ["..", ".", "kit", "skillkit.toml"] =
        .ok ⟨["kit", "skillkit.toml"], none⟩ := by cbv
    have locate : annex.locate ["home"] .follow ".././kit/skillkit.toml" =
        .ok ⟨["kit", "skillkit.toml"], none⟩ :=
      locate_eq_ok_iff.mpr ⟨⟨by decide, by decide, by decide⟩, leads_of_walk (steps_eq ▸ walk)⟩
    have path : configPath ".././kit/" = ".././kit/skillkit.toml" := by decide
    have absent : annex.reaches ["home"] (configPath ".././kit/") = false := by
      rw [path, reaches, stat, locate]
      rfl
    change Config.loadOrDefault annex ["home"] ".././kit/" = _
    rw [Config.loadOrDefault, absent]
    rfl
  have there : annex.get? ["home"] = some .directory := by decide
  have root_eq : annex.stat ["home"] annexCommand.root = .ok (["kit"], .directory) := by
    have steps_eq : steps ".././kit/" = ["..", ".", "kit", ""] := by decide
    have walk : annex.walk .follow maxLinks ["home"] ["..", ".", "kit", ""] =
        .ok ⟨["kit"], some .directory⟩ := by cbv
    exact stat_eq_ok_iff.mpr (locate_eq_ok_iff.mpr
      ⟨⟨by decide, by decide, by decide⟩, leads_of_walk (steps_eq ▸ walk)⟩)
  have listed : annex.list ["home"] annexCommand.root = .ok (annex.children ["kit"]) := by
    rw [FileTree.list, root_eq]
  exact ⟨wellFormed, there, rfl, settings, listed,
    Command.run_validate (s := ⟨["home"], 7⟩) wellFormed there rfl settings listed⟩

end SkillMarket.CommandLine
