/-!
The arguments of the command line.

Options may stand before the subcommand and after it; the later place wins, but in one place an
option stands once at most. After `--` nothing is an option.
-/

namespace SkillMarket.CommandLine

/-- The options of one place. -/
structure Options where
  root : Option String
  config : Option String
  verbose : Bool
deriving DecidableEq, Repr

def Options.empty : Options := ⟨none, none, false⟩

/-- What is to be done. -/
inductive Task where
  | sync
  | validate
  | quality (path : String)
deriving DecidableEq, Repr

/-- A command: where the repository is, which settings file is meant, and the task. -/
structure Command where
  root : String
  config : Option String
  task : Task
deriving DecidableEq, Repr

/-- The repository if no root is given. -/
def defaultRoot : String := "."

/-! ## Options -/

/-- Sets the root, once. A path is not empty. -/
def Options.setRoot (o : Options) (value : String) : Option Options :=
  if o.root.isSome || value = "" then none else some { o with root := some value }

/-- Names the settings file, once. -/
def Options.setConfig (o : Options) (value : String) : Option Options :=
  if o.config.isSome || value = "" then none else some { o with config := some value }

/-- Asks for more messages, once. -/
def Options.setVerbose (o : Options) : Option Options :=
  if o.verbose then none else some { o with verbose := true }

/-- The value behind an option and an equals sign. -/
def attached? (option arg : String) : Option String :=
  let start := option.toList ++ ['=']
  if start.isPrefixOf arg.toList then some (String.ofList (arg.toList.drop start.length)) else .none

/-- An argument that is taken for an option: it starts with a hyphen and is more than that. -/
def looksLikeOption (arg : String) : Bool := arg.toList.head? == some '-' && arg != "-"

/-- What an argument is. -/
inductive Word where
  | options (o : Options) (rest : List String)
  | endOfOptions
  | plain
  | wrong

/-- An option whose value is the next argument, which must not look like an option. -/
def valueOf (set : String → Option Options) : List String → Word
  | value :: rest =>
    if looksLikeOption value then .wrong
    else match set value with
      | some o => .options o rest
      | none => .wrong
  | [] => .wrong

/-- An option without a further argument. -/
def alone (set : Option Options) (rest : List String) : Word :=
  match set with
  | some o => .options o rest
  | none => .wrong

/-- Reads an argument as an option, if it looks like one. -/
def Options.read (o : Options) (arg : String) (rest : List String) : Word :=
  if arg = "--" then .endOfOptions
  else if !looksLikeOption arg then .plain
  else if arg = "--root" then valueOf o.setRoot rest
  else if arg = "--config" then valueOf o.setConfig rest
  else if arg = "-v" || arg = "--verbose" then alone o.setVerbose rest
  else match attached? "--root" arg, attached? "--config" arg with
    | some value, _ => alone (o.setRoot value) rest
    | _, some value => alone (o.setConfig value) rest
    | none, none => .wrong

/-! ## Places -/

/-- Reads the options of a place, and the arguments among them that are no options, of which there
are at most `plain`; the first of them after those ends the place. The last result says what is
left. Each round takes an argument, so that their number is enough. -/
def readPlace (plain : Nat) : Nat → Options → List String → List String →
    Option (Options × List String × List String)
  | _, o, read, [] => some (o, read.reverse, [])
  | 0, _, _, _ :: _ => none
  | rounds + 1, o, read, arg :: rest =>
    match o.read arg rest with
    | .options o rest => readPlace plain rounds o read rest
    | .plain =>
      if read.length < plain then readPlace plain rounds o (arg :: read) rest
      else some (o, read.reverse, arg :: rest)
    | .endOfOptions => if read.length + rest.length ≤ plain then some (o, read.reverse ++ rest, [])
      else none
    | .wrong => none

/-- The task that a subcommand and its own arguments name. -/
def task? : String → List String → Option Task
  | "sync", [] => some .sync
  | "validate", [] => some .validate
  | "quality", [path] => if path = "" then none else some (.quality path)
  | _, _ => none

/-- The number of arguments that a subcommand takes at most. -/
def argumentCount (subcommand : String) : Nat := if subcommand = "quality" then 1 else 0

/-- Reads the arguments of the command line. -/
def Command.parse? (args : List String) : Option Command := do
  match ← readPlace 0 args.length .empty [] args with
  | (outer, [], subcommand :: rest) =>
    match ← readPlace (argumentCount subcommand) rest.length .empty [] rest with
    | (inner, own, []) =>
      let task ← task? subcommand own
      return ⟨(inner.root.or outer.root).getD defaultRoot, inner.config.or outer.config, task⟩
    | _ => none
  | _ => none

end SkillMarket.CommandLine
