import SkillMarket.Config.Basic
import SkillMarket.FileTree.Access
import SkillMarket.Toml.Reader

/-!
Reading the settings.

What a file does not say keeps its default, setting by setting, and what is not known is passed
over. A section is a table, or an array of its settings in their order.
-/

namespace SkillMarket

/-! ## Settings -/

/-- The settings of a section by their names: those that are given. A date has none. -/
def sectionFields? (names : List String) : Option Toml.Value → Option (List (Option Toml.Value))
  | none => some (names.map fun _ => none)
  | some (.table _ members) => some (names.map (Toml.Table.get? members))
  | some (.array items) => some ((List.range names.length).map (items[·]?))
  | some .datetime => some (names.map fun _ => none)
  | some _ => none

/-- The value of a setting, or its default if it is not given. -/
def setting? {α : Type} (read : Toml.Value → Option α) (default : α) :
    Option Toml.Value → Option α
  | none => some default
  | some v => read v

def asText? : Toml.Value → Option String
  | .string s => some (String.ofList s)
  | _ => none

def asTexts? : Toml.Value → Option (List String)
  | .array items => items.mapM asText?
  | _ => none

def asNumber? : Toml.Value → Option Binary64
  | .integer n => some (.ofInt n)
  | .real x => some x
  | _ => none

/-! ## Sections -/

def MarketplaceConfig.ofToml? (v : Option Toml.Value) : Option MarketplaceConfig := do
  match ← sectionFields? ["manifest", "descriptor"] v with
  | [manifest, descriptor] =>
    return ⟨← setting? asText? default.manifest manifest,
      ← setting? asText? default.descriptor descriptor⟩
  | _ => none

def ValidationConfig.ofToml? (v : Option Toml.Value) : Option ValidationConfig := do
  match ← sectionFields? ["program", "args", "exclude"] v with
  | [program, args, exclude] =>
    return ⟨← setting? asText? default.program program, ← setting? asTexts? default.args args,
      ← setting? asTexts? default.exclude exclude⟩
  | _ => none

def QualityConfig.ofToml? (v : Option Toml.Value) : Option QualityConfig := do
  match ← sectionFields? ["threshold"] v with
  | [threshold] => return ⟨← setting? asNumber? default.threshold threshold⟩
  | _ => none

def Config.ofToml? (t : Toml.Table) : Option Config := do
  return ⟨← MarketplaceConfig.ofToml? (t.get? "marketplace"),
    ← ValidationConfig.ofToml? (t.get? "validation"), ← QualityConfig.ofToml? (t.get? "quality")⟩

/-- Reads the settings in a text. -/
def Config.parse? (text : String) : Option Config := do
  Config.ofToml? (← Toml.parse? text.toList)

/-! ## Files -/

/-- The name of the settings file of a repository. -/
def configName : String := "skillkit.toml"

/-- The path of the settings file of a repository. -/
def configPath (root : String) : String := Path.join root configName

/-- Why settings cannot be loaded. -/
inductive ConfigError where
  | missing (path : String)
  | unreadable (path : String) (error : FileError)
  | malformed (path : String)
deriving DecidableEq, Repr

def ConfigError.message : ConfigError → String
  | missing path => s!"Config file not found: {path}"
  | unreadable path error => s!"Failed to read config from {path}: {error.message}"
  | malformed path => s!"Failed to parse config from {path}"

/-- Loads the settings in a file. -/
def Config.load (t : FileTree) (here : Location) (path : String) : Except ConfigError Config :=
  match t.readText here path with
  | .error .notFound => .error (.missing path)
  | .error e => .error (.unreadable path e)
  | .ok text =>
    match Config.parse? text with
    | some config => .ok config
    | none => .error (.malformed path)

/-- Loads the settings of a repository, which are the defaults if it has no settings file. -/
def Config.loadOrDefault (t : FileTree) (here : Location) (root : String) :
    Except ConfigError Config :=
  if t.reaches here (configPath root) then Config.load t here (configPath root) else .ok .default

end SkillMarket
