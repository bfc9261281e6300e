import SkillMarket.Binary64.Basic
import SkillMarket.Path

/-!
The settings of a repository, with their defaults.
-/

namespace SkillMarket

/-- Where the manifest is, below the root, and how a package's descriptor is called. -/
structure MarketplaceConfig where
  manifest : String
  descriptor : String
deriving DecidableEq, Repr

/-- The validator program, its arguments, and the directories that hold no skills. -/
structure ValidationConfig where
  program : String
  args : List String
  exclude : List String
deriving DecidableEq, Repr

/-- The least score that is good enough. -/
structure QualityConfig where
  threshold : Binary64
deriving DecidableEq, Repr

/-- All settings. -/
structure Config where
  marketplace : MarketplaceConfig
  validation : ValidationConfig
  quality : QualityConfig
deriving DecidableEq, Repr

/-- The directory of the manifest, below the root of a repository. -/
def pluginDirectory : String := ".claude-plugin"

def MarketplaceConfig.default : MarketplaceConfig where
  manifest := ".claude-plugin/marketplace.json"
  descriptor := "package.json"

def ValidationConfig.default : ValidationConfig where
  program := "python3"
  args := [".claude/skills/skill-creator/scripts/quick_validate.py"]
  exclude := ["node_modules", "scripts"]

def QualityConfig.default : QualityConfig := ⟨Binary64.ofNat 8⟩

def Config.default : Config := ⟨.default, .default, .default⟩

/-- The path of the manifest of a repository. -/
def Config.manifestPath (c : Config) (root : String) : String :=
  Path.join root c.marketplace.manifest

/-- The settings are the same: the manifests are the same path, the thresholds the same number. -/
def Config.same (a b : Config) : Bool :=
  Path.same a.marketplace.manifest b.marketplace.manifest &&
    a.marketplace.descriptor == b.marketplace.descriptor && a.validation == b.validation &&
    a.quality.threshold.eq b.quality.threshold

end SkillMarket
