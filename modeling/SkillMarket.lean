import SkillMarket.Proofs.CommandLine.Validate
import SkillMarket.Proofs.Config.Override
import SkillMarket.Proofs.Marketplace.Culprit
import SkillMarket.Proofs.Marketplace.Dependence
import SkillMarket.Proofs.Marketplace.Edits
import SkillMarket.Proofs.Marketplace.Idempotence
import SkillMarket.Proofs.Marketplace.Obstacle
import SkillMarket.Proofs.Marketplace.Readable
import SkillMarket.Proofs.Marketplace.Repository
import SkillMarket.Proofs.Skill.BodyOrder
import SkillMarket.Proofs.Skill.Document
import SkillMarket.Proofs.Skill.NameAndDescription
import SkillMarket.Proofs.Skill.Progress
import SkillMarket.Proofs.Skill.Score
