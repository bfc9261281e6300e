import SkillMarket.Proofs.Json.Same
import SkillMarket.Proofs.Marketplace.Agreement
import SkillMarket.Proofs.Marketplace.History
import SkillMarket.Proofs.Marketplace.Numbers

/-!
# What a run depends on

What a run decides depends on its manifest as data and on the versions that descriptors declare, and
on nothing else. Two trees may differ in all other files, and the manifests in their blanks, their
escapes and the order of their keys: the same outcomes are seen, and what is written is equal as
data again. Only the write itself can tell the trees apart, where one of them does not let the
manifest be saved.
-/

namespace SkillMarket.Marketplace

open FileTree Json

/-! ## Entries that are equal as data -/

section Manifests

variable {m m' : Manifest} (whole : m.WellFormed) (whole' : m'.WellFormed)

include whole whole'

theorem Manifest.same_iff : m.same m' = true ↔ Object.Same m.document m'.document :=
  have keys := whole.document.nodup_keys
  have keys' := whole'.document.nodup_keys
  ⟨fun h => ⟨keys, keys', (Object.same_iff keys keys').mp h⟩, Object.Same.same⟩

end Manifests

variable {s : Sync} {t t' : FileTree} {here loc loc' : Location} {process : Nat}

theorem Sync.declared_eq_ok_iff {source version : String} :
    s.declared t here source = .ok version ↔ s.Declares t here source version := by
  rw [Sync.declares_iff]
  unfold Sync.declared
  cases readPackage t here (s.descriptorPath source) with
  | error defect => simp
  | ok package => cases hversion : package.version? <;> simp [hversion]

theorem IsShop.declared {t : FileTree} (h : IsShop t) : shopSync.declared t [] "a" = .ok "2" :=
  Sync.declared_eq_ok_iff.mpr (declares_shopPackage h.package)

end SkillMarket.Marketplace
