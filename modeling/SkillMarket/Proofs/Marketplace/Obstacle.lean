import SkillMarket.Proofs.Marketplace.Run

/-!
# What stands in the way of a run

Something may stand at the temporary location when a run starts. A directory keeps the run from
writing. A file is written over and goes to the place of the manifest, as a new one would. A link is
followed: the new text goes to where it leads, and the link goes to the place of the manifest.
-/

namespace SkillMarket.Marketplace

open FileTree

variable {s : Sync} {t : FileTree} {here loc : Location} {process : Nat}

/-- **A file at the temporary location cannot divert what is written, but a link can.** A run that
ends well leaves the tree as it was if it has no update. Else, if a file stood at the temporary
location, the place of the manifest holds the new text with its old permissions, the temporary
location is free and nothing else differs. If a link stood there, what it leads to holds the new
text with the manifest's permissions, and the link has come to the place of the manifest. A
directory at the temporary location lets no run with an update end well. -/
theorem Sync.run_of_obstacle (wellFormed : t.WellFormed) {report : SyncReport} {text : String}
    {node : Node} (hok : (s.run t here process).result = .ok report)
    (opened : t.openText here s.manifestPath = .ok (loc, text))
    (obstacle : t.get? (s.temporary t here process) = some node) :
    ∃ mode m, t.get? loc = some (.file mode (Text.encode text)) ∧ Manifest.parse text = .ok m ∧
      (∀ full, t.canonicalize here s.manifestPath = .ok full → s.place t here = loc) ∧
      (report.updated = 0 ∧ (s.run t here process).tree = t ∨
        report.updated ≠ 0 ∧ (∃ mode' old, node = .file mode' old) ∧
          (∀ l, (s.run t here process).tree.get? l =
            if s.place t here = l then
              some (.file mode (Text.encode (m.apply report.entries).text))
            else if s.temporary t here process = l then none
            else t.get? l) ∨
        report.updated ≠ 0 ∧ ∃ aim target, node = .link aim ∧
          t.locate here .create (temporaryPath (savePath t here s.manifestPath) process) =
            .ok target ∧
          (target.node = none ∨ ∃ mode' old, target.node = some (.file mode' old)) ∧
          target.location ≠ s.temporary t here process ∧
          ∀ l, (s.run t here process).tree.get? l =
            if s.place t here = l then some (.link aim)
            else if s.temporary t here process = l then none
            else if target.location = l then
              some (.file mode (Text.encode (m.apply report.entries).text))
            else t.get? l) := by
  obtain ⟨mode, m, hstat, parsed, -, outcome⟩ := Sync.tree_of_ok_of_opened hok opened
  refine ⟨mode, m, get?_of_stat hstat, parsed,
    fun full canonical => s.place_eq_of_canonicalize wellFormed canonical hstat, ?_⟩
  rcases outcome with ⟨same, htree⟩ | ⟨other, saved⟩
  · exact .inl ⟨same, htree⟩
  obtain ⟨target, located, hnode, there, hat, hget⟩ :=
    Sync.get?_saved_through wellFormed hstat saved
  refine .inr ?_
  cases node with
  | directory =>
      rcases hat with hat | ⟨text, link⟩
      · rcases hnode with h | ⟨m, c, h⟩ <;> simp [there, hat, obstacle] at h
      · simp [obstacle] at link
  | file mode' old =>
      have hat := hat.resolve_right fun ⟨text, link⟩ => by simp [obstacle] at link
      refine .inl ⟨other, ⟨mode', old, rfl⟩, fun l => ?_⟩
      rw [hget, if_pos hat, hat]
      by_cases gone : s.temporary t here process = l
      · rw [if_pos gone, if_pos gone]
      · rw [if_neg gone, if_neg gone, if_neg gone]
  | link aim =>
      have apart : target.location ≠ s.temporary t here process := by
        intro hat
        rcases hnode with h | ⟨m, c, h⟩ <;> simp [there, hat, obstacle] at h
      refine .inr ⟨other, aim, target, rfl, located, hnode, apart, fun l => ?_⟩
      rw [hget, if_neg apart, obstacle]

/-- What a run that was cut off leaves. -/
def shopLeftover : Location × Node := (["m.7.tmp"], .file 0o640 (Text.encode "\x7b"))

theorem isShop_leftover : IsShop (shop [shopPackage, shopLeftover]) :=
  ⟨wellFormed_of_nodes (by decide +kernel), by cbv, by cbv, by cbv⟩

theorem run_shop_of_leftover :
    (shop [shopPackage, shopLeftover]).WellFormed ∧
      (shopSync.run (shop [shopPackage, shopLeftover]) [] 7).result =
        .ok ⟨"/l", shopOutcomes⟩ ∧
      (shop [shopPackage, shopLeftover]).openText [] "/l" = .ok (["m"], shopText) ∧
      (shop [shopPackage, shopLeftover]).get?
        (shopSync.temporary (shop [shopPackage, shopLeftover]) [] 7) = some shopLeftover.2 ∧
      ∃ mode m, Manifest.parse shopText = .ok m ∧
        ∀ l, (shopSync.run (shop [shopPackage, shopLeftover]) [] 7).tree.get? l =
          if ["m"] = l then some (.file mode (Text.encode (m.apply shopOutcomes).text))
          else if ["m.7.tmp"] = l then none
          else (shop [shopPackage, shopLeftover]).get? l := by
  have walk : (shop [shopPackage, shopLeftover]).walk .create maxLinks [] ["m.7.tmp"] =
      .ok ⟨["m.7.tmp"], some shopLeftover.2⟩ := by cbv
  obtain ⟨result, -⟩ := isShop_leftover.get?_run walk rfl rfl
  have obstacle : (shop [shopPackage, shopLeftover]).get?
      (shopSync.temporary (shop [shopPackage, shopLeftover]) [] 7) = some shopLeftover.2 := by
    rw [isShop_leftover.temporary_eq]
    rfl
  obtain ⟨mode, m, -, parsed, -, ⟨same, -⟩ | ⟨-, -, hget⟩ | ⟨-, aim, target, link, -⟩⟩ :=
    Sync.run_of_obstacle isShop_leftover.wellFormed result isShop_leftover.opened obstacle
  · exact absurd same (by decide)
  · rw [isShop_leftover.place_eq, isShop_leftover.temporary_eq] at hget
    exact ⟨isShop_leftover.wellFormed, result, isShop_leftover.opened, obstacle, mode, m, parsed,
      hget⟩
  · cases link

/-- A link to the descriptor of the package. -/
def shopDiversion : Location × Node := (["m.7.tmp"], .link "a/p")

theorem isShop_diverted : IsShop (shop [shopPackage, shopDiversion]) :=
  ⟨wellFormed_of_nodes (by decide +kernel), by cbv, by cbv, by cbv⟩

/-- The run ends well, but the descriptor has the text and the permissions of the manifest, and the
manifest is a link. -/
theorem run_shop_diverted :
    (shopSync.run (shop [shopPackage, shopDiversion]) [] 7).result =
        .ok ⟨"/l", shopOutcomes⟩ ∧
      (shop [shopPackage, shopDiversion]).openText [] "/l" = .ok (["m"], shopText) ∧
      (shop [shopPackage, shopDiversion]).canonicalize [] "/l" = .ok "/m" ∧
      (shop [shopPackage, shopDiversion]).get?
        (shopSync.temporary (shop [shopPackage, shopDiversion]) [] 7) = some (.link "a/p") ∧
      (shopSync.run (shop [shopPackage, shopDiversion]) [] 7).tree.get? ["a", "p"] =
        some (.file 0o600 (Text.encode shopUpdatedText)) ∧
      (shopSync.run (shop [shopPackage, shopDiversion]) [] 7).tree.get? ["a", "p"] ≠
        (shop [shopPackage, shopDiversion]).get? ["a", "p"] ∧
      ∀ mode content,
        (shopSync.run (shop [shopPackage, shopDiversion]) [] 7).tree.get? ["m"] ≠
          some (.file mode content) := by
  have walk : (shop [shopPackage, shopDiversion]).walk .create maxLinks [] ["m.7.tmp"] =
      .ok ⟨["a", "p"], some shopPackage.2⟩ := by cbv
  obtain ⟨result, hget⟩ := isShop_diverted.get?_run walk rfl rfl
  have before : (shop [shopPackage, shopDiversion]).get? ["a", "p"] = some shopPackage.2 := rfl
  have descriptor : (shopSync.run (shop [shopPackage, shopDiversion]) [] 7).tree.get? ["a", "p"] =
      some (.file 0o600 (Text.encode shopUpdatedText)) := by
    simpa using hget ["a", "p"]
  have manifest : (shopSync.run (shop [shopPackage, shopDiversion]) [] 7).tree.get? ["m"] =
      some (.link "a/p") := hget ["m"]
  refine ⟨result, isShop_diverted.opened, isShop_diverted.canonical, ?_, descriptor, ?_,
    fun mode content => ?_⟩
  · rw [isShop_diverted.temporary_eq]
    rfl
  · rw [descriptor, before]
    simp [shopPackage]
  · rw [manifest]
    simp

end SkillMarket.Marketplace
