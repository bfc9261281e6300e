import SkillMarket.Proofs.FileTree.SamePath
import SkillMarket.Proofs.Marketplace.Agreement
import SkillMarket.Proofs.Marketplace.History

/-!
# The repository of a manifest

The root of a repository is found again from the path of its manifest. It may be another text, but
for the same path; so descriptors are found in the same places, and the run of a repository and the
run of its manifest look the same and leave the same tree.
-/

namespace SkillMarket.Marketplace

open FileTree

/-! ## The root -/

/-- The directory of a manifest, if it is another one than the plugin directory. -/
theorem parts_repositoryRoot {path name : String} {before : List Path.Part}
    (h : Path.parts path = before ++ [.name name])
    (other : before.getLast? ≠ some (.name pluginDirectory)) :
    Path.parts (repositoryRoot path) = before := by
  obtain ⟨parent, hparent, hparts⟩ := Path.exists_parent?_eq h
  have notPlugin : Path.fileName? parent ≠ some pluginDirectory := by
    rwa [ne_eq, Path.fileName?_eq_some_iff, hparts]
  rw [repositoryRoot, hparent, Option.getD_some, if_neg notPlugin, hparts]

/-- The directory above the plugin directory. -/
theorem parts_repositoryRoot_plugin {path name : String} {before : List Path.Part}
    (h : Path.parts path = before ++ [.name pluginDirectory] ++ [.name name]) :
    Path.parts (repositoryRoot path) = before := by
  obtain ⟨parent, hparent, hparts⟩ := Path.exists_parent?_eq h
  obtain ⟨above, habove, hbefore⟩ := Path.exists_parent?_eq hparts
  have plugin : Path.fileName? parent = some pluginDirectory := by
    rw [Path.fileName?_eq_some_iff, hparts, List.getLast?_concat]
  rw [repositoryRoot, hparent, Option.getD_some, if_pos plugin, habove, Option.getD_some, hbefore]

theorem parts_manifestPath (root : String) :
    Path.parts (Sync.new root).manifestPath =
      Path.parts root ++ [.name pluginDirectory] ++ [.name "marketplace.json"] := by
  have manifest : Path.parts MarketplaceConfig.default.manifest =
      [.name pluginDirectory, .name "marketplace.json"] := by decide +kernel
  have leading : Path.leading MarketplaceConfig.default.manifest.toList = [] := by decide +kernel
  have joined := Path.parts_join_of_leading leading root
  rw [manifest] at joined
  rw [List.append_assoc]
  exact joined

/-- The root of a repository is found again from the path of its manifest. -/
theorem parts_repositoryRoot_manifestPath (root : String) :
    Path.parts (repositoryRoot (Sync.new root).manifestPath) = Path.parts root :=
  parts_repositoryRoot_plugin (parts_manifestPath root)

theorem Sync.root_ofManifest (path : String) :
    (Sync.ofManifest path).root = repositoryRoot path := by
  rw [Sync.ofManifest, Sync.withManifestPath, Sync.new, Sync.ofConfig]

theorem Sync.manifestPath_ofManifest (path : String) :
    (Sync.ofManifest path).manifestPath = path := by
  rw [Sync.ofManifest, Sync.withManifestPath]

theorem Sync.descriptor_ofManifest (path root : String) :
    (Sync.ofManifest path).descriptor = (Sync.new root).descriptor := by
  rw [Sync.ofManifest, Sync.withManifestPath, Sync.new, Sync.ofConfig, Sync.new, Sync.ofConfig]

/-! ## Descriptors -/

variable {s s' : Sync} {t : FileTree} {here : Location} {process : Nat}

/-- No path of a descriptor is too long. -/
def Sync.InLimit (s : Sync) (t : FileTree) (here : Location) : Prop :=
  ∀ loc text m, t.openText here s.manifestPath = .ok (loc, text) →
    Manifest.parse text = .ok m → ∀ e ∈ m.entries, ∀ source, e.source = .directory source →
      (s.descriptorPath source).utf8ByteSize < maxPath

/-- The name of a descriptor is one name. -/
structure Sync.Named (s : Sync) : Prop where
  noSlash : '/' ∉ s.descriptor.toList
  counts : Path.counts s.descriptor.toList = true

theorem Sync.named_new (root : String) : (Sync.new root).Named where
  noSlash := show '/' ∉ MarketplaceConfig.default.descriptor.toList by decide
  counts := show Path.counts MarketplaceConfig.default.descriptor.toList = true by decide

/-- The same descriptors are read from two texts for the same root. -/
theorem Sync.declared_eq_of_parts_eq {source : String}
    (root : Path.parts s'.root = Path.parts s.root) (descriptor : s'.descriptor = s.descriptor)
    (named : s.Named) (short : (s.descriptorPath source).utf8ByteSize < maxPath)
    (short' : (s'.descriptorPath source).utf8ByteSize < maxPath) :
    s'.declared t here source = s.declared t here source := by
  have parts : Path.parts (s'.descriptorPath source) = Path.parts (s.descriptorPath source) := by
    rw [Sync.descriptorPath, Sync.descriptorPath, descriptor]
    exact Path.parts_join_congr (Path.parts_join_congr root source) s.descriptor
  have ends (base : String) : EndsInName (Path.join base s.descriptor) :=
    endsInName_join base named.noSlash named.counts
  have located : t.locate here .follow (s'.descriptorPath source) =
      t.locate here .follow (s.descriptorPath source) := by
    refine locate_eq_of_parts_eq parts ?_ (ends _) short' short here
    rw [Sync.descriptorPath, descriptor]
    exact ends _
  unfold Sync.declared readPackage readText openText openFile stat
  rw [located]

/-! ## Runs -/

/-- **The run of a repository and the run of its manifest agree.** The root of a repository is found
again from the path of its manifest, as a path; so the run of the manifest sees the same, ends in
the same way and leaves the same tree, whatever the tree, if no path of a descriptor is too long.
The same root is found from every file in a plugin directory, and every other directory is the root
of its files. -/
theorem Sync.ofManifest_agrees :
    (∀ root, Path.same (repositoryRoot (Sync.new root).manifestPath) root = true) ∧
    (∀ root t here process, (Sync.new root).InLimit t here →
      (Sync.ofManifest (Sync.new root).manifestPath).InLimit t here →
      ((Sync.new root).run t here process).Alike
          ((Sync.ofManifest (Sync.new root).manifestPath).run t here process) ∧
        ((Sync.ofManifest (Sync.new root).manifestPath).run t here process).tree =
          ((Sync.new root).run t here process).tree) ∧
    (∀ path file name, Path.IsOne file name →
      Path.same (repositoryRoot (Path.join (Path.join path pluginDirectory) file)) path = true) ∧
    (∀ path directory file name called, Path.IsOne directory called → called ≠ pluginDirectory →
      Path.IsOne file name →
      Path.same (repositoryRoot (Path.join (Path.join path directory) file))
        (Path.join path directory) = true) := by
  refine ⟨fun root => ?_, fun root t here process short short' => ?_, fun path file name one => ?_,
    fun path directory file name called oneDirectory other one => ?_⟩
  · exact Path.same_iff.mpr (parts_repositoryRoot_manifestPath root)
  · have samePath := Sync.manifestPath_ofManifest (Sync.new root).manifestPath
    have sameDescriptor := Sync.descriptor_ofManifest (Sync.new root).manifestPath root
    have sameRoot : Path.parts (Sync.ofManifest (Sync.new root).manifestPath).root =
        Path.parts (Sync.new root).root := by
      rw [Sync.root_ofManifest, parts_repositoryRoot_manifestPath, Sync.new, Sync.ofConfig]
    have named := Sync.named_new root
    refine Sync.run_alike_of_declared samePath fun loc text m opened parsed e he source place => ?_
    exact Sync.declared_eq_of_parts_eq sameRoot sameDescriptor named
      (short loc text m opened parsed e he source place)
      (short' loc text m (samePath ▸ opened) parsed e he source place)
  · have plugin : Path.IsOne pluginDirectory pluginDirectory := by decide +kernel
    have whole := one.parts_join (Path.join path pluginDirectory)
    rw [plugin.parts_join] at whole
    exact Path.same_iff.mpr (parts_repositoryRoot_plugin whole)
  · refine Path.same_iff.mpr (parts_repositoryRoot (one.parts_join _) ?_)
    rw [oneDirectory.parts_join, List.getLast?_concat]
    simpa using other

/-- The manifest and the package of the shop, where a repository has them. -/
def depot : FileTree :=
  .ofNodes [([".claude-plugin"], .directory),
    ([".claude-plugin", "marketplace.json"], .file 0o600 (Text.encode shopText)),
    (["a"], .directory),
    (["a", "package.json"], .file 0o644 (Text.encode "\x7b\"version\":\"2\"\x7d"))]

theorem openText_depot : depot.openText [] (Sync.new "./").manifestPath =
    .ok ([".claude-plugin", "marketplace.json"], shopText) := by
  have isPath : IsPath (Sync.new "./").manifestPath :=
    ⟨by decide +kernel, by decide +kernel, by decide +kernel⟩
  have names : steps (Sync.new "./").manifestPath =
      [".", ".claude-plugin", "marketplace.json"] := by decide +kernel
  have relative : start [] (Sync.new "./").manifestPath = [] := by decide +kernel
  refine openText_eq_ok_iff.mpr ⟨0o600, stat_eq_ok_iff.mpr (locate_eq_ok_iff.mpr ⟨isPath, ?_⟩)⟩
  have directory : depot.get? [".claude-plugin"] = some .directory := by decide +kernel
  have file : depot.get? [".claude-plugin", "marketplace.json"] =
      some (.file 0o600 (Text.encode shopText)) := by decide +kernel
  have outer : IsName ".claude-plugin" := ⟨by decide, by decide, by decide, by decide +kernel⟩
  have inner : IsName "marketplace.json" := ⟨by decide, by decide, by decide, by decide +kernel⟩
  rw [names, relative, ← file]
  exact .stay rfl (.inr rfl) (.entered rfl outer (by simp) directory (by simp)
    (.entered directory inner (by simp) file (by simp) .done))

theorem inLimit_depot {s : Sync} (path : s.manifestPath = (Sync.new "./").manifestPath)
    (short : (s.descriptorPath "a").utf8ByteSize < maxPath) : s.InLimit depot [] := by
  intro loc text m opened parsed e he source place
  rw [path, openText_depot, Except.ok.injEq, Prod.mk.injEq] at opened
  have whole : Manifest.parse shopText = .ok shopManifest := by cbv
  rw [← opened.2, whole, Except.ok.injEq] at parsed
  rwa [source_of_mem_shopManifest (parsed ▸ he) place]

theorem run_depot_agrees :
    (Sync.new "./").InLimit depot [] ∧
      (Sync.ofManifest (Sync.new "./").manifestPath).InLimit depot [] ∧
      ((Sync.new "./").run depot [] 7).Alike
        ((Sync.ofManifest (Sync.new "./").manifestPath).run depot [] 7) ∧
      Path.IsOne "m/." "m" ∧ Path.IsOne "d" "d" ∧ "d" ≠ pluginDirectory ∧
      Path.same (repositoryRoot (Path.join (Path.join ".." pluginDirectory) "m/.")) ".." = true ∧
      Path.same (repositoryRoot (Path.join (Path.join ".." "d") "m/.")) (Path.join ".." "d") =
        true := by
  obtain ⟨-, runs, plugin, directory⟩ := Sync.ofManifest_agrees
  have short : (Sync.new "./").InLimit depot [] := inLimit_depot rfl (by decide +kernel)
  have short' : (Sync.ofManifest (Sync.new "./").manifestPath).InLimit depot [] :=
    inLimit_depot (Sync.manifestPath_ofManifest _) (by decide +kernel)
  have file : Path.IsOne "m/." "m" := by decide +kernel
  have other : Path.IsOne "d" "d" := by decide +kernel
  have apart : "d" ≠ pluginDirectory := by decide
  exact ⟨short, short', (runs "./" depot [] 7 short short').1, file, other, apart,
    plugin ".." "m/." "m" file, directory ".." "d" "m/." "m" "d" other apart file⟩

end SkillMarket.Marketplace
