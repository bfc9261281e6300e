import SkillMarket.Config.Reader
import SkillMarket.Proofs.Binary64.Nearest
import SkillMarket.Proofs.FileTree.Access
import SkillMarket.Proofs.Toml.SettingsFile

/-!
# Settings that a file overrides

A settings file overrides the settings that it gives and no others: whichever these are, in whatever
order they stand and whatever else the file says, what is loaded is the default with these settings
in their places.
-/

namespace SkillMarket

open Toml (Setting SettingsFile)

/-! ## Overrides -/

/-- The settings that are overridden. -/
structure Config.Overrides where
  manifest : Option String
  descriptor : Option String
  program : Option String
  args : Option (List String)
  exclude : Option (List String)
  threshold : Option Int
deriving DecidableEq, Repr

namespace Config.Overrides

/-- The defaults with the settings that are overridden in their places. -/
def config (o : Overrides) : Config where
  marketplace.manifest := o.manifest.getD Config.default.marketplace.manifest
  marketplace.descriptor := o.descriptor.getD Config.default.marketplace.descriptor
  validation.program := o.program.getD Config.default.validation.program
  validation.args := o.args.getD Config.default.validation.args
  validation.exclude := o.exclude.getD Config.default.validation.exclude
  quality.threshold := (o.threshold.map Binary64.ofInt).getD Config.default.quality.threshold

/-- A file gives these settings, under the headers of their sections, and beside them what is not
known. -/
structure GivenBy (o : Overrides) (f : SettingsFile) : Prop where
  manifest : f.given? "marketplace" "manifest" = o.manifest.map .text
  descriptor : f.given? "marketplace" "descriptor" = o.descriptor.map .text
  program : f.given? "validation" "program" = o.program.map .text
  args : f.given? "validation" "args" = o.args.map .texts
  exclude : f.given? "validation" "exclude" = o.exclude.map .texts
  threshold : f.given? "quality" "threshold" = o.threshold.map .integer
  headers : ∀ name ∈ ["marketplace", "validation", "quality"], name ∉ f.loose.map (·.1)

/-- The pairs of a section: those that have a value. -/
def pairs (settings : List (String × Option Setting)) : List (String × Setting) :=
  settings.filterMap fun p => p.2.map (p.1, ·)

/-- A file that gives these settings and nothing else. -/
def file (o : Overrides) : SettingsFile where
  loose := []
  sections := [
    ("marketplace", pairs [("manifest", o.manifest.map .text),
      ("descriptor", o.descriptor.map .text)]),
    ("validation", pairs [("program", o.program.map .text), ("args", o.args.map .texts),
      ("exclude", o.exclude.map .texts)]),
    ("quality", pairs [("threshold", o.threshold.map .integer)])]

theorem givenBy_file (o : Overrides) : o.GivenBy o.file := by
  obtain ⟨manifest, descriptor, program, args, exclude, threshold⟩ := o
  refine ⟨?_, ?_, ?_, ?_, ?_, ?_, by simp [file]⟩
  · cases manifest <;> cases descriptor <;> rfl
  · cases manifest <;> cases descriptor <;> rfl
  · cases program <;> cases args <;> cases exclude <;> rfl
  · cases program <;> cases args <;> cases exclude <;> rfl
  · cases program <;> cases args <;> cases exclude <;> rfl
  · cases threshold <;> rfl

/-- The keys of a section are among its settings. -/
theorem keys_pairs_sublist (settings : List (String × Option Setting)) :
    ((pairs settings).map (·.1)).Sublist (settings.map (·.1)) := by
  induction settings with
  | nil => exact List.Sublist.refl _
  | cons p settings ih =>
      obtain ⟨key, value⟩ := p
      cases value with
      | none => exact ih.cons key
      | some v => exact ih.cons_cons key

theorem inRange_pairs {settings : List (String × Option Setting)}
    (h : ∀ q ∈ settings, ∀ v ∈ q.2, v.InRange) : ∀ p ∈ pairs settings, p.2.InRange := by
  intro p hp
  obtain ⟨q, hq, given⟩ := List.mem_filterMap.mp hp
  obtain ⟨v, hv, rfl⟩ := Option.map_eq_some_iff.mp given
  exact h q hq v hv

theorem wellFormed_file (o : Overrides) (range : ∀ n ∈ o.threshold, n.natAbs ≤ 2 ^ 53) :
    o.file.WellFormed where
  distinct := by simp [file]
  distinctKeys := by
    simp only [file, List.forall_mem_cons]
    exact ⟨(keys_pairs_sublist _).nodup (by simp), (keys_pairs_sublist _).nodup (by simp),
      (keys_pairs_sublist _).nodup (by simp), by simp⟩
  inRange := by
    have integer : ∀ n, o.threshold = some n → (Setting.integer n).InRange := fun n hn => by
      have := range n hn
      rw [Setting.InRange]
      omega
    simp only [file, List.nil_append, List.flatMap_cons, List.flatMap_nil, List.append_nil,
      List.forall_mem_append]
    refine ⟨inRange_pairs ?_, inRange_pairs ?_, inRange_pairs ?_⟩
    · simp [Setting.InRange]
    · simp [Setting.InRange]
    · simpa using integer

end Config.Overrides

/-! ## Sections -/

/-- The settings of a section are those that the file gives. -/
theorem sectionFields?_table {f : SettingsFile} {name : String} (h : name ∉ f.loose.map (·.1))
    (keys : List String) :
    sectionFields? keys (f.table.get? name) =
      some (keys.map fun key => (f.given? name key).map Setting.value) := by
  rw [Toml.SettingsFile.get?_table h]
  unfold SettingsFile.given?
  cases f.sections.lookup name with
  | none => rfl
  | some pairs => simp [sectionFields?, Toml.sectionTable, Toml.Table.get?_ofPairs]

/-- A setting is what is given, or its default. -/
theorem setting?_map {α β : Type} {read : Toml.Value → Option α} {give : β → Setting}
    {held : β → α} (reads : ∀ b, read (give b).value = some (held b)) (default : α)
    (given : Option β) :
    setting? read default ((given.map give).map Setting.value) =
      some ((given.map held).getD default) := by
  cases given with
  | none => rfl
  | some b => exact reads b

theorem asText?_text (s : String) : asText? (Setting.text s).value = some s := by
  simp [asText?, Setting.value]

theorem asTexts?_texts (ss : List String) : asTexts? (Setting.texts ss).value = some ss := by
  have items : asText? ∘ (fun s : String => Toml.Value.string s.toList) = pure ∘ id :=
    funext asText?_text
  simp only [asTexts?, Setting.value, List.mapM_map, items]
  exact (List.mapM_pure (f := id)).trans (congrArg some ss.map_id)

theorem asNumber?_integer (n : Int) :
    asNumber? (Setting.integer n).value = some (Binary64.ofInt n) := rfl

namespace Config

variable {o : Overrides} {f : SettingsFile}

/-- The table of a file is read as the defaults with its settings in their places. -/
theorem ofToml?_table (h : o.GivenBy f) : Config.ofToml? f.table = some o.config := by
  have headers : "marketplace" ∉ f.loose.map (·.1) ∧ "validation" ∉ f.loose.map (·.1) ∧
      "quality" ∉ f.loose.map (·.1) := by
    simpa using h.headers
  have marketplace : MarketplaceConfig.ofToml? (f.table.get? "marketplace") =
      some o.config.marketplace := by
    simp only [MarketplaceConfig.ofToml?, sectionFields?_table headers.1, List.map_cons,
      List.map_nil, h.manifest, h.descriptor, Option.bind_eq_bind, Option.bind_some,
      setting?_map asText?_text, Option.map_id_fun', id]
    rfl
  have validation : ValidationConfig.ofToml? (f.table.get? "validation") =
      some o.config.validation := by
    simp only [ValidationConfig.ofToml?, sectionFields?_table headers.2.1, List.map_cons,
      List.map_nil, h.program, h.args, h.exclude, Option.bind_eq_bind, Option.bind_some,
      setting?_map asText?_text, setting?_map asTexts?_texts, Option.map_id_fun', id]
    rfl
  have quality : QualityConfig.ofToml? (f.table.get? "quality") = some o.config.quality := by
    simp only [QualityConfig.ofToml?, sectionFields?_table headers.2.2, List.map_cons,
      List.map_nil, h.threshold, Option.bind_eq_bind, Option.bind_some,
      setting?_map asNumber?_integer]
    rfl
  simp only [Config.ofToml?, marketplace, validation, quality, Option.bind_eq_bind,
    Option.bind_some]
  rfl

theorem threshold_config {n : Int} (h : n ∈ o.threshold) :
    o.config.quality.threshold = Binary64.ofInt n := by
  have held : o.config.quality.threshold =
      (o.threshold.map Binary64.ofInt).getD Config.default.quality.threshold := rfl
  rw [held, Option.mem_def.mp h, Option.map_some, Option.getD_some]

/-- A text that gives the settings is read as the defaults with them in their places. -/
theorem parse?_eq (given : o.GivenBy f) (whole : f.WellFormed) {text : List Char}
    (written : f.Writes text) : Config.parse? (String.ofList text) = some o.config := by
  simp only [Config.parse?, String.toList_ofList, whole.parse?_eq written, Option.bind_eq_bind,
    Option.bind_some]
  exact ofToml?_table given

variable {t : FileTree} {here loc : Location} {path root : String} {mode : Nat}
  {text : String} {c : Config}

/-- A file is loaded as what its text is read as. -/
theorem load_of_stat (file : t.stat here path = .ok (loc, .file mode (Text.encode text)))
    (read : Config.parse? text = some c) : Config.load t here path = .ok c := by
  simp only [Config.load, FileTree.readText_of_stat file, read]

/-- So is the settings file of a repository. -/
theorem loadOrDefault_of_stat
    (file : t.stat here (configPath root) = .ok (loc, .file mode (Text.encode text)))
    (read : Config.parse? text = some c) : Config.loadOrDefault t here root = .ok c := by
  rw [Config.loadOrDefault, if_pos (FileTree.reaches_of_stat file), load_of_stat file read]

/-- **A file overrides the settings that it gives, and no others.** Whichever settings these are and
whatever their values, there is a file that gives them. Every such file can be written, with its
sections and their keys in any order and beside anything that is not known; and however it is
written, it is loaded as the defaults with these settings in their places, by its own path and as
the settings file of a repository. The threshold is the number that was given. -/
theorem load_of_givenBy (o : Overrides) (range : ∀ n ∈ o.threshold, n.natAbs ≤ 2 ^ 53) :
    (∃ f : SettingsFile, f.WellFormed ∧ o.GivenBy f) ∧
    (∀ f : SettingsFile, f.WellFormed → o.GivenBy f → (∃ text, f.Writes text) ∧
      ∀ text, f.Writes text → Config.parse? (String.ofList text) = some o.config ∧
        ∀ t here loc mode,
          (∀ path, FileTree.stat t here path =
              .ok (loc, .file mode (Text.encode (String.ofList text))) →
            Config.load t here path = .ok o.config) ∧
          (∀ root, FileTree.stat t here (configPath root) =
              .ok (loc, .file mode (Text.encode (String.ofList text))) →
            Config.loadOrDefault t here root = .ok o.config)) ∧
    ∀ n ∈ o.threshold,
      o.config.quality.threshold.IsFinite ∧ o.config.quality.threshold.value = n := by
  refine ⟨⟨o.file, o.wellFormed_file range, o.givenBy_file⟩, fun f whole given => ?_,
    fun n hn => ?_⟩
  · refine ⟨whole.exists_writes, fun text written => ?_⟩
    have read := parse?_eq given whole written
    exact ⟨read, fun t here loc mode =>
      ⟨fun path file => load_of_stat file read, fun root file => loadOrDefault_of_stat file read⟩⟩
  · have fits := Binary64.exact_of_le_two_pow (range n hn)
    rw [threshold_config hn]
    refine ⟨?_, fits.value_ofInt⟩
    rw [fits.ofInt_eq]
    exact .mk fits

/-- Two settings, each in its section, and a key that is not known. -/
def partialFile : SettingsFile where
  loose := []
  sections := [("quality", [("odd key", .texts ["a", "b"]), ("threshold", .integer (-7))]),
    ("marketplace", [("descriptor", .text "q\"\x01")])]

def partialOverrides : Overrides where
  manifest := none
  descriptor := some "q\"\x01"
  program := none
  args := none
  exclude := none
  threshold := some (-7)

def partialText : List Char :=
  "# any order".toList ++ '\n' :: ("[quality]".toList ++ '\n' ::
    ("\"odd key\" = [\"a\",\n\t\"b\"]".toList ++ '\n' :: ("threshold = -7".toList ++ '\n' ::
      ([] ++ '\n' :: ("[marketplace]".toList ++ '\n' ::
        ("descriptor=\"q\\\"\\u0001\"".toList ++ ['\n']))))))

section

open Toml

theorem writes_partialText : partialFile.Writes partialText := by
  have each {p : Char → Prop} [DecidablePred p] {cs : List Char} (h : cs.all (p ·) = true) :
      ∀ c ∈ cs, p c := by
    simpa using h
  have bare {name : String} (h : name ≠ "" ∧ name.toList.all isBare = true) :
      WritesName name name.toList := .bare h.1 (List.all_eq_true.mp h.2)
  have none : IsBlank [] := by simp [IsBlank]
  have one : IsBlank [' '] := by simp [IsBlank, isBlank]
  have comment : IsRemark "# any order".toList :=
    @IsRemark.comment [] " any order".toList none (each (by decide))
  have items : WritesItems ["a", "b"] "\"a\",\n\t\"b\"".toList :=
    @WritesItems.cons "a" ["b"] [] _ [] _ .nil (.mk (quotes_self (each (by decide)))) .nil
      (@WritesItems.last "b" "\n\t".toList _ [] (by simp [IsSpace])
        (.mk (quotes_self (each (by decide)))) .nil)
  have oddKey : Entry.Writes (.pair "odd key" (.texts ["a", "b"]))
      "\"odd key\" = [\"a\",\n\t\"b\"]".toList :=
    @Entry.Writes.pair _ _ _ [' '] [' '] _ (.quoted (.mk (quotes_self (each (by decide))))) one one
      (.texts items)
  have threshold : Entry.Writes (.pair "threshold" (.integer (-7))) "threshold = -7".toList :=
    @Entry.Writes.pair _ _ _ [' '] [' '] _ (bare (by decide)) one one (.integer (by decide))
  have escaped : Quotes "q\"\x01".toList "q\\\"\\u0001".toList :=
    .cons (.plain (by decide) (by decide) (by decide)) (.cons (.letter (l := '"') rfl)
      (.cons (@Escapes.digits _ 'u' "0001".toList (by decide) (each (by decide)) (by decide)) .nil))
  have descriptor : Entry.Writes (.pair "descriptor" (.text "q\"\x01"))
      "descriptor=\"q\\\"\\u0001\"".toList :=
    @Entry.Writes.pair _ _ _ [] [] _ (bare (by decide)) none none (.text (.mk escaped))
  exact .remark comment (.cons (.header (bare (by decide))) (.cons oddKey (.cons threshold
    (.remark (.blank none) (.cons (.header (bare (by decide))) (.cons descriptor .nil))))))

end

/-- A repository that holds its settings file. -/
def partialRepository : FileTree where
  nodes := [(["skillkit.toml"], .file 0o644 (Text.encode (String.ofList partialText)))]
  distinct := by simp

theorem stat_partialRepository :
    partialRepository.stat [] (configPath ".") =
      .ok (["skillkit.toml"], .file 0o644 (Text.encode (String.ofList partialText))) := by
  have short : ¬ FileTree.maxName < "skillkit.toml".utf8ByteSize := by decide
  refine FileTree.stat_of_walk ⟨by decide, by decide, by decide⟩ [".", "skillkit.toml"]
    (by decide) ?_
  simp [FileTree.walk, FileTree.get?, FileTree.find?, partialRepository, FileTree.start,
    Path.isAbsolute, short]

theorem load_partialRepository :
    ∃ c, Config.loadOrDefault partialRepository [] "." = .ok c ∧
      c.marketplace = ⟨".claude-plugin/marketplace.json", "q\"\x01"⟩ ∧ c.validation = .default ∧
      c.quality.threshold.value = (-7 : Int) := by
  have range : ∀ n ∈ partialOverrides.threshold, n.natAbs ≤ 2 ^ 53 := by
    simp [partialOverrides]
  have whole : partialFile.WellFormed := ⟨by decide, by decide, by decide⟩
  have given : partialOverrides.GivenBy partialFile :=
    ⟨rfl, rfl, rfl, rfl, rfl, rfl, by decide⟩
  obtain ⟨-, reads, number⟩ := load_of_givenBy partialOverrides range
  have loads := (reads partialFile whole given).2 partialText writes_partialText
  exact ⟨_, (loads.2 _ _ _ _).2 _ stat_partialRepository, rfl, rfl, (number (-7) rfl).2⟩

end Config

end SkillMarket
