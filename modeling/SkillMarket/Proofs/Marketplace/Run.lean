import SkillMarket.Proofs.Marketplace.Descriptor
import SkillMarket.Proofs.Marketplace.Place

/-!
# Runs

What a run comes to is said once, by `Runs`: four ways to fail and two to end well. From it follow
what a run that ended well has decided and written, and that a run that failed has changed nothing,
unless something stood in the way of the temporary file.
-/

namespace SkillMarket.Marketplace

open FileTree Json

/-! ## What is decided -/

/-- What an entry and the descriptor of its package call for. -/
inductive Sync.Decided (s : Sync) (t : FileTree) (here : Location) (e : Entry) :
    EntryOutcome → Prop
  | skipped (remote : e.source = .remote) : Decided s t here e (.skipped e.name)
  | inSync {source version : String} (place : e.source = .directory source)
      (declares : s.Declares t here source version) (same : e.version? = some version) :
      Decided s t here e (.inSync e.name version)
  | updated {source version : String} (place : e.source = .directory source)
      (declares : s.Declares t here source version) (other : e.version? ≠ some version) :
      Decided s t here e (.updated e.name e.version? version)

variable {s : Sync} {t : FileTree} {here : Location} {process : Nat}

theorem Sync.decide_eq_ok_iff {e : Entry} {outcome : EntryOutcome} :
    s.decide t here e = .ok outcome ↔ s.Decided t here e outcome := by
  unfold Sync.decide
  constructor
  · intro h
    split at h
    · next remote =>
      simp only [Except.ok.injEq] at h
      exact h ▸ .skipped remote
    · next source place =>
      simp only at h
      split at h
      · simp at h
      · next package hread =>
        split at h
        · simp at h
        · next version hversion =>
          have declares := Sync.declares_iff.mpr ⟨package, hread, hversion⟩
          split at h
          · next same =>
            simp only [Except.ok.injEq] at h
            exact h ▸ .inSync place declares same
          · next other =>
            simp only [Except.ok.injEq] at h
            exact h ▸ .updated place declares other
  · intro h
    cases h with
    | skipped remote => simp [remote]
    | inSync place declares same =>
        obtain ⟨package, hread, hversion⟩ := Sync.declares_iff.mp declares
        simp [place, hread, hversion, same]
    | updated place declares other =>
        obtain ⟨package, hread, hversion⟩ := Sync.declares_iff.mp declares
        simp [place, hread, hversion, other]

/-- All entries are decided if each of them is. -/
theorem decideAll_eq_none_iff {decide : Entry → Except SyncError EntryOutcome}
    {es : List Entry} {outcomes : List EntryOutcome} :
    decideAll decide es = (outcomes, none) ↔
      List.Forall₂ (fun e outcome => decide e = .ok outcome) es outcomes := by
  induction es generalizing outcomes with
  | nil => cases outcomes <;> simp [decideAll]
  | cons e es ih =>
      rw [decideAll]
      cases hhead : decide e with
      | error failure => cases outcomes <;> simp [hhead]
      | ok outcome =>
          cases outcomes with
          | nil => simp
          | cons outcome' outcomes =>
              rw [List.forall₂_cons, ← ih, hhead]
              simp [Prod.ext_iff, and_assoc]

theorem Sync.decideAll_eq_none_iff {es : List Entry} {outcomes : List EntryOutcome} :
    decideAll (s.decide t here) es = (outcomes, none) ↔
      List.Forall₂ (s.Decided t here) es outcomes := by
  rw [Marketplace.decideAll_eq_none_iff]
  simp only [Sync.decide_eq_ok_iff]

/-! ## What a run comes to -/

/-- The ways in which a run can end. -/
inductive Sync.Runs (s : Sync) (t : FileTree) (here : Location) (process : Nat) : SyncRun → Prop
  | unreadable {error : FileError} (opened : t.openText here s.manifestPath = .error error) :
      Runs s t here process ⟨[], .error (.unreadable s.manifestPath error), t⟩
  | malformed {loc : Location} {text : String} {defect : ManifestDefect}
      (opened : t.openText here s.manifestPath = .ok (loc, text))
      (parsed : Manifest.parse text = .error defect) :
      Runs s t here process ⟨[], .error (.malformed s.manifestPath defect), t⟩
  | undecided {loc : Location} {text : String} {m : Manifest} {seen : List EntryOutcome}
      {error : SyncError} (opened : t.openText here s.manifestPath = .ok (loc, text))
      (parsed : Manifest.parse text = .ok m)
      (failed : decideAll (s.decide t here) m.entries = (seen, some error)) :
      Runs s t here process ⟨seen, .error error, t⟩
  | unchanged {loc : Location} {text : String} {m : Manifest} {seen : List EntryOutcome}
      (opened : t.openText here s.manifestPath = .ok (loc, text))
      (parsed : Manifest.parse text = .ok m)
      (decided : List.Forall₂ (s.Decided t here) m.entries seen)
      (same : (SyncReport.mk s.manifestPath seen).updated = 0) :
      Runs s t here process ⟨seen, .ok ⟨s.manifestPath, seen⟩, t⟩
  | unwritable {loc : Location} {text : String} {m : Manifest} {seen : List EntryOutcome}
      {after : FileTree} {error : FileError}
      (opened : t.openText here s.manifestPath = .ok (loc, text))
      (parsed : Manifest.parse text = .ok m)
      (decided : List.Forall₂ (s.Decided t here) m.entries seen)
      (other : (SyncReport.mk s.manifestPath seen).updated ≠ 0)
      (saved : s.save t here process (Text.encode (m.apply seen).text) = (after, some error)) :
      Runs s t here process ⟨seen, .error (.unwritable s.manifestPath error), after⟩
  | written {loc : Location} {text : String} {m : Manifest} {seen : List EntryOutcome}
      {after : FileTree} (opened : t.openText here s.manifestPath = .ok (loc, text))
      (parsed : Manifest.parse text = .ok m)
      (decided : List.Forall₂ (s.Decided t here) m.entries seen)
      (other : (SyncReport.mk s.manifestPath seen).updated ≠ 0)
      (saved : s.save t here process (Text.encode (m.apply seen).text) = (after, none)) :
      Runs s t here process ⟨seen, .ok ⟨s.manifestPath, seen⟩, after⟩

theorem Sync.runs_run (s : Sync) (t : FileTree) (here : Location) (process : Nat) :
    s.Runs t here process (s.run t here process) := by
  unfold Sync.run
  split
  · next opened => exact .unreadable opened
  · next opened =>
    split
    · next parsed => exact .malformed opened parsed
    · next parsed =>
      split
      · next failed => exact .undecided opened parsed failed
      · next decided =>
        have decided := Sync.decideAll_eq_none_iff.mp decided
        simp only
        split
        · next same => exact .unchanged opened parsed decided same
        · next other =>
          split
          · next saved => exact .unwritable opened parsed decided other saved
          · next saved => exact .written opened parsed decided other saved

/-! ## Runs whose entries are all decided -/

/-- A report counts no update if no outcome of it is one. -/
theorem SyncReport.updated_eq_zero_iff {r : SyncReport} :
    r.updated = 0 ↔ ∀ outcome ∈ r.entries, outcome.isUpdated = false := by
  simp [SyncReport.updated, List.countP_eq_zero]

section Decided

variable {loc : Location} {text : String} {m : Manifest} {seen : List EntryOutcome}
  (opened : t.openText here s.manifestPath = .ok (loc, text))
  (parsed : Manifest.parse text = .ok m) (decided : List.Forall₂ (s.Decided t here) m.entries seen)

include opened parsed decided

/-- A run that has nothing to update leaves everything alone. -/
theorem Sync.run_of_not_updated (process : Nat)
    (same : (SyncReport.mk s.manifestPath seen).updated = 0) :
    s.run t here process = ⟨seen, .ok ⟨s.manifestPath, seen⟩, t⟩ := by
  simp [Sync.run, opened, parsed, Sync.decideAll_eq_none_iff.mpr decided, same]

/-- A run that has saved the manifest ends well. -/
theorem Sync.run_of_saved (other : (SyncReport.mk s.manifestPath seen).updated ≠ 0)
    {after : FileTree}
    (saved : s.save t here process (Text.encode (m.apply seen).text) = (after, none)) :
    s.run t here process = ⟨seen, .ok ⟨s.manifestPath, seen⟩, after⟩ := by
  rw [Sync.save] at saved
  simp [Sync.run, opened, parsed, Sync.decideAll_eq_none_iff.mpr decided, other, saved]

/-- A run that cannot save the manifest fails. -/
theorem Sync.run_of_save_failed (other : (SyncReport.mk s.manifestPath seen).updated ≠ 0)
    {after : FileTree} {error : FileError}
    (failed : s.save t here process (Text.encode (m.apply seen).text) = (after, some error)) :
    s.run t here process = ⟨seen, .error (.unwritable s.manifestPath error), after⟩ := by
  rw [Sync.save] at failed
  simp [Sync.run, opened, parsed, Sync.decideAll_eq_none_iff.mpr decided, other, failed]

/-- Where all entries are decided, nothing but the write can fail. -/
theorem Sync.run_of_decided (process : Nat) :
    (s.run t here process).seen = seen ∧
      ((s.run t here process).result = .ok ⟨s.manifestPath, seen⟩ ∨
        (∃ outcome ∈ seen, outcome.isUpdated = true) ∧
          ∃ error, (s.run t here process).result = .error (.unwritable s.manifestPath error)) := by
  by_cases same : (SyncReport.mk s.manifestPath seen).updated = 0
  · rw [Sync.run_of_not_updated opened parsed decided process same]
    exact ⟨rfl, .inl rfl⟩
  · have updated : ∃ outcome ∈ seen, outcome.isUpdated = true := by
      simpa [SyncReport.updated_eq_zero_iff] using same
    cases hsave : s.save t here process (Text.encode (m.apply seen).text) with
    | mk after failure =>
        cases failure with
        | none =>
            rw [Sync.run_of_saved opened parsed decided same hsave]
            exact ⟨rfl, .inl rfl⟩
        | some error =>
            rw [Sync.run_of_save_failed opened parsed decided same hsave]
            exact ⟨rfl, .inr ⟨updated, error, rfl⟩⟩

/-- Where nothing stands at the temporary location, a run whose entries are all decided ends well if
it can save what is to be updated, and only then. -/
theorem Sync.result_eq_ok_iff (wellFormed : t.WellFormed)
    (free : t.get? (s.temporary t here process) = none) :
    (s.run t here process).result = .ok ⟨s.manifestPath, seen⟩ ↔
      ((∃ outcome ∈ seen, outcome.isUpdated = true) → s.Writable t here process) := by
  obtain ⟨mode, hstat⟩ := openText_eq_ok_iff.mp opened
  by_cases same : (SyncReport.mk s.manifestPath seen).updated = 0
  · rw [Sync.run_of_not_updated opened parsed decided process same]
    refine iff_of_true rfl fun ⟨outcome, ho, hupdated⟩ => ?_
    simp [SyncReport.updated_eq_zero_iff.mp same outcome ho] at hupdated
  · have updated : ∃ outcome ∈ seen, outcome.isUpdated = true := by
      simpa [SyncReport.updated_eq_zero_iff] using same
    rcases Sync.save_of_free wellFormed hstat free (Text.encode (m.apply seen).text) with
      ⟨writable, done, saved, -⟩ | ⟨refused, error, failed⟩
    · rw [Sync.run_of_saved opened parsed decided same saved]
      exact iff_of_true rfl fun _ => writable
    · rw [Sync.run_of_save_failed opened parsed decided same failed]
      exact iff_of_false (by simp) fun writable => refused (writable updated)

end Decided

/-! ## A shop -/

/-- A manifest with an entry in the repository and one that is not. -/
def shopText : String :=
  "\x7b\"plugins\":[\x7b\"version\":1,\"source\":\"a\"\x7d,\x7b\"source\":2\x7d]\x7d"

def shopManifest : Manifest :=
  ⟨[("plugins", .array [
    .object [("version", .number (.integer 1)), ("source", .string "a")],
    .object [("source", .number (.integer 2))]])]⟩

/-- A tree in which a link leads to the manifest. -/
def shop (others : List (Location × Node)) : FileTree :=
  .ofNodes ([(["m"], .file 0o600 (Text.encode shopText)), (["l"], .link "m"),
    (["a"], .directory)] ++ others)

/-- The descriptor of the package in the repository. -/
def shopPackage : Location × Node :=
  (["a", "p"], .file 0o644 (Text.encode "\x7b\"version\":\"2\"\x7d"))

def shopSync : Sync := ⟨"/", "/l", "p"⟩

def shopOutcomes : List EntryOutcome := [.updated "unnamed" none "2", .skipped "unnamed"]

theorem parse_shopText : Manifest.parse shopText = .ok shopManifest := by
  cbv

/-- The manifest of the shop with the new version. -/
def shopUpdatedText : String :=
  "\x7b\n  \"plugins\": [\n    \x7b\n      \"version\": \"2\",\n      \"source\": \"a\"\n" ++
    "    \x7d,\n    \x7b\n      \"source\": 2\n    \x7d\n  ]\n\x7d\n"

theorem text_apply_shopManifest : (shopManifest.apply shopOutcomes).text = shopUpdatedText := by
  cbv

/-- Only one package is in the repository. -/
theorem source_of_mem_shopManifest {e : Entry} (he : e ∈ shopManifest.entries) {source : String}
    (place : e.source = .directory source) : source = "a" := by
  have sources : ∀ e ∈ shopManifest.entries, e.source = .directory "a" ∨ e.source = .remote := by
    decide
  rcases sources e he with inside | remote
  · simpa [place] using inside
  · simp [place] at remote

theorem parse_shopPackage :
    Package.parse "\x7b\"version\":\"2\"\x7d" = .ok ⟨[("version", .string "2")]⟩ := by
  cbv

theorem declares_shopPackage (package : t.stat [] "/a/p" = .ok (["a", "p"], shopPackage.2)) :
    shopSync.Declares t [] "a" "2" := by
  have path : shopSync.descriptorPath "a" = "/a/p" := by decide +kernel
  exact ⟨_, _, path ▸ readText_of_stat package, parse_shopPackage, by decide⟩

theorem decided_shopManifest (package : t.stat [] "/a/p" = .ok (["a", "p"], shopPackage.2)) :
    List.Forall₂ (shopSync.Decided t []) shopManifest.entries shopOutcomes := by
  refine .cons (.updated ?_ (declares_shopPackage package) (by decide))
    (.cons (.skipped (by decide)) .nil)
  decide

/-- What a run in a shop finds, as long as the package has its descriptor. -/
structure IsShop (t : FileTree) : Prop where
  wellFormed : t.WellFormed
  stat : t.stat [] "/l" = .ok (["m"], .file 0o600 (Text.encode shopText))
  canonical : t.canonicalize [] "/l" = .ok "/m"
  package : t.stat [] "/a/p" = .ok (["a", "p"], shopPackage.2)

namespace IsShop

variable (h : IsShop t)

include h

theorem opened : t.openText [] shopSync.manifestPath = .ok (["m"], shopText) :=
  openText_eq_ok_iff.mpr ⟨0o600, h.stat⟩

theorem place_eq : shopSync.place t [] = ["m"] :=
  shopSync.place_eq_of_canonicalize h.wellFormed h.canonical h.stat

theorem temporary_eq : shopSync.temporary t [] 7 = ["m.7.tmp"] := by
  rw [Sync.temporary, h.place_eq]
  decide +kernel

theorem savePath_eq : savePath t [] shopSync.manifestPath = "/m" := by
  rw [savePath, show t.canonicalize [] shopSync.manifestPath = .ok "/m" from h.canonical]

theorem decided : List.Forall₂ (shopSync.Decided t []) shopManifest.entries shopOutcomes :=
  decided_shopManifest h.package

/-- The path of the temporary file leads to where its name leads. -/
theorem located {target : Target} (walk : t.walk .create maxLinks [] ["m.7.tmp"] = .ok target) :
    t.locate [] .create (temporaryPath (savePath t [] shopSync.manifestPath) 7) = .ok target := by
  have path : temporaryPath "/m" 7 = "/m.7.tmp" := by decide +kernel
  have steps : steps "/m.7.tmp" = ["m.7.tmp"] := by decide +kernel
  rw [h.savePath_eq, path, locate, if_neg (by decide +kernel), if_neg (by decide +kernel),
    if_neg (by decide +kernel), steps, ite_self, walk]

section Written

variable {target : Target} {written : FileTree}
  (walk : t.walk .create maxLinks [] ["m.7.tmp"] = .ok target)
  (hwrite : t.writeAt (Text.encode shopUpdatedText) target = .ok written)

include walk hwrite

theorem write : t.write [] (temporaryPath (savePath t [] shopSync.manifestPath) 7)
    (Text.encode shopUpdatedText) = .ok written :=
  write_eq_ok_iff.mpr ⟨target, h.located walk, hwrite⟩

/-- What a run comes to if something is written over at the temporary location. -/
theorem get?_run (full : t.access = .full) :
    (shopSync.run t [] 7).result = .ok ⟨"/l", shopOutcomes⟩ ∧
      ∀ l, (shopSync.run t [] 7).tree.get? l =
        if ["m"] = l then
          if target.location = ["m.7.tmp"] then some (.file 0o600 (Text.encode shopUpdatedText))
          else t.get? ["m.7.tmp"]
        else if ["m.7.tmp"] = l then none
        else if target.location = l then some (.file 0o600 (Text.encode shopUpdatedText))
        else t.get? l := by
  have allowed (change : Change) : t.access.refuses change = none := by rw [full]; rfl
  obtain ⟨done, saved⟩ := Sync.exists_save_of_written h.wellFormed h.stat (h.write walk hwrite)
    (h.located walk) (allowed _) (allowed _)
  obtain ⟨target', located, -, -, -, hget⟩ := Sync.get?_saved_through h.wellFormed h.stat saved
  obtain rfl := Except.ok.inj (located.symm.trans (h.located walk))
  rw [h.place_eq, h.temporary_eq] at hget
  rw [Sync.run_of_saved h.opened parse_shopText h.decided (by decide)
    (text_apply_shopManifest ▸ saved)]
  exact ⟨rfl, hget⟩

end Written

end IsShop

theorem isShop_shop : IsShop (shop [shopPackage]) :=
  ⟨wellFormed_of_nodes (by decide +kernel), by cbv, by cbv, by cbv⟩

/-! ## Runs that fail -/

/-- A run that fails leaves the tree alone, unless the manifest could not be saved. -/
theorem Sync.tree_of_error {e : SyncError} (h : (s.run t here process).result = .error e) :
    (s.run t here process).tree = t ∨
      ∃ loc text m error, t.openText here s.manifestPath = .ok (loc, text) ∧
        Manifest.parse text = .ok m ∧ e = .unwritable s.manifestPath error ∧
        s.save t here process (Text.encode (m.apply (s.run t here process).seen).text) =
          ((s.run t here process).tree, some error) := by
  have runs := s.runs_run t here process
  generalize s.run t here process = run at h runs
  cases runs with
  | unreadable => exact .inl rfl
  | malformed => exact .inl rfl
  | undecided => exact .inl rfl
  | unchanged => simp at h
  | written => simp at h
  | unwritable opened parsed _ _ saved =>
      simp only [Except.error.injEq] at h
      exact .inr ⟨_, _, _, _, opened, parsed, h.symm, saved⟩

/-- Where nothing stands at the temporary location, a run that fails leaves the tree alone. -/
theorem Sync.tree_of_error_of_free (wellFormed : t.WellFormed) {e : SyncError}
    (h : (s.run t here process).result = .error e)
    (free : t.get? (s.temporary t here process) = none) : (s.run t here process).tree = t := by
  rcases Sync.tree_of_error h with htree | ⟨loc, text, m, error, opened, -, -, saved⟩
  · exact htree
  · obtain ⟨mode, hstat⟩ := openText_eq_ok_iff.mp opened
    exact Sync.tree_of_save_failed wellFormed hstat free saved

/-- An entry after what was decided about it: with the new version set, or as it was. -/
inductive Entry.Becomes (e : Entry) : EntryOutcome → Entry → Prop
  | kept {outcome : EntryOutcome} (same : outcome.isUpdated = false) : Becomes e outcome e
  | set {name new : String} {old : Option String} {after : Entry}
      (sets : Object.Sets "version" (.string new) e after) :
      Becomes e (.updated name old new) after

theorem Entry.becomes_apply (e : Entry) (outcome : EntryOutcome) :
    e.Becomes outcome (e.apply outcome) := by
  cases outcome with
  | updated name old new => exact .set (Object.sets_insert e "version" (.string new))
  | _ => exact .kept rfl

/-- A manifest after what was decided about its entries: `plugins` holds the entries as they have
become, and all else is as it was. -/
inductive Manifest.Becomes (m : Manifest) (outcomes : List EntryOutcome) : Manifest → Prop
  | mk {after : List Entry} {document : Object}
      (entries : List.Forall₂ (fun pair e => Entry.Becomes pair.1 pair.2 e)
        (m.entries.zip outcomes) after)
      (plugins : Object.Sets "plugins" (.array (after.map .object)) m.document document) :
      Becomes m outcomes ⟨document⟩

theorem Manifest.becomes_apply (m : Manifest) (outcomes : List EntryOutcome) :
    m.Becomes outcomes (m.apply outcomes) := by
  have entries : List.Forall₂ (fun pair e => Entry.Becomes pair.1 pair.2 e)
      (m.entries.zip outcomes) (List.zipWith Entry.apply m.entries outcomes) := by
    rw [← List.map_uncurry_zip_eq_zipWith, List.forall₂_map_right_iff, List.forall₂_same]
    exact fun pair _ => pair.1.becomes_apply pair.2
  exact .mk entries (Object.sets_insert m.document "plugins" _)

/-- A run that ends well has decided every entry, and has saved the manifest if it had to. -/
theorem Sync.tree_of_ok {report : SyncReport} (h : (s.run t here process).result = .ok report) :
    ∃ loc text m, t.openText here s.manifestPath = .ok (loc, text) ∧
      Manifest.parse text = .ok m ∧ report.manifestPath = s.manifestPath ∧
      List.Forall₂ (s.Decided t here) m.entries report.entries ∧
      (report.updated = 0 ∧ (s.run t here process).tree = t ∨
        report.updated ≠ 0 ∧ s.save t here process (Text.encode (m.apply report.entries).text) =
          ((s.run t here process).tree, none)) := by
  have runs := s.runs_run t here process
  generalize s.run t here process = run at h runs
  cases runs with
  | unreadable => simp at h
  | malformed => simp at h
  | undecided => simp at h
  | unwritable => simp at h
  | unchanged opened parsed decided same =>
      simp only [Except.ok.injEq] at h
      subst h
      exact ⟨_, _, _, opened, parsed, rfl, decided, .inl ⟨same, rfl⟩⟩
  | written opened parsed decided other saved =>
      simp only [Except.ok.injEq] at h
      subst h
      exact ⟨_, _, _, opened, parsed, rfl, decided, .inr ⟨other, saved⟩⟩

theorem Sync.tree_of_ok_of_opened {report : SyncReport} {loc : Location} {text : String}
    (h : (s.run t here process).result = .ok report)
    (opened : t.openText here s.manifestPath = .ok (loc, text)) :
    ∃ mode m, t.stat here s.manifestPath = .ok (loc, .file mode (Text.encode text)) ∧
      Manifest.parse text = .ok m ∧ List.Forall₂ (s.Decided t here) m.entries report.entries ∧
      (report.updated = 0 ∧ (s.run t here process).tree = t ∨
        report.updated ≠ 0 ∧ s.save t here process (Text.encode (m.apply report.entries).text) =
          ((s.run t here process).tree, none)) := by
  obtain ⟨loc', text', m, opened', parsed, -, rest⟩ := Sync.tree_of_ok h
  rw [opened, Except.ok.injEq, Prod.mk.injEq] at opened'
  obtain ⟨rfl, rfl⟩ := opened'
  obtain ⟨mode, hstat⟩ := openText_eq_ok_iff.mp opened
  exact ⟨mode, m, hstat, parsed, rest⟩

/-- **A run that ends well decides every entry, in order, and writes nothing else.** Where nothing
stood at the temporary location, the tree is as it was if no entry has a new version; else the one
change is that the manifest's path leads to the text of the document with those versions set. It
stands where the manifest was, if that has a canonical path. -/
theorem Sync.run_of_ok (wellFormed : t.WellFormed) {report : SyncReport}
    (hok : (s.run t here process).result = .ok report)
    (free : t.get? (s.temporary t here process) = none) :
    ∃ loc mode text m,
      t.stat here s.manifestPath = .ok (loc, .file mode (Text.encode text)) ∧
      Manifest.parse text = .ok m ∧
      m.document.get? "plugins" = some (.array (m.entries.map .object)) ∧
      report.manifestPath = s.manifestPath ∧
      List.Forall₂ (s.Decided t here) m.entries report.entries ∧
      (∀ full, t.canonicalize here s.manifestPath = .ok full → s.place t here = loc) ∧
      ((∀ outcome ∈ report.entries, outcome.isUpdated = false) ∧
          (s.run t here process).tree = t ∨
        (∃ outcome ∈ report.entries, outcome.isUpdated = true) ∧
          ∃ after, m.Becomes report.entries after ∧
            (s.run t here process).tree.openText here s.manifestPath =
              .ok (s.place t here, after.text) ∧
            ∀ l, (s.run t here process).tree.get? l =
              if s.place t here = l then some (.file mode (Text.encode after.text))
              else t.get? l) := by
  obtain ⟨loc, text, m, opened, parsed, hpath, decided, outcome⟩ := Sync.tree_of_ok hok
  obtain ⟨mode, hstat⟩ := openText_eq_ok_iff.mp opened
  refine ⟨loc, mode, text, m, hstat, parsed, (Manifest.parse_eq_ok_iff.mp parsed).2, hpath,
    decided, fun full canonical => s.place_eq_of_canonicalize wellFormed canonical hstat, ?_⟩
  rcases outcome with ⟨same, htree⟩ | ⟨other, saved⟩
  · exact .inl ⟨SyncReport.updated_eq_zero_iff.mp same, htree⟩
  · have updated : ∃ outcome ∈ report.entries, outcome.isUpdated = true := by
      simpa [SyncReport.updated_eq_zero_iff] using other
    have hget := Sync.get?_saved wellFormed hstat free saved
    have reopened := openText_eq_ok_iff.mpr ⟨mode, Sync.stat_of_saved wellFormed hstat hget⟩
    exact .inr ⟨updated, _, m.becomes_apply report.entries, reopened, hget⟩

theorem shop_free : (shop [shopPackage]).get? (shopSync.temporary (shop [shopPackage]) [] 7) =
    none := by
  rw [isShop_shop.temporary_eq]
  rfl

theorem writable_shop : shopSync.Writable (shop [shopPackage]) [] 7 := by
  unfold Sync.Writable
  rw [isShop_shop.savePath_eq, isShop_shop.place_eq]
  exact ⟨by decide +kernel, by decide +kernel, rfl, rfl, rfl⟩

theorem result_run_shop :
    (shopSync.run (shop [shopPackage]) [] 7).result = .ok ⟨"/l", shopOutcomes⟩ :=
  (Sync.result_eq_ok_iff isShop_shop.opened parse_shopText isShop_shop.decided
    isShop_shop.wellFormed shop_free).mpr fun _ => writable_shop

theorem run_shop_of_ok :
    (shop [shopPackage]).WellFormed ∧
      (shopSync.run (shop [shopPackage]) [] 7).result = .ok ⟨"/l", shopOutcomes⟩ ∧
      (shop [shopPackage]).get? (shopSync.temporary (shop [shopPackage]) [] 7) = none ∧
      ∃ loc mode text m,
        (shop [shopPackage]).stat [] shopSync.manifestPath =
          .ok (loc, .file mode (Text.encode text)) ∧
        Manifest.parse text = .ok m ∧
        List.Forall₂ (shopSync.Decided (shop [shopPackage]) []) m.entries shopOutcomes ∧
        ∃ after, m.Becomes shopOutcomes after ∧
          (shopSync.run (shop [shopPackage]) [] 7).tree.openText [] shopSync.manifestPath =
            .ok (loc, after.text) ∧
          ∀ l, (shopSync.run (shop [shopPackage]) [] 7).tree.get? l =
            if loc = l then some (.file mode (Text.encode after.text))
            else (shop [shopPackage]).get? l := by
  obtain ⟨loc, mode, text, m, hstat, parsed, -, -, decided, inPlace, written⟩ :=
    Sync.run_of_ok isShop_shop.wellFormed result_run_shop shop_free
  have updated : ¬ ∀ outcome ∈ shopOutcomes, outcome.isUpdated = false := by decide
  obtain ⟨-, after, becomes, reopened, hget⟩ := written.resolve_left fun h => updated h.1
  rw [inPlace _ isShop_shop.canonical] at reopened hget
  exact ⟨isShop_shop.wellFormed, result_run_shop, shop_free, loc, mode, text, m, hstat, parsed,
    decided, after, becomes, reopened, hget⟩

end SkillMarket.Marketplace
