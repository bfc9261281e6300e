import SkillMarket.Proofs.Marketplace.Footprint
import SkillMarket.Proofs.Marketplace.History

/-!
# Running twice

After a run that ended well every version in the manifest is the one that its descriptor declares,
and a descriptor declares the same after the run, even if it is the manifest itself. So a second run
finds nothing to do, and does nothing.
-/

namespace SkillMarket.Marketplace

open FileTree Json

variable {s : Sync} {t other : FileTree} {here loc : Location} {process : Nat} {m m' : Manifest}

/-- The outcome for an entry after it was updated: it is in step. -/
def EntryOutcome.settled : EntryOutcome → EntryOutcome
  | .updated name _ new => .inSync name new
  | outcome => outcome

theorem EntryOutcome.isUpdated_settled (outcome : EntryOutcome) :
    outcome.settled.isUpdated = false := by
  cases outcome <;> rfl

/-- An entry that has become what was decided about it is in step with its descriptor. -/
theorem Sync.Decided.settled {e : Entry} {outcome : EntryOutcome}
    (h : s.Decided t here e outcome)
    (keeps : ∀ source version, s.Declares t here source version →
      s.Declares other here source version) :
    s.Decided other here (e.apply outcome) outcome.settled := by
  cases h with
  | skipped remote => exact .skipped remote
  | inSync place declares same => exact .inSync place (keeps _ _ declares) same
  | @updated source version place declares other' =>
      have hname : (e.setVersion version).name = e.name := e.name_setVersion version
      rw [← e.source_setVersion version] at place
      rw [EntryOutcome.settled, ← hname]
      exact .inSync place (keeps _ _ declares) (e.version?_setVersion version)

theorem Sync.settled_of_decided {es : List Entry} {outcomes : List EntryOutcome}
    (h : List.Forall₂ (s.Decided t here) es outcomes)
    (keeps : ∀ source version, s.Declares t here source version →
      s.Declares other here source version) :
    List.Forall₂ (s.Decided other here) (List.zipWith Entry.apply es outcomes)
      (outcomes.map EntryOutcome.settled) := by
  induction h with
  | nil => exact .nil
  | cons head _ ih => exact .cons (head.settled keeps) ih

/-- A run that ends well changes the manifest alone, and not the version of its document. -/
theorem Sync.reworded_of_ok (wellFormed : t.WellFormed) {text : String} {report : SyncReport}
    (opened : t.openText here s.manifestPath = .ok (loc, text))
    (hparse : Manifest.parse text = .ok m) (hexact : m.Exact) (inPlace : s.place t here = loc)
    (free : t.get? (temporaryLocation loc process) = none)
    (hok : (s.run t here process).result = .ok report) :
    Reworded t (s.run t here process).tree loc m (m.apply report.entries) := by
  have start := Sync.Tracks.start wellFormed opened hparse inPlace free
  obtain ⟨decided, tracks⟩ := start.step_of_ok hparse hexact hok
  obtain ⟨mode, old, new, -, rewritten⟩ :=
    Sync.rewritten_of_ok wellFormed hok opened inPlace start.free_temporary
  obtain ⟨mode', hstat⟩ := openText_eq_ok_iff.mp opened
  obtain ⟨mode'', hstat'⟩ := openText_eq_ok_iff.mp tracks.opened
  exact ⟨rewritten.elsewhere, ⟨mode', text, get?_of_stat hstat, hparse⟩,
    ⟨mode'', _, get?_of_stat hstat', tracks.parsed hparse hexact⟩, tracks.versioned.version⟩

/-- **A second run changes nothing.** Where the manifest is saved where it is, with nothing at the
temporary location and no binary64 number in it, a run that ended well is followed by one that ends
well too, as any process: it finds every entry that the first one has updated in step, and leaves
the tree as it is. -/
theorem Sync.run_run_of_ok (wellFormed : t.WellFormed) {text : String} {report : SyncReport}
    (opened : t.openText here s.manifestPath = .ok (loc, text))
    (hparse : Manifest.parse text = .ok m) (hexact : m.Exact) (inPlace : s.place t here = loc)
    (free : t.get? (temporaryLocation loc process) = none)
    (hok : (s.run t here process).result = .ok report) (process' : Nat) :
    ∃ again, (s.run (s.run t here process).tree here process').result = .ok again ∧
      again.result = .unchanged ∧ again.manifestPath = report.manifestPath ∧
      again.entries = report.entries.map EntryOutcome.settled ∧
      (s.run (s.run t here process).tree here process').seen = again.entries ∧
      (s.run (s.run t here process).tree here process').tree = (s.run t here process).tree := by
  have start := Sync.Tracks.start wellFormed opened hparse inPlace free
  obtain ⟨decided, tracks⟩ := start.step_of_ok hparse hexact hok
  have reworded := Sync.reworded_of_ok wellFormed opened hparse hexact inPlace free hok
  have settled : List.Forall₂ (s.Decided (s.run t here process).tree here)
      (m.apply report.entries).entries (report.entries.map EntryOutcome.settled) := by
    rw [Manifest.apply, Manifest.entries_withEntries]
    exact Sync.settled_of_decided decided fun source version => reworded.declares
  have same : ∀ outcome ∈ report.entries.map EntryOutcome.settled, outcome.isUpdated = false := by
    simp [EntryOutcome.isUpdated_settled]
  obtain ⟨-, -, -, -, -, hpath, -⟩ := Sync.tree_of_ok hok
  have unchanged : (SyncReport.mk s.manifestPath
      (report.entries.map EntryOutcome.settled)).updated = 0 :=
    SyncReport.updated_eq_zero_iff.mpr same
  rw [Sync.run_of_not_updated tracks.opened (tracks.parsed hparse hexact) settled process'
    unchanged]
  exact ⟨_, rfl, by rw [SyncReport.result, if_pos unchanged], hpath.symm, rfl, rfl, rfl⟩

theorem run_run_shop_of_ok :
    (shop [shopPackage]).WellFormed ∧
      (shop [shopPackage]).openText [] shopSync.manifestPath = .ok (["m"], shopText) ∧
      Manifest.parse shopText = .ok shopManifest ∧ shopManifest.Exact ∧
      shopSync.place (shop [shopPackage]) [] = ["m"] ∧
      (shop [shopPackage]).get? (temporaryLocation ["m"] 7) = none ∧
      (shopSync.run (shop [shopPackage]) [] 7).result = .ok ⟨"/l", shopOutcomes⟩ ∧
      ∃ again,
        (shopSync.run (shopSync.run (shop [shopPackage]) [] 7).tree [] 8).result = .ok again ∧
        again.result = .unchanged ∧
        again.entries = [.inSync "unnamed" "2", .skipped "unnamed"] ∧
        (shopSync.run (shopSync.run (shop [shopPackage]) [] 7).tree [] 8).tree =
          (shopSync.run (shop [shopPackage]) [] 7).tree := by
  have exact : shopManifest.Exact := by decide
  have free : (shop [shopPackage]).get? (temporaryLocation ["m"] 7) = none := rfl
  obtain ⟨again, hagain, hresult, -, hentries, -, htree⟩ :=
    Sync.run_run_of_ok isShop_shop.wellFormed isShop_shop.opened parse_shopText exact
      isShop_shop.place_eq free result_run_shop 8
  exact ⟨isShop_shop.wellFormed, isShop_shop.opened, parse_shopText, exact, isShop_shop.place_eq,
    free, result_run_shop, again, hagain, hresult, hentries, htree⟩

end SkillMarket.Marketplace
