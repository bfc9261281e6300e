import SkillMarket.Proofs.Marketplace.Run

/-!
# Histories

A history of a tree is a sequence of runs with changes between them, which leave the manifest and
its temporary location alone. Whatever its runs have come to, the manifest is the first one with
versions set on some entries in the repository: this is `Tracks`, which every step keeps. A run that
ends well then sets all those versions, so nothing is left of the history.
-/

namespace SkillMarket.Marketplace

open FileTree Json

variable {s : Sync} {t : FileTree} {here : Location} {process : Nat}

/-! ## Entries under edits -/

theorem Entry.Edited.source {e after : Entry} (h : e.Edited after) : after.source = e.source := by
  cases h with
  | kept => rfl
  | set version => exact e.source_setVersion version

/-- Setting a version undoes every edit before it. -/
theorem Entry.Edited.setVersion {e after : Entry} (h : e.Edited after) (version : String) :
    after.setVersion version = e.setVersion version := by
  cases h with
  | kept => rfl
  | set first => exact e.setVersion_setVersion first version

/-- An entry as it was, or with a version set if its package is in the repository. -/
structure Entry.Versioned (e after : Entry) : Prop where
  edited : e.Edited after
  remote : e.source = .remote → after = e

theorem Entry.Versioned.refl (e : Entry) : e.Versioned e := ⟨.kept, fun _ => rfl⟩

/-- What a run makes of an entry is an edit of what it was at first. -/
theorem Entry.Versioned.apply {e now : Entry} (h : e.Versioned now) {outcome : EntryOutcome}
    (decided : s.Decided t here now outcome) : e.Versioned (now.apply outcome) := by
  cases decided with
  | skipped => exact h
  | inSync => exact h
  | @updated source version place declares other =>
      refine ⟨?_, fun remote => ?_⟩
      · have whole : e.Edited (e.setVersion version) := .set version
        rwa [← h.edited.setVersion] at whole
      · rw [h.edited.source, remote] at place
        simp at place

/-- An entry with the version that its descriptor declares, if its package is in the repository. -/
inductive Sync.Synced (s : Sync) (t : FileTree) (here : Location) (e : Entry) : Entry → Prop
  | remote (remote : e.source = .remote) : Synced s t here e e
  | set {source version : String} {after : Entry} (place : e.source = .directory source)
      (declares : s.Declares t here source version)
      (sets : Object.Sets "version" (.string version) e after) : Synced s t here e after

/-- Whatever versions an entry had before, a run brings it to what is declared. -/
theorem Entry.Versioned.synced {e now : Entry} (h : e.Versioned now) {outcome : EntryOutcome}
    (decided : s.Decided t here now outcome) : s.Synced t here e (now.apply outcome) := by
  cases decided with
  | skipped remote =>
      rw [h.edited.source] at remote
      have same : now.apply (.skipped now.name) = e := h.remote remote
      rw [same]
      exact .remote remote
  | @inSync source version place declares same =>
      -- the version that is there was there at first, or some run has set it
      have hnow : e.setVersion version = now := by
        rw [← h.edited.setVersion, Entry.setVersion_of_version? same]
      have sets := Object.sets_insert e "version" (.string version)
      rw [h.edited.source] at place
      exact .set place declares (hnow ▸ sets)
  | @updated source version place declares other =>
      rw [h.edited.source] at place
      rw [Entry.apply, h.edited.setVersion]
      exact .set place declares (Object.sets_insert e "version" (.string version))

/-- What is declared leaves no choice. -/
theorem Sync.Synced.unique {e after after' : Entry} (h : s.Synced t here e after)
    (h' : s.Synced t here e after') : after' = after := by
  cases h with
  | remote remote =>
      cases h' with
      | remote => rfl
      | set place => simp [remote] at place
  | set place declares sets =>
      cases h' with
      | remote remote => simp [remote] at place
      | set place' declares' sets' =>
          rw [place, Source.directory.injEq] at place'
          subst place'
          rw [sets.eq_insert, sets'.eq_insert, declares.unique declares']

/-- An entry that is as declared is decided, and not updated. -/
theorem Sync.Synced.decided {e after : Entry} (h : s.Synced t here e after) :
    ∃ outcome, s.Decided t here e outcome := by
  cases h with
  | remote remote => exact ⟨_, .skipped remote⟩
  | @set source version after place declares sets =>
      by_cases same : e.version? = some version
      · exact ⟨_, .inSync place declares same⟩
      · exact ⟨_, .updated place declares same⟩

theorem Sync.Synced.not_updated {e : Entry} (h : s.Synced t here e e) {outcome : EntryOutcome}
    (decided : s.Decided t here e outcome) : outcome.isUpdated = false := by
  cases decided with
  | skipped => rfl
  | inSync => rfl
  | @updated source version place declares other =>
      cases h with
      | remote remote => simp [remote] at place
      | set place' declares' sets =>
          rw [place, Source.directory.injEq] at place'
          subst place'
          rw [declares.unique declares'] at sets
          have self : e = e.setVersion version := sets.eq_insert
          rw [self, Entry.version?_setVersion] at other
          exact absurd rfl other

/-! ## Manifests under edits -/

/-- A manifest with some versions set on entries in the repository. -/
def Manifest.Versioned (m now : Manifest) : Prop :=
  ∃ es, now = m.withEntries es ∧ List.Forall₂ Entry.Versioned m.entries es

theorem Manifest.WellFormed.versioned {m : Manifest} (h : m.WellFormed) : m.Versioned m :=
  ⟨m.entries, h.withEntries_entries.symm, List.forall₂_same.mpr fun e _ => .refl e⟩

theorem Manifest.Versioned.edited {m now : Manifest} (h : m.Versioned now) : m.Edited now := by
  obtain ⟨es, rfl, hes⟩ := h
  exact .mk (hes.imp fun _ _ h => h.edited)

theorem forall₂_apply {R Q : Entry → Entry → Prop} {es now : List Entry}
    {outcomes : List EntryOutcome} (hes : List.Forall₂ R es now)
    (decided : List.Forall₂ (s.Decided t here) now outcomes)
    (step : ∀ e e' outcome, R e e' → s.Decided t here e' outcome → Q e (e'.apply outcome)) :
    List.Forall₂ Q es (List.zipWith Entry.apply now outcomes) := by
  induction hes generalizing outcomes with
  | nil => exact .nil
  | cons head _ ih =>
      cases decided with
      | cons decided rest => exact .cons (step _ _ _ head decided) (ih rest)

/-- What a run makes of a manifest, seen from the first one. -/
theorem Manifest.Versioned.apply {m now : Manifest} (h : m.Versioned now)
    {outcomes : List EntryOutcome}
    (decided : List.Forall₂ (s.Decided t here) now.entries outcomes) :
    m.Versioned (now.apply outcomes) ∧
      ∃ es, now.apply outcomes = m.withEntries es ∧
        List.Forall₂ (s.Synced t here) m.entries es := by
  obtain ⟨es, rfl, hes⟩ := h
  rw [Manifest.entries_withEntries] at decided
  rw [Manifest.apply, Manifest.entries_withEntries, Manifest.withEntries_withEntries]
  exact ⟨⟨_, rfl, forall₂_apply hes decided fun _ _ _ h => h.apply⟩,
    ⟨_, rfl, forall₂_apply hes decided fun _ _ _ h => h.synced⟩⟩

/-- No edit of entries touches the version of the document. -/
theorem Manifest.Versioned.version {m now : Manifest} (h : m.Versioned now) :
    now.document.get? "version" = m.document.get? "version" := by
  obtain ⟨es, rfl, -⟩ := h
  exact Object.get?_insert_of_ne _ _ (by decide)

/-- Outcomes without an update leave a manifest as it was. -/
theorem Manifest.WellFormed.apply_of_not_updated {m : Manifest} (h : m.WellFormed)
    {outcomes : List EntryOutcome}
    (decided : List.Forall₂ (s.Decided t here) m.entries outcomes)
    (same : ∀ outcome ∈ outcomes, outcome.isUpdated = false) : m.apply outcomes = m := by
  have hentries : List.zipWith Entry.apply m.entries outcomes = m.entries := by
    generalize m.entries = es at decided
    induction decided with
    | nil => rfl
    | @cons e outcome es outcomes _ _ ih =>
        have head : e.apply outcome = e := by
          cases outcome with
          | updated => simpa [EntryOutcome.isUpdated] using same _ List.mem_cons_self
          | _ => rfl
        rw [List.zipWith_cons_cons, head, ih fun o ho => same o (List.mem_cons_of_mem _ ho)]
  rw [Manifest.apply, hentries, h.withEntries_entries]

/-! ## Histories -/

/-- The run has reported an update. -/
def SyncRun.updates (r : SyncRun) : Bool :=
  match r.result with
  | .ok report => report.updated != 0
  | .error _ => false

/-- A change spares the manifest: its path leads to the same file as before, it is saved at the
same place, and nothing is put at its temporary location. -/
structure Sync.Spares (s : Sync) (here : Location) (process : Nat) (t other : FileTree) : Prop where
  wellFormed : other.WellFormed
  manifest : other.stat here s.manifestPath = t.stat here s.manifestPath
  place : s.place other here = s.place t here
  temporary : other.get? (s.temporary t here process) = none

/-- What becomes of a tree by runs of a sync, and by changes that spare the manifest. -/
inductive Sync.History (s : Sync) (here : Location) (process : Nat) (first : FileTree) :
    FileTree → List SyncRun → Prop
  | start : History s here process first first []
  | changed {t other : FileTree} {runs : List SyncRun}
      (before : History s here process first t runs) (spares : s.Spares here process t other) :
      History s here process first other runs
  | synced {t : FileTree} {runs : List SyncRun} (before : History s here process first t runs) :
      History s here process first (s.run t here process).tree (runs ++ [s.run t here process])

section Tracks

variable {loc : Location} {text : String} {first now : Manifest} {updated : Bool}

/-- A tree in which the manifest is `now`, and was `first`, with the given text: it has that text
still, unless it was updated. It is saved where it is. -/
structure Sync.Tracks (s : Sync) (here : Location) (process : Nat) (loc : Location)
    (text : String) (first now : Manifest) (t : FileTree) (updated : Bool) : Prop where
  wellFormed : t.WellFormed
  opened : t.openText here s.manifestPath = .ok (loc, if updated then now.text else text)
  inPlace : s.place t here = loc
  free : t.get? (temporaryLocation loc process) = none
  versioned : first.Versioned now
  same : updated = false → now = first

/-- The text is read as the manifest that is tracked. -/
theorem Sync.Tracks.parsed (h : s.Tracks here process loc text first now t updated)
    (hparse : Manifest.parse text = .ok first) (hexact : first.Exact) :
    Manifest.parse (if updated then now.text else text) = .ok now := by
  cases updated with
  -- either the text was never written, or it is that of the manifest and is read back as it
  | false => rw [h.same rfl, if_neg (by decide), hparse]
  | true =>
      have whole := Manifest.wellFormed_of_parse hparse
      have edited := h.versioned.edited
      rw [if_pos rfl]
      exact (edited.wellFormed whole).parse_text (edited.exact whole hexact)

theorem Sync.Tracks.free_temporary (h : s.Tracks here process loc text first now t updated) :
    t.get? (s.temporary t here process) = none := by
  rw [Sync.temporary, h.inPlace, h.free]

/-- A change that spares the manifest keeps track of it. -/
theorem Sync.Tracks.changed (h : s.Tracks here process loc text first now t updated)
    {other : FileTree} (spares : s.Spares here process t other) :
    s.Tracks here process loc text first now other updated := by
  obtain ⟨mode, hstat⟩ := openText_eq_ok_iff.mp h.opened
  have free := spares.temporary
  rw [Sync.temporary, h.inPlace] at free
  refine { h with wellFormed := spares.wellFormed, opened := ?_, free := free,
                  inPlace := spares.place.trans h.inPlace }
  exact openText_eq_ok_iff.mpr ⟨mode, spares.manifest.trans hstat⟩

/-- A run that fails leaves the tree as it was. -/
theorem Sync.Tracks.step_of_error (h : s.Tracks here process loc text first now t updated)
    {e : SyncError} (herror : (s.run t here process).result = .error e) :
    (s.run t here process).tree = t :=
  Sync.tree_of_error_of_free h.wellFormed herror h.free_temporary

/-- A run that ends well has decided the entries as they are now, and writes what they become. -/
theorem Sync.Tracks.step_of_ok (h : s.Tracks here process loc text first now t updated)
    (hparse : Manifest.parse text = .ok first) (hexact : first.Exact) {report : SyncReport}
    (hok : (s.run t here process).result = .ok report) :
    List.Forall₂ (s.Decided t here) now.entries report.entries ∧
      s.Tracks here process loc text first (now.apply report.entries)
        (s.run t here process).tree (updated || (s.run t here process).updates) := by
  obtain ⟨mode, m, hstat, parsed, decided, outcome⟩ := Sync.tree_of_ok_of_opened hok h.opened
  rw [h.parsed hparse hexact, Except.ok.injEq] at parsed
  subst parsed
  refine ⟨decided, ?_⟩
  rcases outcome with ⟨same, htree⟩ | ⟨other, saved⟩
  -- without an update the outcomes call for no change; else the manifest was saved
  · have whole := h.versioned.edited.wellFormed (Manifest.wellFormed_of_parse hparse)
    have hnow : now.apply report.entries = now :=
      whole.apply_of_not_updated decided (SyncReport.updated_eq_zero_iff.mp same)
    have hupdates : (s.run t here process).updates = false := by
      simp [SyncRun.updates, hok, same]
    rw [hnow, htree, hupdates, Bool.or_false]
    exact h
  · have hget := Sync.get?_saved h.wellFormed hstat h.free_temporary saved
    rw [h.inPlace] at hget
    have rewritten := Rewritten.of_get? (get?_of_stat hstat) hget
    have hupdates : (s.run t here process).updates = true := by
      simp [SyncRun.updates, hok, other]
    rw [hupdates, Bool.or_true]
    refine ⟨h.wellFormed.congr rewritten.sameShape, ?_,
      (Sync.place_congr rewritten.sameShape).trans h.inPlace, ?_, (h.versioned.apply decided).1,
      by simp⟩
    · exact openText_eq_ok_iff.mpr
        ⟨mode, stat_congr rewritten.sameShape hstat rewritten.after⟩
    · rw [hget, if_neg (temporaryLocation_ne loc process).symm, h.free]

/-- A run keeps track of the manifest, whether it fails or not. -/
theorem Sync.Tracks.step (h : s.Tracks here process loc text first now t updated)
    (hparse : Manifest.parse text = .ok first) (hexact : first.Exact) :
    ∃ after, s.Tracks here process loc text first after (s.run t here process).tree
      (updated || (s.run t here process).updates) := by
  cases hresult : (s.run t here process).result with
  | error e =>
      refine ⟨now, ?_⟩
      rw [h.step_of_error hresult, SyncRun.updates, hresult, Bool.or_false]
      exact h
  | ok report => exact ⟨_, (h.step_of_ok hparse hexact hresult).2⟩

/-- A manifest that was only read is tracked. -/
theorem Sync.Tracks.start (wellFormed : t.WellFormed)
    (opened : t.openText here s.manifestPath = .ok (loc, text))
    (hparse : Manifest.parse text = .ok first) (inPlace : s.place t here = loc)
    (free : t.get? (temporaryLocation loc process) = none) :
    s.Tracks here process loc text first first t false :=
  ⟨wellFormed, by rw [if_neg (by decide), opened], inPlace, free,
    (Manifest.wellFormed_of_parse hparse).versioned, fun _ => rfl⟩

/-- A history keeps track of the manifest, through all of its steps. -/
theorem Sync.History.tracks {before : FileTree} {runs : List SyncRun}
    (history : s.History here process before t runs) (wellFormed : before.WellFormed)
    (opened : before.openText here s.manifestPath = .ok (loc, text))
    (hparse : Manifest.parse text = .ok first) (hexact : first.Exact)
    (inPlace : s.place before here = loc)
    (free : before.get? (temporaryLocation loc process) = none) :
    ∃ now, s.Tracks here process loc text first now t (runs.any (·.updates)) := by
  -- the manifest that is tracked changes with every run, so it is found anew at each step
  induction history with
  | start => exact ⟨first, .start wellFormed opened hparse inPlace free⟩
  | changed _ spares ih =>
      obtain ⟨now, tracks⟩ := ih
      exact ⟨now, tracks.changed spares⟩
  | @synced t runs _ ih =>
      obtain ⟨now, tracks⟩ := ih
      obtain ⟨after, tracks'⟩ := tracks.step hparse hexact
      refine ⟨after, ?_⟩
      simpa [List.any_append] using tracks'

/-! ## A single run -/

/-- Descriptors declare the same with the first manifest in the place of the current one. -/
theorem Sync.Tracks.reworded (h : s.Tracks here process loc text first now t updated)
    (hparse : Manifest.parse text = .ok first) (hexact : first.Exact) {alone : FileTree}
    {mode : Nat} (hfile : alone.get? loc = some (.file mode (Text.encode text)))
    (elsewhere : ∀ l, l ≠ loc → alone.get? l = t.get? l) : Reworded t alone loc now first := by
  obtain ⟨mode', hstat⟩ := openText_eq_ok_iff.mp h.opened
  exact ⟨elsewhere, ⟨mode', _, get?_of_stat hstat, h.parsed hparse hexact⟩,
    ⟨mode, text, hfile, hparse⟩, h.versioned.version.symm⟩

theorem Sync.Synced.congr {other : FileTree} {m m' : Manifest} (h : Reworded t other loc m m')
    {e after : Entry} (synced : s.Synced t here e after) : s.Synced other here e after := by
  cases synced with
  | remote remote => exact .remote remote
  | set place declares sets => exact .set place (h.declares declares) sets

/-- Entries that are brought to what is declared are decided, all of them. -/
theorem Sync.exists_decided {es after : List Entry}
    (h : List.Forall₂ (s.Synced t here) es after) :
    ∃ outcomes, List.Forall₂ (s.Decided t here) es outcomes := by
  induction h with
  | nil => exact ⟨[], .nil⟩
  | cons head _ ih =>
      obtain ⟨outcome, decided⟩ := head.decided
      obtain ⟨outcomes, rest⟩ := ih
      exact ⟨outcome :: outcomes, .cons decided rest⟩

theorem Sync.not_updated_of_synced {es : List Entry} {outcomes : List EntryOutcome}
    (h : List.Forall₂ (s.Synced t here) es es)
    (decided : List.Forall₂ (s.Decided t here) es outcomes) :
    ∀ outcome ∈ outcomes, outcome.isUpdated = false := by
  induction decided with
  | nil => simp
  | cons head _ ih =>
      rw [List.forall₂_cons] at h
      intro outcome ho
      rcases List.mem_cons.mp ho with rfl | ho
      · exact h.1.not_updated head
      · exact ih h.2 outcome ho

/-- A run on the first manifest, where entries are to be brought to what is declared: it ends well
and brings them there, or the manifest cannot be written. -/
theorem Sync.Tracks.run_of_synced (h : s.Tracks here process loc text first first t false)
    (hparse : Manifest.parse text = .ok first) (hexact : first.Exact) {es : List Entry}
    (synced : List.Forall₂ (s.Synced t here) first.entries es) :
    (∃ report text', (s.run t here process).result = .ok report ∧
        (s.run t here process).tree.openText here s.manifestPath = .ok (loc, text') ∧
        Manifest.parse text' = .ok (first.withEntries es)) ∨
      (es ≠ first.entries ∧ ¬ s.Writable t here process) := by
  have opened : t.openText here s.manifestPath = .ok (loc, text) := by simpa using h.opened
  obtain ⟨outcomes, decided⟩ := Sync.exists_decided synced
  by_cases writable : es ≠ first.entries ∧ ¬ s.Writable t here process
  · exact .inr writable
  have hresult : (s.run t here process).result = .ok ⟨s.manifestPath, outcomes⟩ := by
    refine (Sync.result_eq_ok_iff opened hparse decided h.wellFormed h.free_temporary).mpr ?_
    rintro ⟨outcome, ho, hupdated⟩
    by_contra refused
    refine writable ⟨fun same => ?_, refused⟩
    rw [same] at synced
    simp [Sync.not_updated_of_synced synced decided outcome ho] at hupdated
  have tracks := (h.step_of_ok hparse hexact hresult).2
  obtain ⟨es', hes', synced'⟩ := (h.versioned.apply decided).2
  have hunique : es' = es := by
    refine List.right_unique_forall₂' (fun e a b ha hb => ?_) synced' synced
    exact hb.unique ha
  have hnow : first.apply outcomes = first.withEntries es := by rw [hes', hunique]
  exact .inl ⟨_, _, hresult, tracks.opened, hnow ▸ tracks.parsed hparse hexact⟩

end Tracks

/-! ## The end of a history -/

/-- **The result of a sync does not depend on history.** Whatever runs and changes came before,
where the manifest is saved where it is, a run that ends well leaves the document of the first
manifest, in which the entries in the repository have the versions that their descriptors declare
then; its text is the first one if no run has reported an update. With the first manifest in place,
a single run comes to the same document, as long as it can write one that differs. -/
theorem Sync.History.synced_of_ok {before : FileTree} {runs : List SyncRun} {loc : Location}
    {text : String} {m : Manifest} {report : SyncReport} (wellFormed : before.WellFormed)
    (opened : before.openText here s.manifestPath = .ok (loc, text))
    (hparse : Manifest.parse text = .ok m) (hexact : m.Exact)
    (inPlace : s.place before here = loc)
    (free : before.get? (temporaryLocation loc process) = none)
    (history : s.History here process before t runs)
    (hok : (s.run t here process).result = .ok report) :
    ∃ es text', List.Forall₂ (s.Synced t here) m.entries es ∧
      (s.run t here process).tree.openText here s.manifestPath = .ok (loc, text') ∧
      Manifest.parse text' = .ok (m.withEntries es) ∧
      text' = (if (runs ++ [s.run t here process]).any (·.updates) then
        (m.withEntries es).text else text) ∧
      ∀ (alone : FileTree) (mode : Nat),
        alone.get? loc = some (.file mode (Text.encode text)) →
        (∀ l, l ≠ loc → alone.get? l = t.get? l) →
        (∃ report' text'', (s.run alone here process).result = .ok report' ∧
          (s.run alone here process).tree.openText here s.manifestPath = .ok (loc, text'') ∧
          Manifest.parse text'' = .ok (m.withEntries es)) ∨
        (es ≠ m.entries ∧ ¬ s.Writable alone here process) := by
  obtain ⟨now, tracks⟩ := history.tracks wellFormed opened hparse hexact inPlace free
  obtain ⟨decided, tracks'⟩ := tracks.step_of_ok hparse hexact hok
  obtain ⟨es, hes, synced⟩ := (tracks.versioned.apply decided).2
  rw [hes] at tracks'
  have hany : (runs ++ [s.run t here process]).any (·.updates) =
      (runs.any (·.updates) || (s.run t here process).updates) := by simp
  refine ⟨es, _, synced, tracks'.opened, tracks'.parsed hparse hexact, by rw [hany], ?_⟩
  -- the single run starts from the first text, and reads the same versions as the last one
  intro alone mode hfile elsewhere
  have reworded := tracks.reworded hparse hexact hfile elsewhere
  obtain ⟨mode', hstat⟩ := openText_eq_ok_iff.mp tracks.opened
  have opened' : alone.openText here s.manifestPath = .ok (loc, text) :=
    openText_eq_ok_iff.mpr ⟨mode, stat_congr reworded.sameShape hstat hfile⟩
  have free' : alone.get? (temporaryLocation loc process) = none := by
    rw [elsewhere _ (temporaryLocation_ne loc process), tracks.free]
  have start := Sync.Tracks.start (tracks.wellFormed.congr reworded.sameShape) opened' hparse
    ((Sync.place_congr reworded.sameShape).trans tracks.inPlace) free'
  exact start.run_of_synced hparse hexact (synced.imp fun _ _ h => h.congr reworded)

/-- The descriptor is put into its place after a run that has failed without it. -/
theorem history_shop_synced_of_ok :
    (shop []).WellFormed ∧ (shop []).openText [] shopSync.manifestPath = .ok (["m"], shopText) ∧
      Manifest.parse shopText = .ok shopManifest ∧ shopManifest.Exact ∧
      shopSync.place (shop []) [] = ["m"] ∧
      (shop []).get? (temporaryLocation ["m"] 7) = none ∧
      shopSync.History [] 7 (shop []) (shop [shopPackage]) [shopSync.run (shop []) [] 7] ∧
      (shopSync.run (shop [shopPackage]) [] 7).result = .ok ⟨"/l", shopOutcomes⟩ ∧
      ∃ es text',
        List.Forall₂ (shopSync.Synced (shop [shopPackage]) []) shopManifest.entries es ∧
        (shopSync.run (shop [shopPackage]) [] 7).tree.openText [] shopSync.manifestPath =
          .ok (["m"], text') ∧
        Manifest.parse text' = .ok (shopManifest.withEntries es) := by
  have wellFormed : (shop []).WellFormed := wellFormed_of_nodes (by decide +kernel)
  have stat : (shop []).stat [] "/l" = .ok (["m"], .file 0o600 (Text.encode shopText)) := by cbv
  have opened : (shop []).openText [] shopSync.manifestPath = .ok (["m"], shopText) :=
    openText_eq_ok_iff.mpr ⟨0o600, stat⟩
  have place : shopSync.place (shop []) [] = ["m"] := by cbv
  have exact : shopManifest.Exact := by decide
  have free : (shop []).get? (temporaryLocation ["m"] 7) = none := rfl
  have failed : (shopSync.run (shop []) [] 7).tree = shop [] := by cbv
  have spares : shopSync.Spares [] 7 (shopSync.run (shop []) [] 7).tree (shop [shopPackage]) := by
    rw [failed]
    refine ⟨isShop_shop.wellFormed, isShop_shop.stat.trans stat.symm,
      isShop_shop.place_eq.trans place.symm, ?_⟩
    rw [Sync.temporary, place]
    rfl
  have history : shopSync.History [] 7 (shop []) (shop [shopPackage])
      [shopSync.run (shop []) [] 7] := .changed (.synced .start) spares
  obtain ⟨es, text', synced, reopened, parsed, -⟩ := Sync.History.synced_of_ok wellFormed opened
    parse_shopText exact place free history result_run_shop
  exact ⟨wellFormed, opened, parse_shopText, exact, place, free, history, result_run_shop, es,
    text', synced, reopened, parsed⟩

end SkillMarket.Marketplace
