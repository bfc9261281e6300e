import Mathlib.Data.List.Forall2
import SkillMarket.Proofs.Marketplace.Place

/-!
# Runs that look the same

A run sees of an entry its name, its source and its version, and of a descriptor the version that it
declares or the kind of failure that it is. Where two runs see the same, they decide the same: the
outcomes are equal, and failures are of the same kind and about the same entry.
-/

namespace SkillMarket.Marketplace

/-! ## What a run sees -/

/-- What a run sees of an entry. -/
structure EntryView where
  name : String
  source : Source
  version? : Option String
deriving DecidableEq

def Entry.view (e : Entry) : EntryView := ⟨e.name, e.source, e.version?⟩

/-- A run sees the texts of an entry, and nothing else. -/
theorem Entry.view_of_texts {e e' : Entry}
    (texts : ∀ key, (Json.Object.get? e' key).bind Json.Value.asString? =
      (Json.Object.get? e key).bind Json.Value.asString?) : e'.view = e.view := by
  rw [Entry.view, Entry.view, Entry.name, Entry.name, Entry.version?, Entry.version?, Entry.source,
    Entry.source, Source.ofValue, Source.ofValue, texts, texts, texts]

/-- The kinds of failures. -/
inductive FailureKind where
  | unreadable
  | malformed
  | descriptor
  | missingVersion
  | unwritable
deriving DecidableEq

def SyncError.kind : SyncError → FailureKind
  | .unreadable .. => .unreadable
  | .malformed .. => .malformed
  | .descriptor .. => .descriptor
  | .missingVersion .. => .missingVersion
  | .unwritable .. => .unwritable

/-- The kind of a failure, and the entry that it is about. -/
def SyncError.blame (error : SyncError) : FailureKind × Option String := (error.kind, error.plugin?)

/-- The version that the descriptor of the package at a source declares, or the kind of failure that
the descriptor causes. -/
def Sync.declared (s : Sync) (t : FileTree) (here : Location) (source : String) :
    Except FailureKind String :=
  match readPackage t here (s.descriptorPath source) with
  | .error _ => .error .descriptor
  | .ok package =>
    match package.version? with
    | none => .error .missingVersion
    | some version => .ok version

/-! ## Deciding from what is seen -/

/-- What becomes of an entry that is seen as the view says, given what descriptors declare. -/
def EntryView.decide (view : EntryView) (declared : String → Except FailureKind String) :
    Except (FailureKind × Option String) EntryOutcome :=
  match view.source with
  | .remote => .ok (.skipped view.name)
  | .directory source =>
    match declared source with
    | .error kind => .error (kind, some view.name)
    | .ok version =>
      if view.version? = some version then .ok (.inSync view.name version)
      else .ok (.updated view.name view.version? version)

variable {s s' : Sync} {t t' : FileTree} {here here' : Location} {process process' : Nat}

/-- **An entry is decided by what is seen of it.** -/
theorem Sync.mapError_decide (s : Sync) (t : FileTree) (here : Location) (e : Entry) :
    (s.decide t here e).mapError SyncError.blame = e.view.decide (s.declared t here) := by
  unfold Sync.decide EntryView.decide Sync.declared Entry.view
  cases e.source with
  | remote => rfl
  | directory source =>
      dsimp only
      cases readPackage t here (s.descriptorPath source) with
      | error defect => rfl
      | ok package =>
          dsimp only
          cases package.version? with
          | none => rfl
          | some version =>
              dsimp only
              split <;> rfl

/-- Entries that are seen in the same way are decided in the same way, if descriptors declare the
same. -/
theorem Sync.mapError_decide_congr {e e' : Entry} (view : e'.view = e.view)
    (declared : ∀ source, e.source = .directory source →
      s'.declared t' here' source = s.declared t here source) :
    (s'.decide t' here' e').mapError SyncError.blame =
      (s.decide t here e).mapError SyncError.blame := by
  rw [Sync.mapError_decide, Sync.mapError_decide, view]
  unfold EntryView.decide
  cases hsource : e.source with
  | remote => simp [Entry.view, hsource]
  | directory source => simp [Entry.view, hsource, declared source hsource]

section DecideAll

variable {decide decide' : Entry → Except SyncError EntryOutcome}

/-- Entries that are decided in the same way one by one are decided in the same way in order. -/
theorem decideAll_alike {es es' : List Entry}
    (h : List.Forall₂ (fun e e' => (decide' e').mapError SyncError.blame =
      (decide e).mapError SyncError.blame) es es') :
    (decideAll decide' es').1 = (decideAll decide es).1 ∧
      (decideAll decide' es').2.map SyncError.blame =
        (decideAll decide es).2.map SyncError.blame := by
  induction h with
  | nil => exact ⟨rfl, rfl⟩
  | @cons e e' es es' head _ ih =>
      rw [decideAll, decideAll]
      cases hdecide : decide e with
      | error error =>
          cases hdecide' : decide' e' with
          | ok outcome => simp [hdecide, hdecide', Except.mapError] at head
          | error error' =>
              rw [hdecide, hdecide'] at head
              exact ⟨rfl, congrArg some (Except.error.inj head)⟩
      | ok outcome =>
          cases hdecide' : decide' e' with
          | error error => simp [hdecide, hdecide', Except.mapError] at head
          | ok outcome' =>
              rw [hdecide, hdecide'] at head
              have same : outcome' = outcome := Except.ok.inj head
              exact ⟨congrArg₂ List.cons same ih.1, ih.2⟩

end DecideAll

/-! ## Runs -/

/-- Two runs that look the same: the same outcomes are seen, and the end is the same report, or a
failure of the same kind about the same entry. -/
structure SyncRun.Alike (a b : SyncRun) : Prop where
  seen : b.seen = a.seen
  result : b.result.mapError SyncError.blame = a.result.mapError SyncError.blame

/-- A run that looks like one that ends well ends well, with the same report. -/
theorem SyncRun.Alike.ok {a b : SyncRun} (h : a.Alike b) {report : SyncReport}
    (hok : a.result = .ok report) : b.result = .ok report := by
  have result := h.result
  rw [hok] at result
  cases hresult : b.result with
  | error e => simp [hresult, Except.mapError] at result
  | ok report' =>
      rw [hresult] at result
      exact congrArg Except.ok (Except.ok.inj result)

/-- The end of a run on a manifest of which the entries were decided, given how it is saved. -/
def Sync.conclude (s : Sync) (t : FileTree) (save : ByteArray → FileTree × Option FileError)
    (m : Manifest) (decided : List EntryOutcome × Option SyncError) : SyncRun :=
  match decided with
  | (seen, some error) => ⟨seen, .error error, t⟩
  | (seen, none) =>
    if (SyncReport.mk s.manifestPath seen).updated = 0 then ⟨seen, .ok ⟨s.manifestPath, seen⟩, t⟩
    else
      match save (Text.encode (m.apply seen).text) with
      | (after, some error) => ⟨seen, .error (.unwritable s.manifestPath error), after⟩
      | (after, none) => ⟨seen, .ok ⟨s.manifestPath, seen⟩, after⟩

theorem Sync.save_eq_of_path (path : s'.manifestPath = s.manifestPath) :
    s'.save t here process = s.save t here process := by
  unfold Sync.save
  rw [path]

theorem Sync.run_eq_conclude (process : Nat) {loc : Location} {text : String} {m : Manifest}
    (opened : t.openText here s.manifestPath = .ok (loc, text))
    (parsed : Manifest.parse text = .ok m) :
    s.run t here process =
      s.conclude t (s.save t here process) m (decideAll (s.decide t here) m.entries) := by
  rcases hdecided : decideAll (s.decide t here) m.entries with ⟨seen, error?⟩
  cases error? with
  | some error => simp [Sync.run, Sync.conclude, opened, parsed, hdecided]
  | none =>
      by_cases same : (SyncReport.mk s.manifestPath seen).updated = 0
      · simp [Sync.run, Sync.conclude, opened, parsed, hdecided, same]
      · rcases hsave : s.save t here process (Text.encode (m.apply seen).text) with
          ⟨after, error?⟩
        have hreplace := hsave
        rw [Sync.save] at hreplace
        cases error? <;>
          simp [Sync.run, Sync.conclude, opened, parsed, hdecided, same, hsave, hreplace]

variable {m m' : Manifest} {decided decided' : List EntryOutcome × Option SyncError}
  {save save' : ByteArray → FileTree × Option FileError}

/-- What is decided in the same way ends in the same way, if both manifests can be saved or neither
can. -/
theorem Sync.conclude_alike (path : s'.manifestPath = s.manifestPath)
    (seen : decided'.1 = decided.1)
    (failure : decided'.2.map SyncError.blame = decided.2.map SyncError.blame)
    (write : (∃ outcome ∈ decided.1, outcome.isUpdated = true) →
      (save' (Text.encode (m'.apply decided.1).text)).2.isSome =
        (save (Text.encode (m.apply decided.1).text)).2.isSome) :
    (s.conclude t save m decided).Alike (s'.conclude t' save' m' decided') := by
  obtain ⟨outcomes, error?⟩ := decided
  obtain ⟨outcomes', error?'⟩ := decided'
  obtain rfl : outcomes' = outcomes := seen
  cases error? with
  | some error =>
      obtain ⟨error', rfl, same⟩ := Option.map_eq_some_iff.mp failure
      exact ⟨rfl, congrArg Except.error same⟩
  | none =>
      obtain rfl : error?' = none := by simpa using failure
      simp only [Sync.conclude, path]
      split
      · exact ⟨rfl, rfl⟩
      · next other =>
        have write := write (by simpa [SyncReport.updated, List.countP_eq_zero] using other)
        dsimp only at write
        generalize save _ = saved at write
        generalize save' _ = saved' at write
        obtain ⟨after, _ | error⟩ := saved <;> obtain ⟨after', _ | error'⟩ := saved'
        · exact ⟨rfl, rfl⟩
        · simp at write
        · simp at write
        · exact ⟨rfl, rfl⟩

/-- What a run leaves is the tree as it was, or with the manifest saved. -/
theorem Sync.tree_conclude (s : Sync) (t : FileTree)
    (save : ByteArray → FileTree × Option FileError) (m : Manifest)
    (decided : List EntryOutcome × Option SyncError) :
    (s.conclude t save m decided).tree =
      if decided.2.map SyncError.blame = none ∧ decided.1.countP (·.isUpdated) ≠ 0 then
        (save (Text.encode (m.apply decided.1).text)).1
      else t := by
  obtain ⟨seen, _ | error⟩ := decided
  · by_cases same : seen.countP (·.isUpdated) = 0
    · simp only [Sync.conclude, SyncReport.updated, same, ne_eq, not_true, and_false, if_true,
        if_false]
    · simp only [Sync.conclude, SyncReport.updated, same, Option.map_none, ne_eq, not_false_eq_true,
        and_true, if_true, if_false]
      generalize save _ = saved
      obtain ⟨after, _ | error⟩ := saved <;> rfl
  · simp [Sync.conclude]

/-- Two runs on one manifest look the same and leave the same tree, if descriptors declare the
same. -/
theorem Sync.run_alike_of_declared (path : s'.manifestPath = s.manifestPath)
    (declared : ∀ loc text m, t.openText here s.manifestPath = .ok (loc, text) →
      Manifest.parse text = .ok m → ∀ e ∈ m.entries, ∀ source, e.source = .directory source →
        s'.declared t here source = s.declared t here source) :
    (s.run t here process).Alike (s'.run t here process) ∧
      (s'.run t here process).tree = (s.run t here process).tree := by
  cases opened : t.openText here s.manifestPath with
  | error error =>
      simp only [Sync.run, opened, path, and_true]
      exact ⟨rfl, rfl⟩
  | ok file =>
      obtain ⟨loc, text⟩ := file
      cases parsed : Manifest.parse text with
      | error defect =>
          simp only [Sync.run, opened, parsed, path, and_true]
          exact ⟨rfl, rfl⟩
      | ok m =>
          have opened' := path.symm ▸ opened
          obtain ⟨seen, failure⟩ := decideAll_alike (List.forall₂_same.mpr fun e he =>
            Sync.mapError_decide_congr rfl (declared loc text m opened parsed e he))
          rw [Sync.run_eq_conclude process opened parsed,
            Sync.run_eq_conclude process opened' parsed, Sync.tree_conclude, Sync.tree_conclude,
            seen, failure, Sync.save_eq_of_path path]
          exact ⟨Sync.conclude_alike path seen failure fun _ => rfl, rfl⟩

end SkillMarket.Marketplace
