import SkillMarket.Proofs.Marketplace.Run

/-!
# The entry that a run fails for

An entry is bad if its package is in the repository and its descriptor declares no version. A run
fails for the first bad entry and for no other one, after it has decided all entries before it. What
it decides about an entry depends on that entry and its descriptor alone, so other entries could
stand in the manifest.
-/

namespace SkillMarket.Marketplace

open FileTree Json

variable {s : Sync} {t other : FileTree} {here loc : Location} {m m' : Manifest}

/-! ## Bad entries -/

/-- No version but the empty one is declared by an object. -/
def Unversioned (fields : Object) : Prop :=
  ∀ version, Object.get? fields "version" = some (.string version) → version = ""

/-- The package of an entry is in the repository, and no text that its descriptor's path leads to is
an object with a version that is not empty. -/
def Sync.Bad (s : Sync) (t : FileTree) (here : Location) (e : Entry) : Prop :=
  ∃ source, e.source = .directory source ∧
    ∀ text fields, t.readText here (s.descriptorPath source) = .ok text →
      Json.parse text = .ok (.object fields) → Unversioned fields

/-- The failure that a bad entry causes: the version is missing if the descriptor is an object, and
else the descriptor is at fault. -/
inductive Sync.Blames (s : Sync) (t : FileTree) (here : Location) (e : Entry) : SyncError → Prop
  | unreadable {source : String} {error : FileError} (place : e.source = .directory source)
      (read : t.readText here (s.descriptorPath source) = .error error) :
      Blames s t here e (.descriptor e.name (s.descriptorPath source) (.file error))
  | noObject {source text : String} {defect : PackageDefect} (place : e.source = .directory source)
      (read : t.readText here (s.descriptorPath source) = .ok text)
      (parsed : ∀ fields, Json.parse text ≠ .ok (.object fields))
      (cause : Package.parse text = .error defect) :
      Blames s t here e (.descriptor e.name (s.descriptorPath source) (.package defect))
  | noVersion {source text : String} {fields : Object} (place : e.source = .directory source)
      (read : t.readText here (s.descriptorPath source) = .ok text)
      (parsed : Json.parse text = .ok (.object fields)) (unversioned : Unversioned fields) :
      Blames s t here e (.missingVersion e.name (s.descriptorPath source))

/-- A failure names the entry that caused it. -/
theorem Sync.Blames.plugin? {e : Entry} {error : SyncError} (h : s.Blames t here e error) :
    error.plugin? = some e.name := by
  cases h <;> rfl

/-- Only bad entries cause a failure. -/
theorem Sync.Blames.bad {e : Entry} {error : SyncError} (h : s.Blames t here e error) :
    s.Bad t here e := by
  cases h with
  | @unreadable source error place read =>
      refine ⟨source, place, fun text fields hread => ?_⟩
      rw [read] at hread
      simp at hread
  | @noObject source text defect place read parsed cause =>
      refine ⟨source, place, fun text' fields hread hparse => ?_⟩
      rw [read, Except.ok.injEq] at hread
      exact absurd hparse (hread ▸ parsed fields)
  | @noVersion source text fields place read parsed unversioned =>
      refine ⟨source, place, fun text' fields' hread hparse => ?_⟩
      rw [read, Except.ok.injEq] at hread
      rw [← hread, parsed, Except.ok.injEq, Value.object.injEq] at hparse
      exact hparse ▸ unversioned

theorem Package.version?_eq_some_iff {package : Package} {version : String} :
    package.version? = some version ↔
      package.fields.get? "version" = some (.string version) ∧ version ≠ "" := by
  unfold Package.version?
  cases package.fields.get? "version" with
  | none => simp
  | some value =>
      cases value with
      | string text =>
          simp only [Option.bind_some, Value.asString?, Option.filter_eq_some_iff,
            Option.some.injEq, Value.string.injEq, decide_not]
          grind
      | _ => simp [Value.asString?]

theorem unversioned_of_version? {package : Package} (h : package.version? = none) :
    Unversioned package.fields := by
  intro version hget
  by_contra nonempty
  simp [Package.version?_eq_some_iff.mpr ⟨hget, nonempty⟩] at h

theorem Package.parse_eq_error {text : String} {defect : PackageDefect}
    (h : Package.parse text = .error defect) (fields : Object) :
    Json.parse text ≠ .ok (.object fields) := by
  intro hparse
  have parsed : Package.parse text = .ok ⟨fields⟩ := Package.parse_eq_ok_iff.mpr hparse
  simp [h] at parsed

/-- A descriptor that cannot be read is at fault. -/
theorem Sync.blames_of_readPackage {e : Entry} {source : String} {defect : DescriptorDefect}
    (place : e.source = .directory source)
    (h : readPackage t here (s.descriptorPath source) = .error defect) :
    s.Blames t here e (.descriptor e.name (s.descriptorPath source) defect) := by
  unfold readPackage at h
  split at h
  · next error read =>
    simp only [Except.error.injEq] at h
    exact h ▸ .unreadable place read
  · next text read =>
    cases hpackage : Package.parse text with
    | ok package => simp [hpackage, Except.mapError] at h
    | error cause =>
        simp only [hpackage, Except.mapError, Except.error.injEq] at h
        exact h ▸ .noObject place read (Package.parse_eq_error hpackage) hpackage

/-- An entry that cannot be decided causes the failure. -/
theorem Sync.blames_of_decide {e : Entry} {error : SyncError}
    (h : s.decide t here e = .error error) : s.Blames t here e error := by
  unfold Sync.decide at h
  split at h
  · simp at h
  · next source place =>
    dsimp only at h
    split at h
    · next defect hread =>
      simp only [Except.error.injEq] at h
      exact h ▸ Sync.blames_of_readPackage place hread
    · next package hread =>
      split at h
      · next missing =>
        obtain ⟨text, read, hpackage⟩ := readPackage_eq_ok_iff.mp hread
        simp only [Except.error.injEq] at h
        exact h ▸ .noVersion place read (Package.parse_eq_ok_iff.mp hpackage)
          (unversioned_of_version? missing)
      · split at h <;> simp at h

/-- A bad entry cannot be decided. -/
theorem Sync.Bad.not_decided {e : Entry} (h : s.Bad t here e) (outcome : EntryOutcome) :
    ¬ s.Decided t here e outcome := by
  obtain ⟨source, place, bad⟩ := h
  have silent {source' version : String} (place' : e.source = .directory source')
      (declares : s.Declares t here source' version) : False := by
    rw [place, Source.directory.injEq] at place'
    subst place'
    obtain ⟨text, package, hread, hpackage, hversion⟩ := declares
    obtain ⟨hget, nonempty⟩ := Package.version?_eq_some_iff.mp hversion
    exact nonempty (bad text _ hread (Package.parse_eq_ok_iff.mp hpackage) version hget)
  intro decided
  cases decided with
  | skipped remote => simp [place] at remote
  | inSync place' declares => exact silent place' declares
  | updated place' declares => exact silent place' declares

theorem Sync.Bad.decide {e : Entry} (h : s.Bad t here e) :
    ∃ error, s.decide t here e = .error error ∧ s.Blames t here e error := by
  cases hdecide : s.decide t here e with
  | error error => exact ⟨error, rfl, Sync.blames_of_decide hdecide⟩
  | ok outcome => exact absurd (Sync.decide_eq_ok_iff.mp hdecide) (h.not_decided outcome)

theorem Sync.decided_of_not_bad {e : Entry} (h : ¬ s.Bad t here e) :
    ∃ outcome, s.Decided t here e outcome := by
  cases hdecide : s.decide t here e with
  | error error => exact absurd (Sync.blames_of_decide hdecide).bad h
  | ok outcome => exact ⟨outcome, Sync.decide_eq_ok_iff.mp hdecide⟩

/-- Entries none of which is bad are all decided. -/
theorem Sync.decided_of_none_bad {es : List Entry} (h : ∀ e ∈ es, ¬ s.Bad t here e) :
    ∃ outcomes, List.Forall₂ (s.Decided t here) es outcomes := by
  induction es with
  | nil => exact ⟨[], .nil⟩
  | cons e es ih =>
      obtain ⟨outcome, head⟩ := Sync.decided_of_not_bad (h e (by simp))
      obtain ⟨outcomes, rest⟩ := ih fun e' he => h e' (by simp [he])
      exact ⟨outcome :: outcomes, .cons head rest⟩

/-! ## Deciding up to a failure -/

/-- Entries are decided up to one that fails, whatever follows it. -/
theorem decideAll_append_of_error {decide : Entry → Except SyncError EntryOutcome}
    {before : List Entry} {outcomes : List EntryOutcome} {bad : Entry} {error : SyncError}
    (hbefore : List.Forall₂ (fun e outcome => decide e = .ok outcome) before outcomes)
    (hbad : decide bad = .error error) (after : List Entry) :
    decideAll decide (before ++ bad :: after) = (outcomes, some error) := by
  induction hbefore with
  | nil => simp [decideAll, hbad]
  | cons head _ ih => simp [decideAll, head, ih]

theorem Sync.decideAll_append_of_error {before : List Entry} {outcomes : List EntryOutcome}
    {bad : Entry} {error : SyncError}
    (hbefore : List.Forall₂ (s.Decided t here) before outcomes)
    (hbad : s.decide t here bad = .error error) (after : List Entry) :
    decideAll (s.decide t here) (before ++ bad :: after) = (outcomes, some error) :=
  Marketplace.decideAll_append_of_error
    (hbefore.imp fun _ _ h => Sync.decide_eq_ok_iff.mpr h) hbad after

/-- The first of the entries that have a property. -/
theorem exists_first {P : Entry → Prop} {es : List Entry} (h : ∃ e ∈ es, P e) :
    ∃ before e after, es = before ++ e :: after ∧ (∀ e' ∈ before, ¬ P e') ∧ P e := by
  induction es with
  | nil => simp at h
  | cons e es ih =>
      by_cases he : P e
      · exact ⟨[], e, es, rfl, by simp, he⟩
      · have later : ∃ e' ∈ es, P e' := by simpa [he] using h
        obtain ⟨before, e', after, rfl, hbefore, he'⟩ := ih later
        exact ⟨e :: before, e', after, rfl, by simpa [he] using hbefore, he'⟩

/-! ## Other entries in the manifest -/

/-- What is decided about an entry does not change with the entries of the manifest. -/
theorem Reworded.decide (h : Reworded t other loc m m') (e : Entry) :
    s.decide other here e = s.decide t here e := by
  unfold Sync.decide
  split
  · rfl
  · next source place =>
    rcases h.readText here (s.descriptorPath source) with
      same | ⟨text, text', hread, hread', hparse, hparse'⟩
    · simp only [readPackage, same]
    -- the descriptor is the manifest itself, the version of which is the same
    · have hpackage : readPackage t here (s.descriptorPath source) = .ok ⟨m.document⟩ :=
        readPackage_eq_ok_iff.mpr
          ⟨text, hread, Package.parse_eq_ok_iff.mpr (Manifest.parse_eq_ok_iff.mp hparse).1⟩
      have hpackage' : readPackage other here (s.descriptorPath source) = .ok ⟨m'.document⟩ :=
        readPackage_eq_ok_iff.mpr
          ⟨text', hread', Package.parse_eq_ok_iff.mpr (Manifest.parse_eq_ok_iff.mp hparse').1⟩
      have hversion : Package.version? ⟨m'.document⟩ = Package.version? ⟨m.document⟩ := by
        rw [Package.version?, Package.version?, h.version]
      simp only [hpackage, hpackage', hversion]

/-- The manifest that a path leads to is found in the other tree, too. -/
theorem Reworded.opened (h : Reworded t other loc m m') {path text : String}
    (opened : t.openText here path = .ok (loc, text)) :
    ∃ text', other.openText here path = .ok (loc, text') ∧ Manifest.parse text' = .ok m' := by
  obtain ⟨mode, hstat⟩ := openText_eq_ok_iff.mp opened
  obtain ⟨mode', text', hfile', hparse'⟩ := h.after
  exact ⟨text', openText_eq_ok_iff.mpr ⟨mode', stat_congr h.sameShape hstat hfile'⟩, hparse'⟩

/-! ## Runs -/

theorem Sync.run_of_undecided (process : Nat) {text : String} {seen : List EntryOutcome}
    {error : SyncError}
    (opened : t.openText here s.manifestPath = .ok (loc, text))
    (parsed : Manifest.parse text = .ok m)
    (failed : decideAll (s.decide t here) m.entries = (seen, some error)) :
    s.run t here process = ⟨seen, .error error, t⟩ := by
  simp [Sync.run, opened, parsed, failed]

/-- What is decided about an entry, also by a run on a manifest that holds no other entry. -/
structure Sync.DecidedAlone (s : Sync) (t : FileTree) (here loc : Location) (m : Manifest)
    (e : Entry) (outcome : EntryOutcome) : Prop where
  decided : s.Decided t here e outcome
  alone : ∀ other m' process, Reworded t other loc m m' → m'.entries = [e] →
    (s.run other here process).seen = [outcome]

theorem Sync.decidedAlone_iff {text : String}
    (opened : t.openText here s.manifestPath = .ok (loc, text)) {e : Entry}
    {outcome : EntryOutcome} :
    s.DecidedAlone t here loc m e outcome ↔ s.Decided t here e outcome := by
  refine ⟨fun h => h.decided, fun h => ⟨h, fun other m' process reworded single => ?_⟩⟩
  obtain ⟨text', opened', parsed'⟩ := reworded.opened opened
  have decided : s.Decided other here e outcome := by
    rw [← Sync.decide_eq_ok_iff, reworded.decide, Sync.decide_eq_ok_iff]
    exact h
  refine (Sync.run_of_decided opened' parsed' ?_ process).1
  rw [single]
  exact .cons decided .nil

/-- Entries none of which is bad are seen, all of them, and the run ends well if it can write. -/
theorem Sync.run_of_none_bad (process : Nat) {text : String}
    (opened : t.openText here s.manifestPath = .ok (loc, text))
    (parsed : Manifest.parse text = .ok m) (noneBad : ∀ e ∈ m.entries, ¬ s.Bad t here e) :
    List.Forall₂ (s.DecidedAlone t here loc m) m.entries (s.run t here process).seen ∧
      ((s.run t here process).result = .ok ⟨s.manifestPath, (s.run t here process).seen⟩ ∨
        (∃ outcome ∈ (s.run t here process).seen, outcome.isUpdated = true) ∧
          ∃ error, (s.run t here process).result = .error (.unwritable s.manifestPath error)) ∧
      (t.WellFormed → t.get? (s.temporary t here process) = none →
        ((s.run t here process).result = .ok ⟨s.manifestPath, (s.run t here process).seen⟩ ↔
          ((∃ outcome ∈ (s.run t here process).seen, outcome.isUpdated = true) →
            s.Writable t here process))) := by
  obtain ⟨outcomes, decided⟩ := Sync.decided_of_none_bad noneBad
  obtain ⟨hseen, hresult⟩ := Sync.run_of_decided opened parsed decided process
  rw [hseen]
  exact ⟨decided.imp fun _ _ h => (Sync.decidedAlone_iff opened).mpr h, hresult,
    Sync.result_eq_ok_iff opened parsed decided⟩

/-- The entries before the first bad one are seen, and the failure is that of the bad one, whatever
entries follow it. -/
theorem Sync.run_of_bad (process : Nat) {text : String}
    (opened : t.openText here s.manifestPath = .ok (loc, text))
    (parsed : Manifest.parse text = .ok m) (someBad : ∃ e ∈ m.entries, s.Bad t here e) :
    ∃ before bad after error, m.entries = before ++ bad :: after ∧
      (∀ e ∈ before, ¬ s.Bad t here e) ∧ s.Bad t here bad ∧
      (s.run t here process).result = .error error ∧ s.Blames t here bad error ∧
      List.Forall₂ (s.DecidedAlone t here loc m) before (s.run t here process).seen ∧
      ∀ other m' after' process', Reworded t other loc m m' →
        m'.entries = before ++ bad :: after' →
        (s.run other here process').result = .error error ∧
          (s.run other here process').seen = (s.run t here process).seen := by
  obtain ⟨before, bad, after, hentries, good, hbad⟩ := exists_first someBad
  obtain ⟨outcomes, decided⟩ := Sync.decided_of_none_bad good
  obtain ⟨error, hdecide, blames⟩ := hbad.decide
  have hrun : s.run t here process = ⟨outcomes, .error error, t⟩ :=
    Sync.run_of_undecided process opened parsed
      (hentries ▸ Sync.decideAll_append_of_error decided hdecide after)
  rw [hrun]
  refine ⟨before, bad, after, error, hentries, good, hbad, rfl, blames,
    decided.imp fun _ _ h => (Sync.decidedAlone_iff opened).mpr h, ?_⟩
  intro other m' after' process' reworded hentries'
  obtain ⟨text', opened', parsed'⟩ := reworded.opened opened
  have failed : decideAll (s.decide other here) m'.entries = (outcomes, some error) := by
    rw [funext reworded.decide, hentries']
    exact Sync.decideAll_append_of_error decided hdecide after'
  rw [Sync.run_of_undecided process' opened' parsed' failed]
  exact ⟨rfl, rfl⟩

/-- **A run fails for the first bad entry, and only for that one.** The manifest has to be a text,
an object and have a list of objects as `plugins`, or nothing is seen at all. Then the entries
before the first bad one are seen with what is decided about each alone, and the failure is that of
the bad entry, whatever entries follow it. Without a bad entry all of them are seen, and only the
write of the manifest can fail: with nothing at the temporary location, exactly where there is an
update and something keeps the manifest from being saved. -/
theorem Sync.run_fails_at_first_bad (s : Sync) (t : FileTree) (here : Location) (process : Nat) :
    (∀ error, t.openText here s.manifestPath = .error error →
      (s.run t here process).result = .error (.unreadable s.manifestPath error) ∧
        (s.run t here process).seen = []) ∧
    (∀ loc text, t.openText here s.manifestPath = .ok (loc, text) →
      (¬ ∃ (document : Object) (entries : List Entry), Json.parse text = .ok (.object document) ∧
        document.get? "plugins" = some (.array (entries.map .object))) →
      ∃ defect, (s.run t here process).result = .error (.malformed s.manifestPath defect) ∧
        (s.run t here process).seen = []) ∧
    ∀ (loc : Location) (text : String) (document : Object) (entries : List Entry),
      t.openText here s.manifestPath = .ok (loc, text) →
      Json.parse text = .ok (.object document) →
      document.get? "plugins" = some (.array (entries.map .object)) →
      ((∃ e ∈ entries, s.Bad t here e) →
        ∃ before bad after error, entries = before ++ bad :: after ∧
          (∀ e ∈ before, ¬ s.Bad t here e) ∧ s.Bad t here bad ∧
          (s.run t here process).result = .error error ∧ s.Blames t here bad error ∧
          error.plugin? = some bad.name ∧
          List.Forall₂ (s.DecidedAlone t here loc ⟨document⟩) before (s.run t here process).seen ∧
          ∀ other m' after' process', Reworded t other loc ⟨document⟩ m' →
            m'.entries = before ++ bad :: after' →
            (s.run other here process').result = .error error ∧
              (s.run other here process').seen = (s.run t here process).seen) ∧
      ((∀ e ∈ entries, ¬ s.Bad t here e) →
        List.Forall₂ (s.DecidedAlone t here loc ⟨document⟩) entries (s.run t here process).seen ∧
        ((s.run t here process).result = .ok ⟨s.manifestPath, (s.run t here process).seen⟩ ∨
          (∃ outcome ∈ (s.run t here process).seen, outcome.isUpdated = true) ∧
            ∃ error, (s.run t here process).result =
              .error (.unwritable s.manifestPath error)) ∧
        (t.WellFormed → t.get? (s.temporary t here process) = none →
          ((s.run t here process).result = .ok ⟨s.manifestPath, (s.run t here process).seen⟩ ↔
            ((∃ outcome ∈ (s.run t here process).seen, outcome.isUpdated = true) →
              s.Writable t here process)))) := by
  refine ⟨fun error opened => ?_, fun loc text opened noManifest => ?_, ?_⟩
  · simp [Sync.run, opened]
  · cases parsed : Manifest.parse text with
    | error defect => exact ⟨defect, by simp [Sync.run, opened, parsed]⟩
    | ok m => exact absurd ⟨_, _, Manifest.parse_eq_ok_iff.mp parsed⟩ noManifest
  · intro loc text document entries opened hjson hget
    obtain ⟨parsed, rfl⟩ := Manifest.parse_of_plugins hjson hget
    refine ⟨fun someBad => ?_, Sync.run_of_none_bad process opened parsed⟩
    obtain ⟨before, bad, after, error, hentries, good, hbad, hresult, blames, rest⟩ :=
      Sync.run_of_bad process opened parsed someBad
    exact ⟨before, bad, after, error, hentries, good, hbad, hresult, blames, blames.plugin?, rest⟩

/-- Three entries: the second is not in the repository, and the third has no descriptor. -/
def fairText : String :=
  "\x7b\"plugins\":[\x7b\"name\":\"x\",\"source\":\"a\"\x7d," ++
    "\x7b\"name\":\"y\",\"source\":2\x7d,\x7b\"name\":\"z\",\"source\":\"b\"\x7d]\x7d"

def fairEntries : List Entry :=
  [[("name", .string "x"), ("source", .string "a")],
    [("name", .string "y"), ("source", .number (.integer 2))],
    [("name", .string "z"), ("source", .string "b")]]

def fairDocument : Object := [("plugins", .array (fairEntries.map .object))]

/-- A tree with the descriptor of the first entry. -/
def fair : FileTree :=
  .ofNodes [(["l"], .file 0o600 (Text.encode fairText)), (["a"], .directory), shopPackage]

set_option maxRecDepth 2000 in
theorem json_fairText : Json.parse fairText = .ok (.object fairDocument) := by
  cbv

set_option maxRecDepth 2000 in
theorem openText_fair : fair.openText [] shopSync.manifestPath = .ok (["l"], fairText) := by
  cbv

theorem run_fair_fails_at_first_bad :
    fair.openText [] shopSync.manifestPath = .ok (["l"], fairText) ∧
      Json.parse fairText = .ok (.object fairDocument) ∧
      fairDocument.get? "plugins" = some (.array (fairEntries.map .object)) ∧
      (∃ e ∈ fairEntries, shopSync.Bad fair [] e) ∧
      (shopSync.run fair [] 7).result = .error (.descriptor "z" "/b/p" (.file .notFound)) ∧
      (shopSync.run fair [] 7).seen = [.updated "x" none "2", .skipped "y"] ∧
      ∃ before bad after error, fairEntries = before ++ bad :: after ∧
        (∀ e ∈ before, ¬ shopSync.Bad fair [] e) ∧ shopSync.Bad fair [] bad ∧
        (shopSync.run fair [] 7).result = .error error ∧ shopSync.Blames fair [] bad error ∧
        error.plugin? = some bad.name ∧
        List.Forall₂ (shopSync.DecidedAlone fair [] ["l"] ⟨fairDocument⟩) before
          (shopSync.run fair [] 7).seen := by
  have failed : decideAll (shopSync.decide fair []) fairEntries =
      ([.updated "x" none "2", .skipped "y"],
        some (.descriptor "z" "/b/p" (.file .notFound))) := by cbv
  have bad : ∃ e ∈ fairEntries, shopSync.Bad fair [] e := by
    have missing : shopSync.decide fair [] [("name", .string "z"), ("source", .string "b")] =
        .error (.descriptor "z" "/b/p" (.file .notFound)) := by cbv
    exact ⟨_, by simp [fairEntries], (Sync.blames_of_decide missing).bad⟩
  obtain ⟨parsed, entries⟩ := Manifest.parse_of_plugins json_fairText rfl
  have run := Sync.run_of_undecided 7 openText_fair parsed (entries ▸ failed)
  obtain ⟨before, bad', after, error, hentries, good, hbad, hresult, blames, plugin, alone, -⟩ :=
    ((Sync.run_fails_at_first_bad shopSync fair [] 7).2.2 _ _ _ _ openText_fair json_fairText
      rfl).1 bad
  exact ⟨openText_fair, json_fairText, rfl, bad, by rw [run], by rw [run], before, bad', after,
    error, hentries, good, hbad, hresult, blames, plugin, alone⟩

end SkillMarket.Marketplace
