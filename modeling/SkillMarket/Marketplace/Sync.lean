import SkillMarket.Config.Basic
import SkillMarket.FileTree.Access
import SkillMarket.Marketplace.Manifest
import SkillMarket.Marketplace.Package

/-!
Copying package versions into the manifest.

Each entry is decided on its own, in order; the first one that cannot be decided ends the run, and
nothing is written. If some entry takes a new version, the manifest is written as a whole: into a
file beside it first, which then takes its permissions and its place.
-/

namespace SkillMarket.Marketplace

/-! ## Outcomes and failures -/

/-- What was decided about an entry. -/
inductive EntryOutcome where
  | skipped (name : String)
  | inSync (name version : String)
  | updated (name : String) (old : Option String) (new : String)
deriving DecidableEq, Repr

def EntryOutcome.isUpdated : EntryOutcome → Bool
  | updated .. => true
  | _ => false

/-- Why a descriptor could not be read. -/
inductive DescriptorDefect where
  | file (error : FileError)
  | package (defect : PackageDefect)
deriving DecidableEq, Repr

def DescriptorDefect.message : DescriptorDefect → String
  | file error => error.message
  | package defect => defect.message

/-- Why a run fails. -/
inductive SyncError where
  | unreadable (path : String) (error : FileError)
  | malformed (path : String) (defect : ManifestDefect)
  | descriptor (plugin path : String) (defect : DescriptorDefect)
  | missingVersion (plugin path : String)
  | unwritable (path : String) (error : FileError)
deriving DecidableEq, Repr

def SyncError.message : SyncError → String
  | unreadable path error => s!"failed to read marketplace manifest {path}: {error.message}"
  | malformed path defect => s!"malformed marketplace manifest {path}: {defect.message}"
  | descriptor plugin path defect =>
    let file := (Path.fileName? path).getD ""
    s!"failed to read {plugin}/{file}: {defect.message}"
  | missingVersion plugin path => s!"{plugin}: {path} missing version field"
  | unwritable path error => s!"failed to write marketplace manifest {path}: {error.message}"

/-- The entry that a failure is about. -/
def SyncError.plugin? : SyncError → Option String
  | descriptor plugin .. => some plugin
  | missingVersion plugin _ => some plugin
  | _ => none

/-- What a run has decided. -/
structure SyncReport where
  manifestPath : String
  entries : List EntryOutcome
deriving DecidableEq, Repr

/-- Whether a run has changed the manifest, and how many entries of it. -/
inductive SyncResult where
  | unchanged
  | updated (count : Nat)
deriving DecidableEq, Repr

/-- The number of updated entries. -/
def SyncReport.updated (r : SyncReport) : Nat := r.entries.countP (·.isUpdated)

def SyncReport.result (r : SyncReport) : SyncResult :=
  if r.updated = 0 then .unchanged else .updated r.updated

/-! ## Deciding entries -/

/-- The root that sources start from, the manifest, and the name of the descriptors. -/
structure Sync where
  root : String
  manifestPath : String
  descriptor : String
deriving DecidableEq, Repr

/-- The sync of a repository with the given settings. -/
def Sync.ofConfig (root : String) (config : Config) : Sync :=
  ⟨root, config.manifestPath root, config.marketplace.descriptor⟩

/-- The sync of a repository with the default settings. -/
def Sync.new (root : String) : Sync := .ofConfig root .default

def Sync.withManifestPath (s : Sync) (path : String) : Sync := { s with manifestPath := path }

def Sync.withDescriptor (s : Sync) (descriptor : String) : Sync :=
  { s with descriptor := descriptor }

/-- The path of the descriptor of a package. -/
def Sync.descriptorPath (s : Sync) (source : String) : String :=
  Path.join (Path.join s.root source) s.descriptor

/-- Reads the descriptor at a path. -/
def readPackage (t : FileTree) (here : Location) (path : String) :
    Except DescriptorDefect Package :=
  match t.readText here path with
  | .error e => .error (.file e)
  | .ok text => (Package.parse text).mapError .package

/-- Decides what becomes of an entry. -/
def Sync.decide (s : Sync) (t : FileTree) (here : Location) (entry : Entry) :
    Except SyncError EntryOutcome :=
  match entry.source with
  | .remote => .ok (.skipped entry.name)
  | .directory source =>
    let path := s.descriptorPath source
    match readPackage t here path with
    | .error defect => .error (.descriptor entry.name path defect)
    | .ok package =>
      match package.version? with
      | none => .error (.missingVersion entry.name path)
      | some version =>
        if entry.version? = some version then .ok (.inSync entry.name version)
        else .ok (.updated entry.name entry.version? version)

/-- Decides entries in order, up to the first that fails. -/
def decideAll (decide : Entry → Except SyncError EntryOutcome) :
    List Entry → List EntryOutcome × Option SyncError
  | [] => ([], none)
  | entry :: rest =>
    match decide entry with
    | .error e => ([], some e)
    | .ok outcome =>
      let (outcomes, failure) := decideAll decide rest
      (outcome :: outcomes, failure)

/-- An entry after what was decided about it. -/
def Entry.apply (entry : Entry) : EntryOutcome → Entry
  | .updated _ _ new => entry.setVersion new
  | _ => entry

/-- A manifest after what was decided about its entries. -/
def Manifest.apply (m : Manifest) (outcomes : List EntryOutcome) : Manifest :=
  m.withEntries (List.zipWith Entry.apply m.entries outcomes)

/-! ## Writing -/

/-- The path that a manifest is saved at: the one from the root to what its path leads to, so that
links stay what they are; or its path itself, where that one cannot be told. -/
def savePath (t : FileTree) (here : Location) (path : String) : String :=
  match t.canonicalize here path with
  | .ok full => full
  | .error _ => path

/-- The name of the file that a manifest is written into first. -/
def temporaryName (name : String) (process : Nat) : String := s!"{name}.{process}.tmp"

/-- The path of the file that is written first, beside the one that is replaced. -/
def temporaryPath (target : String) (process : Nat) : String :=
  Path.withFileName target (temporaryName ((Path.fileName? target).getD "") process)

/-- Takes a file away if that can be done. -/
def discard (t : FileTree) (here : Location) (path : String) : FileTree :=
  match t.remove here path with
  | .ok t => t
  | .error _ => t

/-- Gives a written file the permissions and the place of another: the tree as far as that has come,
and why it has come no further. -/
def install (t : FileTree) (here : Location) (written target : String) :
    FileTree × Option FileError :=
  match t.mode here target with
  | .error e => (t, some e)
  | .ok mode =>
    match t.setMode here written mode with
    | .error e => (t, some e)
    | .ok t =>
      match t.rename here written target with
      | .error e => (t, some e)
      | .ok t => (t, none)

/-- Replaces the file at a path: the bytes are written beside it first. On failure what was written
first is taken away. -/
def replaceFile (t : FileTree) (here : Location) (process : Nat) (target : String)
    (content : ByteArray) : FileTree × Option FileError :=
  let temporary := temporaryPath target process
  match t.write here temporary content with
  | .error e => (discard t here temporary, some e)
  | .ok t =>
    match install t here temporary target with
    | (t, some e) => (discard t here temporary, some e)
    | (t, none) => (t, none)

/-! ## Runs -/

/-- A run: what was decided up to its end, how it ended, and the tree after it. -/
structure SyncRun where
  seen : List EntryOutcome
  result : Except SyncError SyncReport
  tree : FileTree

/-- Brings a manifest in step with the descriptors of its packages. -/
def Sync.run (s : Sync) (t : FileTree) (here : Location) (process : Nat) : SyncRun :=
  match t.openText here s.manifestPath with
  | .error e => ⟨[], .error (.unreadable s.manifestPath e), t⟩
  | .ok (_, text) =>
    match Manifest.parse text with
    | .error defect => ⟨[], .error (.malformed s.manifestPath defect), t⟩
    | .ok manifest =>
      match decideAll (s.decide t here) manifest.entries with
      | (seen, some e) => ⟨seen, .error e, t⟩
      | (seen, none) =>
        let report : SyncReport := ⟨s.manifestPath, seen⟩
        if report.updated = 0 then ⟨seen, .ok report, t⟩
        else
          let target := savePath t here s.manifestPath
          match replaceFile t here process target (Text.encode (manifest.apply seen).text) with
          | (t, some e) => ⟨seen, .error (.unwritable s.manifestPath e), t⟩
          | (t, none) => ⟨seen, .ok report, t⟩

/-! ## The repository of a manifest -/

/-- The root of the repository that a manifest belongs to: the directory it lies in, or the one
above if that is the plugin directory. -/
def repositoryRoot (manifestPath : String) : String :=
  let parent := (Path.parent? manifestPath).getD ""
  if Path.fileName? parent = some pluginDirectory then (Path.parent? parent).getD "" else parent

/-- The sync of a manifest, with the default descriptor. -/
def Sync.ofManifest (path : String) : Sync := (Sync.new (repositoryRoot path)).withManifestPath path

end SkillMarket.Marketplace
