import SkillMarket.Json.Printer
import SkillMarket.Json.Reader
import SkillMarket.Marketplace.Source

/-!
The marketplace manifest: a JSON object whose `plugins` is an array of objects, the entries.

A manifest holds the whole document, so that what it does not know is written back in its order.
-/

namespace SkillMarket.Marketplace

/-! ## Entries -/

/-- An entry of the `plugins` array. -/
abbrev Entry := Json.Object

/-- The name of an entry, or a stand-in for one. -/
def Entry.name (e : Entry) : String :=
  ((Json.Object.get? e "name").bind Json.Value.asString?).getD "unnamed"

def Entry.source (e : Entry) : Source := Source.ofValue (Json.Object.get? e "source")

/-- The version of an entry, if it is a text. -/
def Entry.version? (e : Entry) : Option String :=
  (Json.Object.get? e "version").bind Json.Value.asString?

/-- Sets the version, in its place or at the end. -/
def Entry.setVersion (e : Entry) (version : String) : Entry :=
  Json.Object.insert "version" (.string version) e

theorem Entry.version?_setVersion (e : Entry) (version : String) :
    (e.setVersion version).version? = some version := by
  simp [Entry.version?, Entry.setVersion, Json.Object.get?_insert_self, Json.Value.asString?]

theorem Entry.name_setVersion (e : Entry) (version : String) :
    (e.setVersion version).name = e.name := by
  simp [Entry.name, Entry.setVersion, Json.Object.get?_insert_of_ne]

theorem Entry.source_setVersion (e : Entry) (version : String) :
    (e.setVersion version).source = e.source := by
  simp [Entry.source, Entry.setVersion, Json.Object.get?_insert_of_ne]

/-! ## Manifests -/

/-- The document of a manifest. -/
structure Manifest where
  document : Json.Object

/-- Why a text is no manifest. -/
inductive ManifestDefect where
  | notJson (error : Json.Error)
  | notObject
  | pluginsMissing
  | pluginsNotArray
  | entryNotObject (index : Nat)
deriving DecidableEq, Repr

def ManifestDefect.message : ManifestDefect → String
  | notJson error => error.message
  | notObject => "top-level value is not an object"
  | pluginsMissing => "missing 'plugins' array"
  | pluginsNotArray => "'plugins' is not an array"
  | entryNotObject index => s!"plugins[{index}] is not an object"

def isObject : Json.Value → Bool
  | .object _ => true
  | _ => false

/-- Takes a document as a manifest. -/
def Manifest.ofDocument (document : Json.Object) : Except ManifestDefect Manifest :=
  match document.get? "plugins" with
  | some (.array items) =>
    match items.findIdx? (fun v => !isObject v) with
    | some index => .error (.entryNotObject index)
    | none => .ok ⟨document⟩
  | some _ => .error .pluginsNotArray
  | none => .error .pluginsMissing

/-- Reads a manifest. -/
def Manifest.parse (text : String) : Except ManifestDefect Manifest :=
  match Json.parse text with
  | .error e => .error (.notJson e)
  | .ok (.object document) => Manifest.ofDocument document
  | .ok _ => .error .notObject

/-- The items of the `plugins` array. -/
def Manifest.items (m : Manifest) : List Json.Value :=
  ((m.document.get? "plugins").bind Json.Value.asArray?).getD []

/-- The entries, in order. -/
def Manifest.entries (m : Manifest) : List Entry := m.items.filterMap Json.Value.asObject?

/-- The number of items of the `plugins` array. -/
def Manifest.size (m : Manifest) : Nat := m.items.length

def Manifest.isEmpty (m : Manifest) : Bool := m.size == 0

/-- Puts entries in the place of those that are there. -/
def Manifest.withEntries (m : Manifest) (entries : List Entry) : Manifest :=
  ⟨m.document.insert "plugins" (.array (entries.map .object))⟩

/-- Sets the version of the entry at an index, if there is one. -/
def Manifest.setVersion (m : Manifest) (index : Nat) (version : String) : Manifest :=
  m.withEntries (m.entries.modify index (·.setVersion version))

/-- The text of a manifest: over several lines, with a newline at the end. -/
def Manifest.text (m : Manifest) : String := (Json.Value.object m.document).pretty ++ "\n"

/-- Equality as data. -/
def Manifest.same (a b : Manifest) : Bool := a.document.same b.document

end SkillMarket.Marketplace
