import SkillMarket.Proofs.FileTree.Access
import SkillMarket.Proofs.Marketplace.Manifest

/-!
# What descriptors declare

A descriptor is read through links like any other file, so it may be the manifest itself. The
version it declares then is that of the document, which no change of the entries touches.
-/

namespace SkillMarket.Marketplace

open FileTree

variable {s : Sync} {t other : FileTree} {here loc : Location}

/-- The descriptor of the package at a source declares a version. -/
def Sync.Declares (s : Sync) (t : FileTree) (here : Location) (source version : String) : Prop :=
  ∃ text package, t.readText here (s.descriptorPath source) = .ok text ∧
    Package.parse text = .ok package ∧ package.version? = some version

theorem readPackage_eq_ok_iff {path : String} {package : Package} :
    readPackage t here path = .ok package ↔
      ∃ text, t.readText here path = .ok text ∧ Package.parse text = .ok package := by
  unfold readPackage
  cases t.readText here path with
  | error e => simp
  | ok text => cases hparse : Package.parse text <;> simp [hparse, Except.mapError]

theorem Sync.declares_iff {source version : String} :
    s.Declares t here source version ↔ ∃ package,
      readPackage t here (s.descriptorPath source) = .ok package ∧
        package.version? = some version := by
  simp only [Declares, readPackage_eq_ok_iff]
  constructor
  · rintro ⟨text, package, hread, hparse, hversion⟩
    exact ⟨package, ⟨text, hread, hparse⟩, hversion⟩
  · rintro ⟨package, ⟨text, hread, hparse⟩, hversion⟩
    exact ⟨text, package, hread, hparse, hversion⟩

/-- A descriptor declares one version. -/
theorem Sync.Declares.unique {source version version' : String}
    (h : s.Declares t here source version) (h' : s.Declares t here source version') :
    version' = version := by
  obtain ⟨package, hread, hversion⟩ := Sync.declares_iff.mp h
  obtain ⟨package', hread', hversion'⟩ := Sync.declares_iff.mp h'
  rw [hread, Except.ok.injEq] at hread'
  rw [← hread', hversion, Option.some.injEq] at hversion'
  exact hversion'.symm

/-! ## Trees that differ in a manifest -/

theorem Package.parse_eq_ok_iff {text : String} {package : Package} :
    Package.parse text = .ok package ↔ Json.parse text = .ok (.object package.fields) := by
  unfold Package.parse
  cases Json.parse text with
  | error e => simp
  | ok value =>
      cases value with
      | object fields =>
          obtain ⟨fields'⟩ := package
          simp
      | _ => simp

/-- A manifest stands at a location. -/
def Holds (t : FileTree) (loc : Location) (m : Manifest) : Prop :=
  ∃ mode text, t.get? loc = some (.file mode (Text.encode text)) ∧ Manifest.parse text = .ok m

/-- Two trees that differ in the manifest at one location, but not in the version of its
document. -/
structure Reworded (t other : FileTree) (loc : Location) (m m' : Manifest) : Prop where
  elsewhere : ∀ l, l ≠ loc → other.get? l = t.get? l
  before : Holds t loc m
  after : Holds other loc m'
  version : m'.document.get? "version" = m.document.get? "version"

variable {m m' : Manifest}

theorem Reworded.sameShape (h : Reworded t other loc m m') : SameShape t other := by
  intro l
  by_cases hl : l = loc
  · subst hl
    obtain ⟨mode, text, hfile, -⟩ := h.before
    obtain ⟨mode', text', hfile', -⟩ := h.after
    exact .inr ⟨⟨_, _, hfile⟩, _, _, hfile'⟩
  · exact .inl (h.elsewhere l hl)

/-- A path leads to the same text, or to the manifest in both trees. -/
theorem Reworded.readText (h : Reworded t other loc m m') (here : Location) (path : String) :
    other.readText here path = t.readText here path ∨
      ∃ text text', t.readText here path = .ok text ∧ other.readText here path = .ok text' ∧
        Manifest.parse text = .ok m ∧ Manifest.parse text' = .ok m' := by
  cases hstat : t.stat here path with
  | error e =>
      have hstat' := stat_congr_of_error h.sameShape hstat
      exact .inl (by simp [FileTree.readText, openText, openFile, hstat, hstat'])
  | ok found =>
      obtain ⟨l, node⟩ := found
      by_cases hl : l = loc
      · subst hl
        obtain ⟨mode, text, hfile, hparse⟩ := h.before
        obtain ⟨mode', text', hfile', hparse'⟩ := h.after
        have hnode : node = .file mode (Text.encode text) := by
          rw [get?_of_stat hstat, Option.some.injEq] at hfile
          exact hfile
        have hstat' := stat_congr h.sameShape hstat hfile'
        refine .inr ⟨text, text', ?_, ?_, hparse, hparse'⟩
        · exact readText_eq_ok_iff.mpr ⟨l, openText_eq_ok_iff.mpr ⟨mode, hnode ▸ hstat⟩⟩
        · exact readText_eq_ok_iff.mpr ⟨l, openText_eq_ok_iff.mpr ⟨mode', hstat'⟩⟩
      · have hstat' := stat_congr h.sameShape hstat
          ((h.elsewhere l hl).trans (get?_of_stat hstat))
        exact .inl (by simp [FileTree.readText, openText, openFile, hstat, hstat'])

/-- Every descriptor declares what it did, the manifest among them. -/
theorem Reworded.declares (h : Reworded t other loc m m') {source version : String}
    (hdeclares : s.Declares t here source version) : s.Declares other here source version := by
  obtain ⟨text, package, hread, hparse, hversion⟩ := hdeclares
  rcases h.readText here (s.descriptorPath source) with
    same | ⟨manifest, manifest', hread', hreread, hmanifest, hmanifest'⟩
  · exact ⟨text, package, same.trans hread, hparse, hversion⟩
  -- the descriptor is the manifest itself
  · rw [hread, Except.ok.injEq] at hread'
    subst hread'
    have hfields := (Manifest.parse_eq_ok_iff.mp hmanifest).1
    rw [Package.parse_eq_ok_iff.mp hparse, Except.ok.injEq, Json.Value.object.injEq] at hfields
    refine ⟨manifest', ⟨m'.document⟩, hreread, ?_, ?_⟩
    · exact Package.parse_eq_ok_iff.mpr (Manifest.parse_eq_ok_iff.mp hmanifest').1
    · rw [← hversion, Package.version?, Package.version?, h.version, hfields]

end SkillMarket.Marketplace
