import Mathlib
import SkillMarket.Marketplace.Sync
import SkillMarket.Proofs.Json.Member

/-!
# Manifests and their edits

An edit gives versions to entries and touches nothing else. A manifest that was read stays
well-formed under every edit, and a well-formed manifest without binary64 numbers is what its own
text is read as.
-/

namespace SkillMarket.Marketplace

open Json

/-! ## Versions of entries -/

/-- The version that was set last counts. -/
theorem Entry.setVersion_setVersion (e : Entry) (first second : String) :
    (e.setVersion first).setVersion second = e.setVersion second :=
  Object.insert_insert_self e "version" _ _

/-- Setting the version that an entry has changes nothing. -/
theorem Entry.setVersion_of_version? {e : Entry} {version : String}
    (h : e.version? = some version) : e.setVersion version = e := by
  refine Object.insert_of_get? ?_
  rw [Entry.version?, Option.bind_eq_some_iff] at h
  obtain ⟨value, hget, hvalue⟩ := h
  cases value with
  | string s =>
      simp only [Value.asString?, Option.some.injEq] at hvalue
      rw [hget, hvalue]
  | _ => simp [Value.asString?] at hvalue

/-- An entry as it was, or with a version set. -/
inductive Entry.Edited (e : Entry) : Entry → Prop
  | kept : Edited e e
  | set (version : String) : Edited e (e.setVersion version)

/-! ## The entries of a manifest -/

theorem asObject?_object (es : List Entry) :
    (es.map Value.object).filterMap Value.asObject? = es := by
  induction es with
  | nil => rfl
  | cons e es ih => simpa [Value.asObject?] using ih

theorem Manifest.items_withEntries (m : Manifest) (es : List Entry) :
    (m.withEntries es).items = es.map .object := by
  simp [items, withEntries, Object.get?_insert_self, Value.asArray?]

@[simp] theorem Manifest.entries_withEntries (m : Manifest) (es : List Entry) :
    (m.withEntries es).entries = es := by
  rw [entries, items_withEntries, asObject?_object]

@[simp] theorem Manifest.withEntries_withEntries (m : Manifest) (es es' : List Entry) :
    (m.withEntries es).withEntries es' = m.withEntries es' := by
  simp [withEntries, Object.insert_insert_self]

/-- What reading a manifest ensures: the items of `plugins` are objects, and the document is
well-formed. -/
structure Manifest.WellFormed (m : Manifest) : Prop where
  plugins : m.document.get? "plugins" = some (.array (m.entries.map .object))
  document : (Value.object m.document).WellFormed maxDepth

theorem Manifest.WellFormed.withEntries_entries {m : Manifest} (h : m.WellFormed) :
    m.withEntries m.entries = m := by
  rw [withEntries, Object.insert_of_get? h.plugins]

/-! ## Reading -/

theorem eq_map_asObject? {vs : List Value} (h : ∀ v ∈ vs, isObject v = true) :
    vs = (vs.filterMap Value.asObject?).map .object := by
  induction vs with
  | nil => rfl
  | cons v vs ih =>
      have hv := h v (by simp)
      have hvs := ih fun w hw => h w (by simp [hw])
      cases v with
      | object members => simpa [Value.asObject?] using hvs
      | _ => simp [isObject] at hv

/-- A document is a manifest when its `plugins` is a list of objects. -/
theorem Manifest.ofDocument_eq_ok_iff {document : Object} {m : Manifest} :
    Manifest.ofDocument document = .ok m ↔
      m = ⟨document⟩ ∧ document.get? "plugins" = some (.array (m.entries.map .object)) := by
  unfold ofDocument
  constructor
  · intro h
    split at h
    · next items hget =>
      split at h
      · simp at h
      · next hfind =>
        simp only [Except.ok.injEq] at h
        subst h
        have objects : ∀ v ∈ items, isObject v = true := by
          simpa using List.findIdx?_eq_none_iff.mp hfind
        refine ⟨rfl, ?_⟩
        rw [hget, entries, Manifest.items, hget]
        simpa [Value.asArray?] using eq_map_asObject? objects
    · simp at h
    · simp at h
  · rintro ⟨rfl, hget⟩
    rw [hget]
    have objects : ((Manifest.entries ⟨document⟩).map Value.object).findIdx?
        (fun v => !isObject v) = none := by
      rw [List.findIdx?_eq_none_iff]
      simp [isObject]
    simp only [objects]

theorem Manifest.parse_eq_ok_iff {text : String} {m : Manifest} :
    Manifest.parse text = .ok m ↔ Json.parse text = .ok (.object m.document) ∧
      m.document.get? "plugins" = some (.array (m.entries.map .object)) := by
  unfold Manifest.parse
  constructor
  · intro h
    split at h
    · simp at h
    · next document hparse =>
      obtain ⟨rfl, hget⟩ := Manifest.ofDocument_eq_ok_iff.mp h
      exact ⟨hparse, hget⟩
    · simp at h
  · rintro ⟨hparse, hget⟩
    rw [hparse]
    exact Manifest.ofDocument_eq_ok_iff.mpr ⟨rfl, hget⟩

/-- The manifest of a text that is an object with a list of objects as `plugins`. -/
theorem Manifest.parse_of_plugins {text : String} {document : Object} {entries : List Entry}
    (hjson : Json.parse text = .ok (.object document))
    (hget : document.get? "plugins" = some (.array (entries.map .object))) :
    Manifest.parse text = .ok ⟨document⟩ ∧ (Manifest.mk document).entries = entries := by
  have hentries : (Manifest.mk document).entries = entries := by
    rw [Manifest.entries, Manifest.items, hget]
    exact asObject?_object entries
  exact ⟨Manifest.parse_eq_ok_iff.mpr ⟨hjson, by rw [hentries, hget]⟩, hentries⟩

/-- What is read is well-formed. -/
theorem Manifest.wellFormed_of_parse {text : String} {m : Manifest}
    (h : Manifest.parse text = .ok m) : m.WellFormed := by
  obtain ⟨hparse, hget⟩ := Manifest.parse_eq_ok_iff.mp h
  exact ⟨hget, wellFormed_parse hparse⟩

/-- A well-formed manifest without binary64 numbers is what its own text is read as. -/
theorem Manifest.WellFormed.parse_text {m : Manifest} (h : m.WellFormed)
    (hexact : (Value.object m.document).Exact) : Manifest.parse m.text = .ok m :=
  Manifest.parse_eq_ok_iff.mpr ⟨parse_pretty h.document hexact, h.plugins⟩

/-! ## Edits -/

/-- A manifest with some of its entries edited. -/
inductive Manifest.Edited (m : Manifest) : Manifest → Prop
  | mk {es : List Entry} (edits : List.Forall₂ Entry.Edited m.entries es) :
      Edited m (m.withEntries es)

/-- The depth that is left for an entry: the document and its `plugins` are around it. -/
def entryDepth : Nat := 125

theorem Manifest.WellFormed.entry {m : Manifest} (h : m.WellFormed) :
    ∀ e ∈ m.entries, (Value.object e).WellFormed entryDepth := by
  intro e he
  have plugins : (Value.array (m.entries.map .object)).WellFormed (entryDepth + 1) :=
    h.document.get? h.plugins
  exact plugins.items _ (List.mem_map_of_mem he)

theorem Entry.Edited.wellFormed {e e' : Entry} (h : e.Edited e')
    (he : (Value.object e).WellFormed entryDepth) : (Value.object e').WellFormed entryDepth := by
  cases h with
  | kept => exact he
  | set version => exact he.insert "version" (.string version)

theorem forall_mem_of_edited {P : Entry → Prop} {es es' : List Entry}
    (h : List.Forall₂ Entry.Edited es es') (hedit : ∀ e e', e.Edited e' → P e → P e')
    (hes : ∀ e ∈ es, P e) : ∀ e' ∈ es', P e' := by
  induction h with
  | nil => simp
  | @cons e e' es es' hhead _ ih =>
      intro w hw
      rcases List.mem_cons.mp hw with rfl | hw
      · exact hedit e w hhead (hes e (by simp))
      · exact ih (fun e he => hes e (by simp [he])) w hw

/-- A well-formed manifest stays so under every edit. -/
theorem Manifest.Edited.wellFormed {m m' : Manifest} (h : m.Edited m') (hm : m.WellFormed) :
    m'.WellFormed := by
  cases h with
  | @mk es edits =>
      have entries := forall_mem_of_edited edits (fun e e' => Entry.Edited.wellFormed) hm.entry
      have plugins : (Value.array (es.map .object)).WellFormed (entryDepth + 1) := by
        refine .array fun v hv => ?_
        obtain ⟨e, he, rfl⟩ := List.mem_map.mp hv
        exact entries e he
      refine ⟨?_, hm.document.insert "plugins" plugins⟩
      rw [Manifest.entries_withEntries, Manifest.withEntries, Object.get?_insert_self]

/-- The document of the manifest holds no binary64 number. -/
def Manifest.Exact (m : Manifest) : Prop := (Value.object m.document).Exact

instance (m : Manifest) : Decidable m.Exact :=
  inferInstanceAs (Decidable (Value.object m.document).Exact)

/-- The numbers in the document of the manifest. -/
def Manifest.numbers (m : Manifest) : List Number := (Value.object m.document).numbers

theorem Entry.Edited.numbers_subset {e e' : Entry} (h : e.Edited e') :
    (Value.object e').numbers ⊆ (Value.object e).numbers := by
  cases h with
  | kept => exact fun n hn => hn
  | set version =>
      intro n hn
      exact (numbers_insert hn).resolve_right (by simp [Value.numbers])

/-- No edit brings a number in. -/
theorem Manifest.Edited.numbers_subset {m m' : Manifest} (h : m.Edited m') (hm : m.WellFormed) :
    m'.numbers ⊆ m.numbers := by
  cases h with
  | @mk es edits =>
      have plugins := numbers_subset_of_get? hm.plugins
      have here : ∀ e ∈ m.entries, (Value.object e).numbers ⊆ m.numbers := fun e he n hn =>
        plugins (mem_numbersInItems.mpr ⟨_, List.mem_map_of_mem he, hn⟩)
      have entries := forall_mem_of_edited edits
        (fun e e' edit he => List.Subset.trans edit.numbers_subset he) here
      intro n hn
      rcases numbers_insert hn with old | new
      · exact old
      · obtain ⟨v, hv, hn⟩ := mem_numbersInItems.mp new
        obtain ⟨e, he, rfl⟩ := List.mem_map.mp hv
        exact entries e he hn

/-- No edit brings a binary64 number in. -/
theorem Manifest.Edited.exact {m m' : Manifest} (h : m.Edited m') (hm : m.WellFormed)
    (hexact : m.Exact) : m'.Exact :=
  fun n hn => hexact n (h.numbers_subset hm hn)

theorem edited_modify (es : List Entry) (index : Nat) (version : String) :
    List.Forall₂ Entry.Edited es (es.modify index (·.setVersion version)) := by
  induction es generalizing index with
  | nil => cases index <;> exact .nil
  | cons e es ih =>
      cases index with
      | zero => exact .cons (.set version) (List.forall₂_same.mpr fun e _ => .kept)
      | succ index => exact .cons .kept (ih index)

theorem Manifest.edited_setVersion (m : Manifest) (index : Nat) (version : String) :
    m.Edited (m.setVersion index version) :=
  .mk (edited_modify m.entries index version)

/-! ## Sequences of edits -/

/-- Sets versions one after another, each at an index. -/
def Manifest.setVersions (m : Manifest) (edits : List (Nat × String)) : Manifest :=
  edits.foldl (fun m edit => m.setVersion edit.1 edit.2) m

theorem Manifest.wellFormed_setVersions {m : Manifest} (h : m.WellFormed)
    (edits : List (Nat × String)) : (m.setVersions edits).WellFormed := by
  induction edits generalizing m with
  | nil => exact h
  | cons edit edits ih => exact ih ((m.edited_setVersion edit.1 edit.2).wellFormed h)

/-- **A manifest survives being written back.** Whatever versions were set on a manifest that was
read, its text is read as the very same manifest, with all keys in their order, if it holds no
binary64 number; so its text is the same when it is written once more. -/
theorem Manifest.parse_text_setVersions {text : String} {m : Manifest}
    (hparse : Manifest.parse text = .ok m) (edits : List (Nat × String))
    (hexact : (m.setVersions edits).Exact) :
    ∃ again, Manifest.parse (m.setVersions edits).text = .ok again ∧
      again = m.setVersions edits ∧ again.text = (m.setVersions edits).text :=
  have whole := wellFormed_setVersions (wellFormed_of_parse hparse) edits
  ⟨_, whole.parse_text hexact, rfl, rfl⟩

/-- A manifest with one key twice, the ends of the integers, and an escape. -/
def edgeText : String :=
  "\x7b\"plugins\":[\x7b\"version\":1,\"n\":[18446744073709551615,-9223372036854775808]\x7d," ++
    "\x7b\"a\":[],\"a\":\"é\\u0007\"\x7d]\x7d"

def edgeManifest : Manifest :=
  ⟨[("plugins", .array [
    .object [("version", .number (.integer 1)), ("n", .array [
      .number (.integer 18446744073709551615), .number (.integer (-9223372036854775808))])],
    .object [("a", .string "é\x07")]])]⟩

def edgeVersions : List (Nat × String) := [(0, "\"1\\\n"), (1, "2"), (0, "3")]

theorem parse_edgeText_setVersions :
    Manifest.parse edgeText = .ok edgeManifest ∧ (edgeManifest.setVersions edgeVersions).Exact ∧
      ∃ again, Manifest.parse (edgeManifest.setVersions edgeVersions).text = .ok again ∧
        again = edgeManifest.setVersions edgeVersions ∧
        again.text = (edgeManifest.setVersions edgeVersions).text :=
  have hparse : Manifest.parse edgeText = .ok edgeManifest := by cbv
  have hexact : (edgeManifest.setVersions edgeVersions).Exact := by decide
  ⟨hparse, hexact, Manifest.parse_text_setVersions hparse edgeVersions hexact⟩

end SkillMarket.Marketplace
