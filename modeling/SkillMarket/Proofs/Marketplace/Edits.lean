import SkillMarket.Proofs.Json.Same
import SkillMarket.Proofs.Marketplace.Readable

/-!
# Sequences of edits

Reading checks once that `plugins` is a list of objects, and every edit relies on it. Each edit
keeps it, so that however many there are, an index means the same entry to every view, and an entry
is what it was but for the version that was set on it last.
-/

namespace SkillMarket.Marketplace

open Json

variable {m : Manifest}

/-! ## One edit -/

/-- Changes the object that comes at an index among the objects of a list, in its place. -/
def modifyObject (index : Nat) (f : Object → Object) : List Value → List Value
  | [] => []
  | .object o :: vs =>
    match index with
    | 0 => .object (f o) :: vs
    | index + 1 => .object o :: modifyObject index f vs
  | v :: vs => v :: modifyObject index f vs

theorem modifyObject_objects (index : Nat) (f : Object → Object) (es : List Object) :
    modifyObject index f (es.map .object) = (es.modify index f).map .object := by
  induction es generalizing index with
  | nil => cases index <;> rfl
  | cons e es ih =>
      cases index with
      | zero => rfl
      | succ index => simp [modifyObject, ih]

/-- What stands beside the entries: the keys of the document in their order, with their values. -/
structure Manifest.SameBeside (m m' : Manifest) : Prop where
  keys : m'.document.keys = m.document.keys
  member : ∀ key, key ≠ "plugins" → m'.document.get? key = m.document.get? key

theorem Manifest.SameBeside.trans {m m' m'' : Manifest} (h : m.SameBeside m')
    (h' : m'.SameBeside m'') : m.SameBeside m'' :=
  ⟨h'.keys.trans h.keys, fun key hkey => (h'.member key hkey).trans (h.member key hkey)⟩

/-- What it means to set a version at an index. -/
structure Manifest.SetsVersion (m : Manifest) (index : Nat) (version : String) (m' : Manifest) :
    Prop where
  /-- The entry there has the version, in the place of the one before or at its end, and is the same
  in everything else. -/
  entry : ∀ e ∈ m.entries[index]?, ∃ e', m'.entries[index]? = some e' ∧
    Object.Sets "version" (.string version) e e' ∧ Entry.version? e' = some version ∧
    Entry.name e' = Entry.name e ∧ Entry.source e' = Entry.source e
  /-- All other items of the array stay. -/
  others : ∀ i, i ≠ index → m'.items[i]? = m.items[i]?
  /-- The edit is made in the array. -/
  inPlace : m'.items = modifyObject index (Entry.setVersion · version) m.items
  beside : m.SameBeside m'
  /-- Where there is no entry, nothing changes. -/
  outside : m.size ≤ index → m' = m

theorem Manifest.WellFormed.items_eq (h : m.WellFormed) : m.items = m.entries.map .object := by
  rw [Manifest.items, h.plugins]
  rfl

theorem Manifest.WellFormed.sameBeside_withEntries (h : m.WellFormed) (es : List Entry) :
    m.SameBeside (m.withEntries es) where
  keys := by
    have present : "plugins" ∈ m.document.keys := by
      by_contra absent
      rw [← Object.get?_eq_none_iff, h.plugins] at absent
      exact absurd absent (by simp)
    rw [withEntries, Object.keys_insert, if_pos present]
  member key hkey := Object.get?_insert_of_ne _ _ hkey

/-- An edit of a well-formed manifest sets the version and does nothing else. -/
theorem Manifest.WellFormed.setsVersion (h : m.WellFormed) (index : Nat) (version : String) :
    m.SetsVersion index version (m.setVersion index version) := by
  have edited : (m.setVersion index version).items =
      (m.entries.modify index (Entry.setVersion · version)).map .object :=
    Manifest.items_withEntries _ _
  refine ⟨fun e he => ?_, fun i hi => ?_, ?_, h.sameBeside_withEntries _, fun outside => ?_⟩
  · refine ⟨e.setVersion version, ?_, Object.sets_insert e "version" _,
      e.version?_setVersion version, e.name_setVersion version, e.source_setVersion version⟩
    rw [setVersion, entries_withEntries, List.getElem?_modify_eq, Option.mem_def.mp he]
    rfl
  · rw [edited, h.items_eq, List.getElem?_map, List.getElem?_map,
      List.getElem?_modify_ne _ _ (Ne.symm hi)]
  · rw [edited, h.items_eq, modifyObject_objects]
  · rw [setVersion, List.modify_eq_self (h.size_eq ▸ outside), h.withEntries_entries]

/-! ## Two edits -/

theorem Manifest.setVersion_comm (m : Manifest) {i j : Nat} (h : i ≠ j) (v w : String) :
    (m.setVersion i v).setVersion j w = (m.setVersion j w).setVersion i v := by
  simp only [setVersion, entries_withEntries, withEntries_withEntries]
  rw [List.modify_modify_ne _ _ _ h]

theorem Manifest.setVersion_setVersion (m : Manifest) (index : Nat) (first second : String) :
    (m.setVersion index first).setVersion index second = m.setVersion index second := by
  have last : (Entry.setVersion · second) ∘ (Entry.setVersion · first) =
      (Entry.setVersion · second) := funext fun e => e.setVersion_setVersion first second
  simp only [setVersion, entries_withEntries, withEntries_withEntries]
  rw [List.modify_modify_eq, last]

/-! ## Any number of edits -/

/-- The version that is set last at an index, if one is set there. -/
def lastVersion? (index : Nat) : List (Nat × String) → Option String
  | [] => none
  | (i, version) :: edits =>
    (lastVersion? index edits).or (if i = index then some version else none)

/-- An entry with a version, if there is one to be set. -/
def Entry.withVersion (e : Entry) : Option String → Entry
  | none => e
  | some version => e.setVersion version

theorem Entry.withVersion_or (e : Entry) (last first : Option String) :
    e.withVersion (last.or first) = Entry.withVersion (e.withVersion first) last := by
  cases last with
  | none => rfl
  | some version =>
      cases first with
      | none => rfl
      | some before => exact (e.setVersion_setVersion before version).symm

/-- Of the versions that were set on an entry, the last one counts. -/
theorem Manifest.getElem?_entries_setVersions (m : Manifest) (edits : List (Nat × String))
    (index : Nat) : (m.setVersions edits).entries[index]? =
      m.entries[index]?.map (Entry.withVersion · (lastVersion? index edits)) := by
  induction edits generalizing m with
  | nil => simp [setVersions, lastVersion?, Entry.withVersion]
  | cons edit edits ih =>
      obtain ⟨i, version⟩ := edit
      have first : (m.setVersion i version).entries[index]? = m.entries[index]?.map
          (Entry.withVersion · (if i = index then some version else none)) := by
        rw [setVersion, entries_withEntries, List.getElem?_modify]
        split <;> rfl
      refine (ih _).trans ?_
      rw [first, Option.map_map]
      exact congrArg (m.entries[index]?.map ·) (funext fun e => (e.withVersion_or _ _).symm)

theorem Manifest.WellFormed.sameBeside_setVersions (h : m.WellFormed)
    (edits : List (Nat × String)) : m.SameBeside (m.setVersions edits) := by
  induction edits generalizing m with
  | nil => exact ⟨rfl, fun _ _ => rfl⟩
  | cons edit edits ih =>
      exact (h.sameBeside_withEntries _).trans
        (ih ((m.edited_setVersion edit.1 edit.2).wellFormed h))

/-- **The views of a manifest agree under every sequence of edits.** Whatever versions were set on a
manifest that was read: `plugins` is a list of as many objects as before and all of them are
entries; each entry is the one that was read at its index, with the version that was set last on it;
and nothing beside the entries has changed. Another edit sets its version in the entry at its index
and does nothing else. Edits at two indices can be made in any order, and of two edits at one index
the second counts. -/
theorem Manifest.setVersions_consistent {text : String} (hparse : Manifest.parse text = .ok m)
    (edits : List (Nat × String)) :
    let edited := m.setVersions edits
    (edited.document.get? "plugins" = some (.array (edited.entries.map .object)) ∧
      edited.items = edited.entries.map .object ∧ edited.size = m.size ∧
      edited.entries.length = m.size) ∧
    (∀ index, edited.entries[index]? =
      m.entries[index]?.map (Entry.withVersion · (lastVersion? index edits))) ∧
    m.SameBeside edited ∧
    (∀ index version, edited.SetsVersion index version (edited.setVersion index version)) ∧
    (∀ i j v w, i ≠ j →
      (edited.setVersion i v).setVersion j w = (edited.setVersion j w).setVersion i v) ∧
    ∀ index first second,
      (edited.setVersion index first).setVersion index second = edited.setVersion index second := by
  intro edited
  have whole := wellFormed_of_parse hparse
  have still : edited.WellFormed := wellFormed_setVersions whole edits
  have size : edited.size = m.size := whole.size_setVersions edits
  exact ⟨⟨still.plugins, still.items_eq, size, still.size_eq ▸ size⟩,
    m.getElem?_entries_setVersions edits, whole.sameBeside_setVersions edits, still.setsVersion,
    fun i j v w h => edited.setVersion_comm h v w, edited.setVersion_setVersion⟩

/-- A manifest with a version that is no text, given twice, and an entry without one; its `plugins`
stand between other keys. -/
def patchyText : String :=
  "\x7b\"a\":1,\"plugins\":[\x7b\"version\":\"0\",\"name\":\"x\",\"version\":[]\x7d,\x7b\x7d]," ++
    "\"z\":null\x7d"

def patchyManifest : Manifest :=
  ⟨[("a", .number (.integer 1)), ("plugins", .array [
    .object [("version", .array []), ("name", .string "x")], .object []]), ("z", .null)]⟩

def patchyEdits : List (Nat × String) := [(1, "1"), (0, "2"), (7, "3"), (1, "4")]

theorem setVersions_patchyText :
    Manifest.parse patchyText = .ok patchyManifest ∧
      let edited := patchyManifest.setVersions patchyEdits
      edited.size = 2 ∧
        edited.entries[0]? = some [("version", .string "2"), ("name", .string "x")] ∧
        edited.entries[1]? = some [("version", .string "4")] ∧
        edited.document.keys = ["a", "plugins", "z"] ∧ edited.setVersion 2 "5" = edited ∧
        (edited.setVersion 0 "6").setVersion 1 "7" =
          (edited.setVersion 1 "7").setVersion 0 "6" := by
  have hparse : Manifest.parse patchyText = .ok patchyManifest := by cbv
  obtain ⟨⟨-, -, size, -⟩, entries, beside, sets, comm, -⟩ :=
    Manifest.setVersions_consistent hparse patchyEdits
  exact ⟨hparse, size, entries 0, entries 1, beside.keys,
    (sets 2 "5").outside (Nat.le_of_eq size), comm 0 1 "6" "7" (by decide)⟩

end SkillMarket.Marketplace
