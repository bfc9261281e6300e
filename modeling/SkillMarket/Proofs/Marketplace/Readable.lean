import SkillMarket.Proofs.Marketplace.Agreement
import SkillMarket.Proofs.Marketplace.Numbers

/-!
# What is written can be read

The text of a manifest is a manifest again, whatever numbers it holds and whatever versions were set
on it: every number is printed as one, and nothing nests deeper than it did. Numbers may be read as
other ones, but what a run sees of the entries stays the same.
-/

namespace SkillMarket.Marketplace

open Json

/-! ## Entries with other numbers -/

/-- A run sees no numbers in an entry. -/
theorem Entry.view_mapNumbers (f : Number → Number) (e : Entry) :
    Entry.view (mapNumbersInMembers f e) = e.view := by
  refine Entry.view_of_texts fun key => ?_
  rw [get?_mapNumbersInMembers]
  cases Object.get? e key with
  | none => rfl
  | some v => exact asString?_mapNumbers f v

/-! ## Sizes -/

/-- The items of a manifest are its entries. -/
theorem Manifest.WellFormed.size_eq {m : Manifest} (h : m.WellFormed) :
    m.size = m.entries.length := by
  rw [Manifest.size, Manifest.items, h.plugins, Option.bind_some, Value.asArray?, Option.getD_some,
    List.length_map]

/-- No version that is set adds or removes an entry. -/
theorem Manifest.WellFormed.size_setVersions {m : Manifest} (h : m.WellFormed)
    (edits : List (Nat × String)) : (m.setVersions edits).size = m.size := by
  induction edits generalizing m with
  | nil => rfl
  | cons edit edits ih =>
      have edited := (m.edited_setVersion edit.1 edit.2).wellFormed h
      refine (ih edited).trans ?_
      rw [edited.size_eq, h.size_eq, Manifest.setVersion, Manifest.entries_withEntries,
        List.length_modify]

/-! ## Texts -/

/-- **What is written can be read.** Whatever manifest was read and whatever versions were set on
it, its text is read as a manifest of as many entries, in which a run sees the same name, source and
version at every index. No number that was read is printed as a text that is none or is out of
range, and lists and objects nest no deeper than a reader allows. -/
theorem Manifest.view_parse_text {text : String} {m : Manifest}
    (hparse : Manifest.parse text = .ok m) (edits : List (Nat × String)) :
    (∃ again, Manifest.parse (m.setVersions edits).text = .ok again ∧
      again.size = m.size ∧ (m.setVersions edits).size = m.size ∧
      again.entries.map Entry.view = (m.setVersions edits).entries.map Entry.view) ∧
    (∀ n ∈ m.numbers, ∃ other, n.ReadsAs other) ∧
    (Value.object (m.setVersions edits).document).WellFormed maxDepth := by
  have whole := wellFormed_of_parse hparse
  have edited := wellFormed_setVersions whole edits
  have read := edited.parse_text_eq_mapReals
  have views : ((m.setVersions edits).mapReals reread).entries.map Entry.view =
      (m.setVersions edits).entries.map Entry.view := by
    rw [entries_mapReals, List.map_map]
    exact List.map_congr_left fun e _ => Entry.view_mapNumbers (mapReal reread) e
  have size : ((m.setVersions edits).mapReals reread).size = m.size := by
    rw [(wellFormed_of_parse read).size_eq, entries_mapReals, List.length_map, ← edited.size_eq,
      whole.size_setVersions]
  exact ⟨⟨_, read, size, whole.size_setVersions edits, views⟩,
    fun n hn => ⟨_, whole.readsAs n hn⟩, edited.document⟩

/-- A manifest with the greatest number, the least one above zero and a negative zero. -/
def extremeText : String :=
  "\x7b\"plugins\":[\x7b\"name\":\"a\",\"source\":\"b\",\"x\":[1.7976931348623157e308,5e-324]" ++
    "\x7d],\"y\":-0.0\x7d"

theorem view_parse_extremeText :
    ∃ m again, Manifest.parse extremeText = .ok m ∧
      m.bits = [0x7FEFFFFFFFFFFFFF, 1, 0x8000000000000000] ∧
      Manifest.parse (m.setVersions [(0, "1")]).text = .ok again ∧ again.size = 1 ∧
      again.entries.map Entry.view = [⟨"a", .directory "b", some "1"⟩] := by
  have read : (Manifest.parse extremeText).toOption.map (fun m =>
      (m.bits, m.size, (m.setVersions [(0, "1")]).entries.map Entry.view)) =
      some ([0x7FEFFFFFFFFFFFFF, 1, 0x8000000000000000], 1, [⟨"a", .directory "b", some "1"⟩]) := by
    decide +kernel
  obtain ⟨m, hparse, seen⟩ := exists_of_toOption read
  obtain ⟨bits, seen⟩ := Prod.mk.inj seen
  obtain ⟨size, views⟩ := Prod.mk.inj seen
  obtain ⟨⟨again, hagain, size', -, views'⟩, -⟩ := Manifest.view_parse_text hparse [(0, "1")]
  exact ⟨m, again, hparse, bits, hagain, size'.trans size, views'.trans views⟩

end SkillMarket.Marketplace
