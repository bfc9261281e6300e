import SkillMarket.Proofs.Json.Short
import SkillMarket.Proofs.Marketplace.Manifest

/-!
# Numbers in a manifest

Each update writes the whole manifest, and the next one reads it: numbers are printed and read
again and again. This never fails, and changes nothing but binary64 numbers and the versions that
are set. A number of few digits stays the same in every round. A number of more digits may become
its neighbour in each of them.
-/

namespace SkillMarket.Marketplace

open Json
open Binary64 (Short)

/-! ## Other numbers in a manifest -/

/-- The same integer, or another binary64 number. -/
def mapReal (f : Binary64 → Binary64) : Number → Number
  | .integer n => .integer n
  | .real x => .real (f x)

/-- The manifest with other binary64 numbers in the places of its own. -/
def Manifest.mapReals (f : Binary64 → Binary64) (m : Manifest) : Manifest :=
  ⟨mapNumbersInMembers (mapReal f) m.document⟩

variable (f : Binary64 → Binary64)

theorem Manifest.mapReals_id (m : Manifest) : m.mapReals id = m := by
  have same : mapReal id = id := funext fun n => by cases n <;> rfl
  rw [mapReals, same, mapNumbersInMembers_id]

theorem Manifest.mapReals_mapReals (g : Binary64 → Binary64) (m : Manifest) :
    (m.mapReals f).mapReals g = m.mapReals (g ∘ f) := by
  have compose : mapReal g ∘ mapReal f = mapReal (g ∘ f) := funext fun n => by cases n <;> rfl
  rw [mapReals, mapReals, mapNumbersInMembers_mapNumbersInMembers, compose, mapReals]

theorem asObject?_mapNumbersInItems (f : Number → Number) (vs : List Value) :
    (mapNumbersInItems f vs).filterMap Value.asObject?
      = (vs.filterMap Value.asObject?).map (mapNumbersInMembers f) := by
  rw [mapNumbersInItems_eq_map, List.filterMap_map, List.map_filterMap]
  exact List.filterMap_congr fun v _ => asObject?_mapNumbers f v

theorem Manifest.entries_mapReals (m : Manifest) :
    (m.mapReals f).entries = m.entries.map (mapNumbersInMembers (mapReal f)) := by
  have items : (m.mapReals f).items = mapNumbersInItems (mapReal f) m.items := by
    rw [Manifest.items, Manifest.items, mapReals, get?_mapNumbersInMembers]
    cases m.document.get? "plugins" with
    | none => rfl
    | some v =>
        rw [Option.map_some, Option.bind_some, Option.bind_some, asArray?_mapNumbers]
        cases v.asArray? <;> rfl
  rw [Manifest.entries, items, asObject?_mapNumbersInItems, ← Manifest.entries]

theorem mapNumbers_objects (f : Number → Number) (es : List Object) :
    (Value.array (es.map .object)).mapNumbers f
      = .array ((es.map (mapNumbersInMembers f)).map .object) := by
  simp [Value.mapNumbers, mapNumbersInItems_eq_map]

theorem Manifest.withEntries_mapReals (m : Manifest) (es : List Entry) :
    (m.mapReals f).withEntries (es.map (mapNumbersInMembers (mapReal f)))
      = (m.withEntries es).mapReals f := by
  simp only [withEntries, mapReals, mapNumbersInMembers_insert, mapNumbers_objects]

/-! ## Edits -/

theorem Entry.setVersion_mapNumbers (f : Number → Number) (e : Entry) (version : String) :
    Entry.setVersion (mapNumbersInMembers f e) version
      = mapNumbersInMembers f (e.setVersion version) :=
  (mapNumbersInMembers_insert f e "version" (.string version)).symm

theorem map_modify {α β : Type} {f : α → β} {g : α → α} {h : β → β} (comm : ∀ a, h (f a) = f (g a))
    (index : Nat) (as : List α) : (as.map f).modify index h = (as.modify index g).map f := by
  induction as generalizing index with
  | nil => cases index <;> rfl
  | cons a as ih => cases index <;> simp [comm, ih]

/-- A version is set whatever the numbers are. -/
theorem Manifest.setVersion_mapReals (m : Manifest) (index : Nat) (version : String) :
    (m.mapReals f).setVersion index version = (m.setVersion index version).mapReals f := by
  have entries : (m.entries.map (mapNumbersInMembers (mapReal f))).modify index
        (Entry.setVersion · version)
      = (m.entries.modify index (Entry.setVersion · version)).map
        (mapNumbersInMembers (mapReal f)) :=
    map_modify (fun e => Entry.setVersion_mapNumbers (mapReal f) e version) index m.entries
  rw [setVersion, entries_mapReals, entries, withEntries_mapReals, ← setVersion]

theorem Manifest.setVersions_mapReals (m : Manifest) (edits : List (Nat × String)) :
    (m.mapReals f).setVersions edits = (m.setVersions edits).mapReals f := by
  induction edits generalizing m with
  | nil => rfl
  | cons edit edits ih =>
      rw [setVersions, setVersions, List.foldl_cons, List.foldl_cons, setVersion_mapReals]
      exact ih _

theorem Manifest.setVersions_append (m : Manifest) (first second : List (Nat × String)) :
    m.setVersions (first ++ second) = (m.setVersions first).setVersions second :=
  List.foldl_append

/-! ## Rounds -/

/-- In each round, sets versions, writes the manifest and reads it again. -/
def Manifest.rewrite (m : Manifest) :
    List (List (Nat × String)) → Except ManifestDefect Manifest
  | [] => .ok m
  | edits :: rounds => do
    let again ← Manifest.parse (m.setVersions edits).text
    again.rewrite rounds

/-- Every number of a manifest is read, as the same integer or as a binary64 number. -/
theorem Manifest.WellFormed.readsAs {m : Manifest} (h : m.WellFormed) :
    ∀ n ∈ m.numbers, n.ReadsAs (mapReal reread n) := by
  intro n hn
  have range := h.document.inRange n hn
  cases n with
  | integer i => exact readsAs_integer range
  | real x => exact readsAs_reread range

/-- What a manifest is read as from its own text. -/
theorem Manifest.WellFormed.parse_text_eq_mapReals {m : Manifest} (h : m.WellFormed) :
    Manifest.parse m.text = .ok (m.mapReals reread) := by
  have plugins : (m.mapReals reread).document.get? "plugins"
      = some (.array ((m.mapReals reread).entries.map .object)) := by
    rw [entries_mapReals, mapReals, get?_mapNumbersInMembers, h.plugins, Option.map_some,
      mapNumbers_objects]
  exact Manifest.parse_eq_ok_iff.mpr ⟨parse_pretty_newline h.document h.readsAs, plugins⟩

/-- **However often a manifest that was read is written and read again**, with versions set in
between: it is always read, every binary64 number becomes what it is read as in each round, and
nothing else changes but the versions that are set. Numbers of few digits never change. -/
theorem Manifest.rewrite_eq_mapReals {text : String} {m : Manifest}
    (hparse : Manifest.parse text = .ok m) (rounds : List (List (Nat × String))) :
    m.rewrite rounds = .ok ((m.setVersions rounds.flatten).mapReals reread^[rounds.length]) ∧
      ∀ x, Short x → reread^[rounds.length] x = x := by
  refine ⟨?_, fun x hx => iterate_reread_of_short hx _⟩
  induction rounds generalizing text m with
  | nil => rw [rewrite]; exact congrArg _ m.mapReals_id.symm
  | cons edits rounds ih =>
      -- what is read is well-formed again, and the next round starts from it
      have whole := wellFormed_setVersions (wellFormed_of_parse hparse) edits
      have read := whole.parse_text_eq_mapReals
      rw [rewrite, read, List.flatten_cons, setVersions_append, List.length_cons,
        Function.iterate_succ, ← mapReals_mapReals, ← (m.setVersions edits).setVersions_mapReals]
      exact ih read

/-- A view of what is read, by evaluation. -/
theorem exists_of_toOption {ε α β : Type} {x : Except ε α} {g : α → β} {b : β}
    (h : x.toOption.map g = some b) : ∃ a, x = .ok a ∧ g a = b := by
  cases x with
  | error e => cases h
  | ok a => exact ⟨a, rfl, Option.some.inj h⟩

/-- A manifest with a price of few digits in an entry, and a number of sixteen digits. -/
def priceText : String :=
  "\x7b\"plugins\":[\x7b\"price\":1.50\x7d],\"x\":9.521956900113902\x7d"

theorem rewrite_priceText_eq_mapReals :
    ∃ m, Manifest.parse priceText = .ok m ∧
      m.numbers.head? = some (.real (.ofDecimal false 150 (-2))) ∧
      m.rewrite [[(0, "1")], [(0, "2")]] =
        .ok ((m.setVersions [(0, "1"), (0, "2")]).mapReals reread^[2]) ∧
      Short (.ofDecimal false 150 (-2)) ∧
      reread^[2] (.ofDecimal false 150 (-2)) = .ofDecimal false 150 (-2) := by
  have read : (Manifest.parse priceText).toOption.map (·.numbers.head?)
      = some (some (.real (.ofDecimal false 150 (-2)))) := by decide +kernel
  obtain ⟨m, hparse, price⟩ := exists_of_toOption read
  obtain ⟨rewritten, kept⟩ := Manifest.rewrite_eq_mapReals hparse [[(0, "1")], [(0, "2")]]
  have short : Short (.ofDecimal false 150 (-2)) := ⟨false, 150, -2, rfl, by decide⟩
  exact ⟨m, hparse, price, rewritten, short, kept _ short⟩

/-! ## Drift -/

/-- The bits of a binary64 number. -/
def bitsOf? : Number → Option Nat
  | .integer _ => none
  | .real x => x.bits?

/-- The bits of the binary64 numbers in a manifest, in the order in which they are written. -/
def Manifest.bits (m : Manifest) : List Nat := m.numbers.filterMap bitsOf?

/-- A manifest with a number of sixteen digits. -/
def driftText : String := "\x7b\"plugins\":[],\"x\":9.521956900113902\x7d"

/-- The number is written with the digits that identify it, and they are read as its neighbour. -/
theorem bits_drift :
    ∃ m again, Manifest.parse driftText = .ok m ∧ Manifest.parse m.text = .ok again ∧
      m.bits = [4621550003248157262] ∧ again.bits = [4621550003248157263] := by
  have read : (Manifest.parse driftText).toOption.map (fun m =>
      (m.bits, (Manifest.parse m.text).toOption.map Manifest.bits)) =
      some ([4621550003248157262], some [4621550003248157263]) := by decide +kernel
  obtain ⟨m, hparse, views⟩ := exists_of_toOption read
  obtain ⟨bits, next⟩ := Prod.mk.inj views
  obtain ⟨again, hagain, drifted⟩ := exists_of_toOption next
  exact ⟨m, again, hparse, hagain, bits, drifted⟩

end SkillMarket.Marketplace
