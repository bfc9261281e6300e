import SkillMarket.Proofs.FileTree.Walk
import SkillMarket.Proofs.Path.Parts

/-!
# Two texts for the same path

The texts of a path may differ in repeated slashes and in `.` between names. Neither changes where
the names lead, as long as a name follows; so two texts for the same path that end in a name lead to
the same place, or fail in the same way.
-/

namespace SkillMarket.FileTree

variable {t : FileTree}

/-! ## Dots between names -/

/-- The names without some of the dots that another name follows. -/
inductive Undotted : List String → List String → Prop
  | nil : Undotted [] []
  | keep {names rest : List String} (name : String) (more : Undotted names rest) :
      Undotted (name :: names) (name :: rest)
  | drop {names rest : List String} (follows : names ≠ []) (more : Undotted names rest) :
      Undotted ("." :: names) rest

theorem Undotted.refl (names : List String) : Undotted names names := by
  induction names with
  | nil => exact .nil
  | cons name names ih => exact .keep name ih

theorem Undotted.append_left {names rest : List String} (h : Undotted names rest)
    (front : List String) : Undotted (front ++ names) (front ++ rest) := by
  induction front with
  | nil => exact h
  | cons name front ih => exact .keep name ih

theorem Undotted.eq_nil_iff {names rest : List String} (h : Undotted names rest) :
    names = [] ↔ rest = [] := by
  induction h with
  | nil => exact Iff.rfl
  | keep => simp
  | drop follows _ ih => simpa [follows] using ih

/-- Dots in front of a name are dropped, all of them. -/
theorem undotted_filter (front : List String) {last : String} (h : last ≠ ".") :
    Undotted (front ++ [last]) ((front ++ [last]).filter (· ≠ ".")) := by
  induction front with
  | nil => simpa [h] using Undotted.refl [last]
  | cons name front ih =>
      by_cases dot : name = "."
      · subst dot
        simpa using ih.drop (by simp)
      · simpa [dot] using ih.keep name

/-- A dot changes nothing if a name follows. -/
theorem walk_dot {ending : Ending} {links : Nat} {loc : Location} {names : List String}
    (follows : names ≠ []) :
    t.walk ending links loc ("." :: names) = t.walk ending links loc names := by
  by_cases here : t.get? loc = some .directory
  · rw [walk]
    simp [here]
  · cases names with
    | nil => exact absurd rfl follows
    | cons name names => simp [walk, here]

theorem Undotted.getLast?_eq {names rest : List String} (h : Undotted names rest) :
    names.getLast? = rest.getLast? := by
  induction h with
  | nil => rfl
  | keep name _ ih => rw [List.getLast?_cons, List.getLast?_cons, ih]
  | drop follows _ ih => rw [List.getLast?_cons_of_ne_nil follows, ih]

/-- The names do not end in a slash, for a walk that is to create a file. -/
def NoSlash (ending : Ending) (names : List String) : Prop :=
  ending = .create → names.getLast? ≠ some ""

theorem noSlash_follow (names : List String) : NoSlash .follow names := nofun

theorem NoSlash.tail {ending : Ending} {name : String} {names : List String}
    (h : NoSlash ending (name :: names)) : NoSlash ending names := by
  intro create blank
  have nonempty : names ≠ [] := by
    rintro rfl
    simp at blank
  exact h create (by rw [List.getLast?_cons_of_ne_nil nonempty, blank])

theorem NoSlash.append_left {ending : Ending} {names : List String} (h : NoSlash ending names)
    (nonempty : names ≠ []) (front : List String) : NoSlash ending (front ++ names) := by
  intro create
  rw [List.getLast?_append_of_ne_nil _ nonempty]
  exact h create

theorem Undotted.blank_iff {ending : Ending} {names rest : List String} (h : Undotted names rest)
    (noSlash : NoSlash ending names) :
    ending = .create ∧ names = [""] ↔ ending = .create ∧ rest = [""] := by
  have last := h.getLast?_eq
  constructor
  · rintro ⟨create, rfl⟩
    exact absurd rfl (noSlash create)
  · rintro ⟨create, rfl⟩
    exact absurd last (noSlash create)

/-- A walk goes the same way without dots between names. -/
theorem Undotted.walk {ending : Ending} {names rest : List String} (h : Undotted names rest)
    (noSlash : NoSlash ending names) (links : Nat) (loc : Location) :
    t.walk ending links loc names = t.walk ending links loc rest := by
  -- a link that is followed leaves one link less, and its names come before the others
  induction links generalizing loc names rest with
  | zero =>
      induction h generalizing loc with
      | nil => rfl
      | drop follows _ ih => rw [walk_dot follows, ih noSlash.tail]
      | keep name more ih =>
          have nil := more.eq_nil_iff
          have slash := more.blank_iff noSlash.tail
          rw [FileTree.walk, FileTree.walk]
          simp [ih noSlash.tail, nil, slash]
  | succ links outer =>
      induction h generalizing loc with
      | nil => rfl
      | drop follows _ ih => rw [walk_dot follows, ih noSlash.tail]
      | @keep names rest name more ih =>
          have nil := more.eq_nil_iff
          have slash := more.blank_iff noSlash.tail
          have followed (text : String) (loc : Location) :
              t.walk ending links loc (steps text ++ names) =
                t.walk ending links loc (steps text ++ rest) := by
            by_cases empty : names = []
            · rw [empty, nil.mp empty]
            · exact outer (more.append_left _) (noSlash.tail.append_left empty _) loc
          rw [FileTree.walk, FileTree.walk]
          simp [ih noSlash.tail, nil, slash, followed]

/-! ## The names of a path -/

/-- The last of the names of a path is one that leads somewhere else. -/
structure EndsInName (path : String) : Prop where
  names : ∃ front last, steps path = front ++ [last] ∧ last ≠ "."
  noSlash : Path.endsInSlash path = false

theorem steps_of_noSlash {path : String} (h : Path.endsInSlash path = false) :
    steps path = ((path.toList.splitOn '/').filter (· ≠ [])).map String.ofList := by
  simp [steps, h, Text.splitAll_eq_splitOn]

/-- Without the dots, the names of a path are the texts between its slashes that count. -/
theorem filter_steps {path : String} (h : Path.endsInSlash path = false) :
    (steps path).filter (· ≠ ".") =
      ((path.toList.splitOn '/').filter Path.counts).map String.ofList := by
  have dot (piece : List Char) : String.ofList piece = "." ↔ piece = ['.'] := by
    rw [← String.toList_inj, String.toList_ofList]
    rfl
  rw [steps_of_noSlash h, List.filter_map, List.filter_filter]
  congr 1
  refine List.filter_congr fun piece _ => ?_
  simp [Path.counts, dot, Bool.and_comm]

theorem ofPiece_injective {a b : List Char} (h : Path.Part.ofPiece a = Path.Part.ofPiece b) :
    a = b := by
  unfold Path.Part.ofPiece at h
  split at h <;> split at h <;> simp_all [String.ofList_inj]

/-- Texts with the same parts have the same texts between their slashes that count. -/
theorem filter_counts_eq {a b : String} (h : Path.parts a = Path.parts b) :
    (a.toList.splitOn '/').filter Path.counts = (b.toList.splitOn '/').filter Path.counts :=
  List.map_injective_iff.mpr (fun _ _ => ofPiece_injective) (Path.parts_eq_parts_iff.mp h).2

/-- Nothing but slashes and dots is in a text between the parts of a path. -/
theorem mem_toList_iff {c : Char} (slash : c ≠ '/') (dot : c ≠ '.') {path : String} :
    c ∈ path.toList ↔ ∃ piece ∈ (path.toList.splitOn '/').filter Path.counts, c ∈ piece := by
  rw [← mem_splitOn slash]
  refine exists_congr fun piece => ?_
  rw [List.mem_filter]
  constructor
  · rintro ⟨hpiece, hc⟩
    refine ⟨⟨hpiece, ?_⟩, hc⟩
    have nonempty : piece ≠ [] := List.ne_nil_of_mem hc
    have noDot : piece ≠ ['.'] := by
      rintro rfl
      exact dot (List.mem_singleton.mp hc)
    simp [Path.counts, nonempty, noDot]
  · rintro ⟨⟨hpiece, -⟩, hc⟩
    exact ⟨hpiece, hc⟩

/-- **Two texts for the same path lead to the same place**, if both end in a name and neither is too
long. -/
theorem locate_eq_of_parts_eq {a b : String} (h : Path.parts a = Path.parts b) (ha : EndsInName a)
    (hb : EndsInName b) (shortA : a.utf8ByteSize < maxPath) (shortB : b.utf8ByteSize < maxPath)
    (current : Location) : t.locate current .follow a = t.locate current .follow b := by
  have pieces := filter_counts_eq h
  have nul : a.toList.contains '\x00' = b.toList.contains '\x00' := by
    rw [Bool.eq_iff_iff, List.contains_iff_mem, List.contains_iff_mem,
      mem_toList_iff (by decide) (by decide), pieces, ← mem_toList_iff (by decide) (by decide)]
  have empty : a = "" ↔ b = "" := by
    rw [← Path.parts_eq_nil_iff, h, Path.parts_eq_nil_iff]
  have absolute : Path.isAbsolute a = Path.isAbsolute b := by
    rw [Path.isAbsolute_eq, Path.isAbsolute_eq, (Path.parts_eq_parts_iff.mp h).1]
  -- both walks are that of the names without dots
  have undotted {path : String} (hpath : EndsInName path) (loc : Location) :
      t.walk .follow maxLinks loc (steps path) = t.walk .follow maxLinks loc
        (((path.toList.splitOn '/').filter Path.counts).map String.ofList) := by
    obtain ⟨⟨front, last, hsteps, hlast⟩, noSlash⟩ := hpath
    rw [← filter_steps noSlash, hsteps]
    exact (undotted_filter front hlast).walk (noSlash_follow _) maxLinks loc
  unfold locate
  rw [undotted ha, undotted hb, pieces, nul, absolute]
  simp only [empty, Nat.not_le.mpr shortA, Nat.not_le.mpr shortB]

/-- A path that goes on with a name ends in it. -/
theorem endsInName_join (base : String) {name : String} (noSlash : '/' ∉ name.toList)
    (hcounts : Path.counts name.toList = true) : EndsInName (Path.join base name) := by
  simp only [Path.counts, Bool.and_eq_true, decide_eq_true_eq] at hcounts
  have relative : Path.isAbsolute name = false := by
    cases hname : name.toList with
    | nil => exact absurd hname hcounts.1
    | cons c cs =>
        have : c ≠ '/' := fun h => noSlash (by simp [hname, h])
        simpa [Path.isAbsolute, hname] using this
  have single := List.splitOn_eq_singleton noSlash
  -- the name stands alone, or after a slash
  obtain ⟨front, hsplit, hlast⟩ : ∃ front,
      (Path.join base name).toList.splitOn '/' = front ++ [name.toList] ∧
        (Path.join base name).toList.getLast? = name.toList.getLast? := by
    by_cases empty : base = ""
    · rw [empty, Path.join_empty]
      exact ⟨[], single, rfl⟩
    · obtain ⟨front, hjoin, -⟩ := Path.exists_toList_join empty relative
      refine ⟨front.splitOn '/', ?_, ?_⟩
      · rw [hjoin, List.splitOn_append_cons_self, single]
      · rw [hjoin, List.getLast?_append_of_ne_nil _ (by simp),
          List.getLast?_cons_of_ne_nil hcounts.1]
  have noSlashAtEnd : Path.endsInSlash (Path.join base name) = false := by
    rw [Path.endsInSlash, hlast, beq_eq_false_iff_ne]
    exact fun h => noSlash (List.mem_of_getLast? h)
  refine ⟨⟨(front.filter (· ≠ [])).map String.ofList, name, ?_, ?_⟩, noSlashAtEnd⟩
  · rw [steps_of_noSlash noSlashAtEnd, hsplit]
    simp [hcounts.1]
  · rintro rfl
    exact hcounts.2 rfl

end SkillMarket.FileTree
