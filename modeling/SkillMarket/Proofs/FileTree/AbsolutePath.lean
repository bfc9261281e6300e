import SkillMarket.Proofs.FileTree.Access
import SkillMarket.Proofs.FileTree.Children
import SkillMarket.Proofs.FileTree.SamePath

/-!
# Absolute paths

A path that is seen from the root has the names of the current directory and then its own, without
the dots. It leads where the path leads from the current directory, over the same links, and so it
does for a reader in any other directory.
-/

namespace SkillMarket.FileTree

variable {t : FileTree}

/-! ## The names of a path -/

/-- The texts between the slashes of a path. -/
def names (path : String) : List String :=
  ((path.toList.splitOn '/').filter (· ≠ [])).map String.ofList

theorem steps_eq (path : String) :
    steps path = names path ++ if Path.endsInSlash path then [""] else [] := by
  rw [steps, names, Text.splitAll_eq_splitOn]

theorem steps_eq_names {path : String} (h : Path.endsInSlash path = false) :
    steps path = names path :=
  steps_of_noSlash h

/-- A text that stands between two slashes. -/
structure IsPiece (text : String) : Prop where
  nonempty : text ≠ ""
  noSlash : '/' ∉ text.toList

theorem isPiece_of_mem_names {path name : String} (h : name ∈ names path) : IsPiece name := by
  obtain ⟨piece, hpiece, rfl⟩ := List.mem_map.mp h
  obtain ⟨inside, nonempty⟩ := List.mem_filter.mp hpiece
  constructor
  · simpa [← String.toList_inj] using nonempty
  · rw [String.toList_ofList]
    exact sep_notMem_of_mem_splitOn inside

namespace IsPiece

variable {text : String}

theorem relative (h : IsPiece text) : Path.isAbsolute text = false := by
  rw [Path.isAbsolute, beq_eq_false_iff_ne]
  exact fun slash => h.noSlash (List.mem_of_mem_head? slash)

theorem names_eq (h : IsPiece text) : names text = [text] := by
  have nonempty : text.toList ≠ [] := by simpa using h.nonempty
  simp [names, List.splitOn_eq_singleton h.noSlash, nonempty]

/-- Going on from a path with a text adds the text to its names. -/
theorem names_join (h : IsPiece text) (base : String) :
    names (Path.join base text) = names base ++ [text] := by
  by_cases empty : base = ""
  · rw [empty, Path.join_empty, h.names_eq]
    rfl
  · obtain ⟨front, hjoin, ⟨-, hbase⟩ | hbase⟩ := Path.exists_toList_join empty h.relative
    all_goals
      rw [names, names, hjoin, hbase, List.splitOn_append_cons_self,
        List.splitOn_eq_singleton h.noSlash]
      simp [show text.toList ≠ [] by simpa using h.nonempty, List.splitOn_append_cons_self]

theorem isAbsolute_join (h : IsPiece text) {base : String} (nonempty : base ≠ "") :
    Path.isAbsolute (Path.join base text) = Path.isAbsolute base := by
  obtain ⟨front, hjoin, ⟨hfront, hbase⟩ | hbase⟩ := Path.exists_toList_join nonempty h.relative
  · obtain ⟨c, more, rfl⟩ := List.exists_cons_of_ne_nil hfront
    simp [Path.isAbsolute, hjoin, hbase]
  · cases front <;> simp [Path.isAbsolute, hjoin, hbase]

theorem noSlash_join (h : IsPiece text) (base : String) :
    Path.endsInSlash (Path.join base text) = false := by
  have nonempty : text.toList ≠ [] := by simpa using h.nonempty
  have last : (Path.join base text).toList.getLast? = text.toList.getLast? := by
    by_cases empty : base = ""
    · rw [empty, Path.join_empty]
    · obtain ⟨front, hjoin, -⟩ := Path.exists_toList_join empty h.relative
      rw [hjoin, List.getLast?_append_of_ne_nil _ (by simp), List.getLast?_cons_of_ne_nil nonempty]
  rw [Path.endsInSlash, last, beq_eq_false_iff_ne]
  exact fun slash => h.noSlash (List.mem_of_getLast? slash)

end IsPiece

/-- A path that goes on with texts, one after the other. -/
structure GoesOn (base : String) (texts : List String) (path : String) : Prop where
  names_eq : names path = names base ++ texts
  isAbsolute_eq : Path.isAbsolute path = Path.isAbsolute base
  nonempty : path ≠ ""
  noSlash : texts ≠ [] → Path.endsInSlash path = false

theorem goesOn_foldl_join {base : String} (texts : List String) (nonempty : base ≠ "")
    (pieces : ∀ text ∈ texts, IsPiece text) : GoesOn base texts (texts.foldl Path.join base) := by
  induction texts using List.reverseRecOn with
  | nil => exact ⟨by simp, rfl, nonempty, fun h => absurd rfl h⟩
  | append_singleton texts text ih =>
      have before := ih fun other hother => pieces other (by simp [hother])
      have piece := pieces text (by simp)
      rw [List.foldl_append, List.foldl_cons, List.foldl_nil]
      constructor
      · rw [piece.names_join, before.names_eq, List.append_assoc]
      · rw [piece.isAbsolute_join before.nonempty, before.isAbsolute_eq]
      · intro h
        have none : names "" = [] := rfl
        simpa [none, h] using piece.names_join (texts.foldl Path.join base)
      · exact fun _ => piece.noSlash_join _

/-! ## Seen from the root -/

/-- The parts that go on from the start of a path are its names without the dots. -/
theorem text_inner {path : String} (noSlash : Path.endsInSlash path = false) :
    (((Path.parts path).filter (· ≠ .here)).filter (· ≠ .root)).map Path.Part.text =
      (names path).filter (· ≠ ".") := by
  have marks : ((Path.leading path.toList).filter (· ≠ .here)).filter (· ≠ .root) = [] := by
    unfold Path.leading
    split <;> rfl
  have kept : ((Path.inner path.toList).filter (· ≠ .here)).filter (· ≠ .root) =
      Path.inner path.toList := by
    rw [List.filter_filter, List.filter_eq_self]
    intro part hpart
    have notMark := Path.not_isMark_of_mem_inner hpart
    cases part <;> simp_all [Path.Part.isMark]
  have text (piece : List Char) :
      (Path.Part.ofPiece piece).text = String.ofList piece := by
    unfold Path.Part.ofPiece
    split
    · next up => rw [up]; rfl
    · rfl
  rw [← steps_eq_names noSlash, filter_steps noSlash, Path.parts_eq, List.filter_append,
    List.filter_append, marks, kept, List.nil_append, Path.inner, List.map_map]
  exact congrArg (List.map · _) (funext text)

/-- The path from the root goes on with the names, without the dots, from the root or from the
current directory. -/
theorem exists_absolute?_eq (current : String) {path : String} (nonempty : path ≠ "")
    (noSlash : Path.endsInSlash path = false) :
    ∃ base, Path.absolute? current path =
        some (((names path).filter (· ≠ ".")).foldl Path.join base) ∧
      if Path.isAbsolute path then base = "/" ∨ base = "//" else base = current := by
  have folded (base : String) :
      (((Path.parts path).filter (· ≠ .here)).filter (· ≠ .root)).foldl
        (fun p part => Path.join p part.text) base =
      ((names path).filter (· ≠ ".")).foldl Path.join base := by
    rw [← text_inner noSlash, List.foldl_map]
  simp only [Path.absolute?, if_neg nonempty, noSlash, folded]
  refine ⟨_, rfl, ?_⟩
  by_cases absolute : Path.isAbsolute path = true
  · rw [if_pos absolute, if_pos absolute]
    exact (ite_eq_or_eq _ _ _).symm
  · have twoSlashes : path.toList.head? ≠ some '/' := by
      simpa [Path.isAbsolute] using absolute
    rw [if_neg absolute, if_neg absolute]
    refine if_neg ?_
    split <;> simp_all

theorem names_fullPath {loc : Location} (pieces : ∀ name ∈ loc, IsPiece name) :
    names (fullPath loc) = loc := by
  have joined : (fullPath loc).toList = '/' :: ['/'].intercalate (loc.map String.toList) := by
    simp [fullPath, String.toList_intercalate]
  have first (cs : List Char) : ('/' :: cs).splitOn '/' = [] :: cs.splitOn '/' :=
    List.splitOn_append_cons_self [] cs
  rw [names, joined, first]
  by_cases atRoot : loc = []
  · rw [atRoot]
    rfl
  · have noSlash : ∀ piece ∈ loc.map String.toList, '/' ∉ piece := by
      simpa using fun name hname => (pieces name hname).noSlash
    rw [List.splitOn_intercalate '/' noSlash (by simpa using atRoot)]
    have kept : (loc.map String.toList).filter (· ≠ []) = loc.map String.toList := by
      simpa [List.filter_eq_self] using fun name hname => (pieces name hname).nonempty
    rw [List.filter_cons_of_neg (by simp), kept, List.map_map]
    simp [Function.comp_def]

/-- The path from the root for a path that is read in a directory. -/
structure IsFull (here : Location) (path full : String) : Prop where
  isAbsolute : Path.isAbsolute full = true
  names_eq : names full = start here path ++ (names path).filter (· ≠ ".")
  noSlash : (names path).filter (· ≠ ".") ≠ [] → Path.endsInSlash full = false

/-- **A path that is seen from the root has the names of its start and then its own.** -/
theorem exists_absolute?_isFull {here : Location} (pieces : ∀ name ∈ here, IsPiece name)
    {path : String} (nonempty : path ≠ "") (noSlash : Path.endsInSlash path = false) :
    ∃ full, Path.absolute? (fullPath here) path = some full ∧ IsFull here path full := by
  obtain ⟨base, hfull, hbase⟩ := exists_absolute?_eq (fullPath here) nonempty noSlash
  -- the path goes on from the root or from the current directory
  obtain ⟨isAbsolute, baseNames⟩ : Path.isAbsolute base = true ∧
      names base = start here path := by
    unfold start
    split_ifs at hbase ⊢
    · rcases hbase with rfl | rfl <;> exact ⟨rfl, rfl⟩
    · rw [hbase]
      exact ⟨by simp [Path.isAbsolute, fullPath], names_fullPath pieces⟩
  have baseNonempty : base ≠ "" := by
    rintro rfl
    exact absurd isAbsolute (by decide)
  have goesOn := goesOn_foldl_join ((names path).filter (· ≠ ".")) baseNonempty
    fun text htext => isPiece_of_mem_names (List.mem_filter.mp htext).1
  exact ⟨_, hfull, goesOn.isAbsolute_eq.trans isAbsolute, baseNames ▸ goesOn.names_eq,
    goesOn.noSlash⟩

/-! ## Where a path from the root leads -/

/-- A text between slashes that stands for itself: a name, however long. -/
structure IsProper (text : String) : Prop extends IsPiece text where
  notHere : text ≠ "."
  notUp : text ≠ ".."

theorem IsProper.counts {text : String} (h : IsProper text) : Path.counts text.toList = true := by
  have noDot : text.toList ≠ ['.'] := fun hdot => h.notHere (String.toList_inj.mp hdot)
  simpa [Path.counts, noDot] using h.nonempty

/-- As a path, such a text is one name. -/
theorem IsProper.isOne {text : String} (h : IsProper text) : Path.IsOne text text := by
  have split : text.toList.splitOn '/' = [text.toList] := List.splitOn_eq_singleton h.noSlash
  have notUp : text.toList ≠ ['.', '.'] := fun hup => h.notUp (String.toList_inj.mp hup)
  rw [Path.IsOne, Path.parts_eq, Path.leading, Path.start_of_counts split h.counts, Path.inner,
    split]
  simp [h.counts, Path.Part.ofPiece, notUp]

theorem IsFileName.isProper {name : String} (h : IsFileName name) : IsProper name :=
  ⟨⟨h.nonempty, h.noSlash⟩, h.notHere, h.notUp⟩

theorem IsFileName.isOne {name : String} (h : IsFileName name) : Path.IsOne name name :=
  h.isProper.isOne

/-- A character other than a slash is in no name of a path that it is not in. -/
theorem notMem_toList_iff {c : Char} (slash : c ≠ '/') {path : String} :
    c ∉ path.toList ↔ ∀ name ∈ names path, c ∉ name.toList := by
  rw [← mem_splitOn slash]
  constructor
  · intro h name hname hc
    obtain ⟨piece, hpiece, rfl⟩ := List.mem_map.mp hname
    exact h ⟨piece, (List.mem_filter.mp hpiece).1, by simpa using hc⟩
  · rintro h ⟨piece, hpiece, hc⟩
    refine h (String.ofList piece) (List.mem_map_of_mem ?_) (by simpa using hc)
    exact List.mem_filter.mpr ⟨hpiece, by simpa using List.ne_nil_of_mem hc⟩

/-- An absolute path that leads to what stands at a location. -/
structure IsPathTo (t : FileTree) (loc : Location) (path : String) : Prop where
  absolute : Path.isAbsolute path = true
  noNul : '\x00' ∉ path.toList
  leads : Leads t .follow maxLinks [] (steps path) ⟨loc, t.get? loc⟩

/-- Such a path is good for a reader in any directory, as long as it is not too long. -/
theorem IsPathTo.stat_eq {loc : Location} {path : String} {node : Node} (h : IsPathTo t loc path)
    (short : path.utf8ByteSize < maxPath) (there : t.get? loc = some node) (current : Location) :
    t.stat current path = .ok (loc, node) := by
  have nonempty : path ≠ "" := by
    rintro rfl
    exact absurd h.absolute (by decide)
  have leads := h.leads
  rw [there] at leads
  rw [stat_eq_ok_iff, locate_eq_ok_iff, start, if_pos h.absolute]
  exact ⟨⟨by simpa using h.noNul, nonempty, short⟩, leads⟩

/-- A path starts from a directory. -/
theorem get?_start {here : Location} (there : t.get? here = some .directory) (path : String) :
    t.get? (start here path) = some .directory := by
  unfold start
  split
  · rfl
  · exact there

/-- **The path seen from the root leads where the path leads from the current directory.** -/
theorem exists_absolute?_isPathTo (wellFormed : t.WellFormed) {here loc : Location}
    (there : t.get? here = some .directory) {path : String} (ends : EndsInName path)
    (noNul : '\x00' ∉ path.toList)
    (leads : Leads t .follow maxLinks (start here path) (steps path) ⟨loc, t.get? loc⟩) :
    ∃ full, Path.absolute? (fullPath here) path = some full ∧ IsPathTo t loc full := by
  obtain ⟨⟨front, last, hsteps, hlast⟩, noSlash⟩ := ends
  rw [steps_eq_names noSlash] at hsteps leads
  have nonempty : path ≠ "" := by
    rintro rfl
    simp [names] at hsteps
  have pieces : ∀ name ∈ here, IsPiece name := fun name hname =>
    (wellFormed.isFileName_of_mem there hname).isProper.toIsPiece
  have startThere := get?_start there path
  obtain ⟨full, hfull, isFull⟩ := exists_absolute?_isFull pieces nonempty noSlash
  refine ⟨full, hfull, isFull.isAbsolute, ?_, ?_⟩
  · rw [notMem_toList_iff (by decide), isFull.names_eq, List.forall_mem_append]
    constructor
    · exact fun name hname => (wellFormed.isFileName_of_mem startThere hname).noNul
    · exact fun name hname => (notMem_toList_iff (by decide)).mp noNul name
        (List.mem_filter.mp hname).1
  · -- the dots make no difference to where the names lead
    have undotted : Undotted (names path) ((names path).filter (· ≠ ".")) := by
      rw [hsteps]
      exact undotted_filter front hlast
    have walked : Leads t .follow maxLinks (start here path) ((names path).filter (· ≠ "."))
        ⟨loc, t.get? loc⟩ :=
      leads_of_walk ((undotted.walk (noSlash_follow _) _ _).symm.trans (walk_of_leads leads))
    rw [steps_eq_names (isFull.noSlash (by simp [hsteps, hlast])), isFull.names_eq]
    exact wellFormed.leads_append startThere walked

/-- What stands in a directory is reached by its name after the path of the directory. -/
theorem leads_join {here loc : Location} {root name : String} (isFileName : IsFileName name)
    (root_leads : t.stat here root = .ok (loc, .directory))
    (child : t.get? (loc ++ [name]) = some .directory) :
    Leads t .follow maxLinks (start here (Path.join root name)) (steps (Path.join root name))
      ⟨loc ++ [name], t.get? (loc ++ [name])⟩ := by
  obtain ⟨isPath, leads⟩ := locate_eq_ok_iff.mp (stat_eq_ok_iff.mp root_leads)
  have piece := isFileName.isProper.toIsPiece
  have inside : Leads t .follow maxLinks (start here root) (names root) ⟨loc, some .directory⟩ := by
    rw [steps_eq] at leads
    split at leads
    · exact leads.without_slash
    · rwa [List.append_nil] at leads
  rw [start, piece.isAbsolute_join isPath.nonempty, ← start,
    steps_eq_names (piece.noSlash_join root), piece.names_join, child]
  exact inside.entered_at_end rfl isFileName.toIsName child

/-- A directory has an absolute path that is read off the path of the directory that it stands in
and its name. -/
theorem exists_absolute?_join (wellFormed : t.WellFormed) {here loc : Location}
    (there : t.get? here = some .directory) {root name : String}
    (root_leads : t.stat here root = .ok (loc, .directory))
    (child : t.get? (loc ++ [name]) = some .directory) :
    ∃ full, Path.absolute? (fullPath here) (Path.join root name) = some full ∧
      IsPathTo t (loc ++ [name]) full := by
  have isFileName := (wellFormed _ _ _ child).2
  have ends : EndsInName (Path.join root name) :=
    endsInName_join root isFileName.noSlash isFileName.isProper.counts
  have noNul : '\x00' ∉ (Path.join root name).toList := by
    have rootNoNul := (locate_eq_ok_iff.mp (stat_eq_ok_iff.mp root_leads)).1.noNul
    rw [notMem_toList_iff (by decide), isFileName.isProper.names_join, List.forall_mem_append,
      ← notMem_toList_iff (by decide)]
    exact ⟨by simpa using rootNoNul, by simpa using isFileName.noNul⟩
  exact exists_absolute?_isPathTo wellFormed there ends noNul
    (leads_join isFileName root_leads child)

end SkillMarket.FileTree
