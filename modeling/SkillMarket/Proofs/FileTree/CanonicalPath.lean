import SkillMarket.Proofs.FileTree.Way

/-!
# Canonical paths

The canonical path of a file leads to the place of the file itself, through directories alone. It is
found where it is short enough, and it stays the same when only files differ.
-/

namespace SkillMarket.FileTree

variable {t other : FileTree} {here dir loc : Location} {path name : String}

/-! ## Resolving names -/

/-- A step to a name that passes the tests of resolving. -/
theorem isName_of_resolve_tests {next : Location} {name : String}
    (blank : ¬ (name = "" || name = ".") = true) (notUp : name ≠ "..")
    (fits : ¬ (name.utf8ByteSize > maxName || (fullPath next).utf8ByteSize ≥ maxPath) = true) :
    IsName name ∧ (fullPath next).utf8ByteSize < maxPath := by
  simp only [Bool.or_eq_true, decide_eq_true_eq, not_or] at fits
  exact ⟨isName_of_tests blank notUp fits.1, by omega⟩

/-- What names are resolved to is what they lead to; it is a directory, or has a short path from the
root, unless there are no names. -/
theorem leads_of_resolve {links : Nat} {names : List String}
    (h : t.resolve links here names = .ok loc) :
    Leads t .follow links here names ⟨loc, t.get? loc⟩ ∧
      (names ≠ [] → t.get? loc = some .directory ∨ (fullPath loc).utf8ByteSize < maxPath) := by
  -- where no names are left, the place is the one that was reached before
  have ended {links : Nat} {here : Location} {names : List String}
      (h : t.resolve links here names = .ok loc)
      (reached : t.get? here = some .directory ∨ (fullPath here).utf8ByteSize < maxPath)
      (more : names ≠ [] → t.get? loc = some .directory ∨ (fullPath loc).utf8ByteSize < maxPath) :
      t.get? loc = some .directory ∨ (fullPath loc).utf8ByteSize < maxPath := by
    by_cases hnames : names = []
    · rw [hnames, resolve, Except.ok.injEq] at h
      exact h ▸ reached
    · exact more hnames
  fun_induction resolve t links here names with
  | case1 =>
      rw [Except.ok.injEq] at h
      exact ⟨h ▸ .done, fun none => absurd rfl none⟩
  | case2 => simp at h
  | case3 links here name rest there blank ih =>
      obtain ⟨leads, more⟩ := ih h
      rw [not_not] at there
      exact ⟨.stay there (by simpa using blank) leads, fun _ => ended h (.inl there) more⟩
  | case4 links here rest there above _ ih =>
      obtain ⟨leads, more⟩ := ih h
      exact ⟨.up (by simpa using there) above leads, fun _ => ended h (.inl above) more⟩
  | case5 => simp at h
  | case6 => simp at h
  | case7 => simp at h
  | case8 => simp at h
  | case9 here name rest there blank notUp next fits text link links ih =>
      obtain ⟨leads, more⟩ := ih h
      obtain ⟨isName, -⟩ := isName_of_resolve_tests blank notUp fits
      rw [not_not] at there
      refine ⟨.followed there isName (by simp) link (by simp) leads, fun _ => ended h ?_ more⟩
      left
      split
      · rfl
      · exact there
  | case10 links here name rest there blank notUp next fits node notLink inside ih =>
      obtain ⟨leads, more⟩ := ih h
      obtain ⟨isName, short⟩ := isName_of_resolve_tests blank notUp fits
      exact ⟨.entered (by simpa using there) isName (by simp) inside
        (fun text htext => notLink text htext) leads, fun _ => ended h (.inr short) more⟩

/-- Names are resolved to the same place, or fail in the same way, when only files differ. -/
theorem resolve_congr (hshape : SameShape t other) (links : Nat) (here : Location)
    (names : List String) : other.resolve links here names = t.resolve links here names := by
  have directory := hshape.directory_iff
  fun_induction resolve t links here names with
  | case1 => rw [resolve]
  | case2 links here name rest there => simp [resolve, directory, there]
  | case3 links here name rest there blank ih =>
      rw [resolve, if_neg (by simpa [directory] using there), if_pos blank, ih]
  | case4 links here rest there above _ ih =>
      rw [resolve, if_neg (by simpa [directory] using there), if_neg (by decide), if_pos rfl,
        if_pos ((directory _).mpr above), ih]
  | case5 links here rest there above _ =>
      rw [resolve]
      simp [directory, there, above]
  | case6 links here name rest there blank notUp next long =>
      rw [resolve, if_neg (by simpa [directory] using there), if_neg blank, if_neg notUp]
      exact if_pos long
  | case7 links here name rest there blank notUp next fits absent =>
      have absent' := hshape.get?_eq_of absent (by simp)
      rw [resolve, if_neg (by simpa [directory] using there), if_neg blank, if_neg notUp]
      simp only [next, absent']
      exact if_neg fits
  | case8 here name rest there blank notUp next fits text link =>
      have link' := hshape.get?_eq_of link (by simp)
      rw [resolve, if_neg (by simpa [directory] using there), if_neg blank, if_neg notUp]
      simp only [next, link']
      exact if_neg fits
  | case9 here name rest there blank notUp next fits text link links ih =>
      have link' := hshape.get?_eq_of link (by simp)
      rw [resolve, if_neg (by simpa [directory] using there), if_neg blank, if_neg notUp]
      simp only [next, link']
      exact (if_neg fits).trans (by simpa using ih)
  | case10 links here name rest there blank notUp next fits node notLink inside ih =>
      obtain ⟨node', there', notLink'⟩ :=
        hshape.exists_not_link inside fun text h => notLink text h
      rw [resolve, if_neg (by simpa [directory] using there), if_neg blank, if_neg notUp, ← ih]
      cases node' with
      | link text => exact absurd rfl (notLink' text)
      | _ =>
          simp only [next] at there' fits ⊢
          simp only [there']
          exact if_neg fits

theorem canonicalize_congr (hshape : SameShape t other) (here : Location) (path : String) :
    other.canonicalize here path = t.canonicalize here path := by
  rw [canonicalize, canonicalize, resolve_congr hshape]

/-! ## The canonical path of a file -/

/-- A text is the end of what is put together from texts of which it is the last. -/
theorem suffix_intercalate (sep last : List Char) (texts : List (List Char)) :
    last <:+ sep.intercalate (texts ++ [last]) := by
  induction texts with
  | nil => simp
  | cons text texts ih =>
      obtain ⟨next, more, hmore⟩ := List.exists_cons_of_ne_nil
        (List.append_ne_nil_of_right_ne_nil texts (List.cons_ne_nil last []))
      rw [List.cons_append, hmore, List.intercalate_cons_cons, ← hmore]
      exact ih.trans (List.suffix_append _ _)

theorem noSlash_fullPath {name : String} (piece : IsPiece name) (dir : Location) :
    Path.endsInSlash (fullPath (dir ++ [name])) = false := by
  have joined : (fullPath (dir ++ [name])).toList =
      '/' :: ['/'].intercalate (dir.map String.toList ++ [name.toList]) := by
    simp [fullPath, String.toList_intercalate]
  obtain ⟨front, hfront⟩ := suffix_intercalate ['/'] name.toList (dir.map String.toList)
  have nonempty : name.toList ≠ [] := by simpa using piece.nonempty
  rw [Path.endsInSlash, joined, ← hfront, ← List.cons_append,
    List.getLast?_append_of_ne_nil _ nonempty, beq_eq_false_iff_ne]
  exact fun slash => piece.noSlash (List.mem_of_getLast? slash)

theorem fullPath_ne_empty (loc : Location) : fullPath loc ≠ "" := by
  simp [fullPath, ← String.toList_inj]

/-- The path of a location is followed by its names. -/
theorem steps_fullPath {name : String} (pieces : ∀ n ∈ dir ++ [name], IsPiece n) :
    steps (fullPath (dir ++ [name])) = dir ++ [name] := by
  rw [steps_eq_names (noSlash_fullPath (pieces name (by simp)) dir), names_fullPath pieces]

namespace WellFormed

/-- The names of a directory pass nothing but directories. -/
theorem passes (h : t.WellFormed) {names : List String} {links : Nat}
    (there : t.get? (loc ++ names) = some .directory) :
    Passes t links loc names links (loc ++ names) := by
  induction names generalizing loc with
  | nil => rw [List.append_nil]; exact .done
  | cons name names ih =>
      rw [List.append_cons] at there ⊢
      have inside := h.directory_of_append there
      obtain ⟨outside, isFileName⟩ := h _ _ _ inside
      exact .entered outside isFileName.toIsName inside (ih there)

/-- The path from the root has its way to what it is the path of. -/
theorem way (h : t.WellFormed) {node : Node} (there : t.get? (dir ++ [name]) = some node)
    (short : (fullPath (dir ++ [name])).utf8ByteSize < maxPath) (here : Location) :
    Way t here (fullPath (dir ++ [name])) maxLinks dir name := by
  obtain ⟨directory, isFileName⟩ := h _ _ _ there
  have isFileNames : ∀ n ∈ dir ++ [name], IsFileName n := by
    rw [List.forall_mem_append]
    exact ⟨fun n hn => h.isFileName_of_mem directory hn, by simpa using isFileName⟩
  have names_eq := names_fullPath fun n hn => (isFileNames n hn).isProper.toIsPiece
  have noNul : '\x00' ∉ (fullPath (dir ++ [name])).toList := by
    rw [notMem_toList_iff (by decide), names_eq]
    exact fun n hn => (isFileNames n hn).noNul
  have absolute : Path.isAbsolute (fullPath (dir ++ [name])) = true := by
    simp [Path.isAbsolute, fullPath]
  have passes : Passes t maxLinks [] dir maxLinks dir := h.passes directory
  refine ⟨⟨by simpa using noNul, fullPath_ne_empty _, short⟩,
    noSlash_fullPath isFileName.isProper.toIsPiece dir, isFileName.isProper, directory,
    dir, names_eq, ?_⟩
  rwa [start, if_pos absolute]

end WellFormed

/-- **The canonical path of a file leads to the place of the file**, without a link on the way. -/
theorem canonicalize_eq_ok {full : String} {mode : Nat} {content : ByteArray}
    (h : t.canonicalize here path = .ok full)
    (hstat : t.stat here path = .ok (loc, .file mode content)) :
    full = fullPath loc ∧ (fullPath loc).utf8ByteSize < maxPath := by
  obtain ⟨isPath, leads⟩ := locate_eq_ok_iff.mp (stat_eq_ok_iff.mp hstat)
  obtain ⟨noNul, nonempty, -⟩ := isPath
  rw [canonicalize, if_neg (by rw [noNul]; decide), if_neg nonempty, ← start] at h
  cases hresolve : t.resolve maxLinks (start here path) (steps path) with
  | error e => simp [hresolve, Except.map] at h
  | ok l =>
      obtain ⟨leads', reached⟩ := leads_of_resolve hresolve
      -- both follow the same names
      have same := (walk_of_leads leads').symm.trans (walk_of_leads leads)
      rw [Except.ok.injEq, Target.mk.injEq] at same
      obtain ⟨rfl, hfile⟩ := same
      rw [hresolve, Except.map, Except.ok.injEq] at h
      exact ⟨h.symm, (reached (steps_ne_nil nonempty)).resolve_left (by simp [hfile])⟩

end SkillMarket.FileTree
