import SkillMarket.Proofs.Marketplace.Replace

/-!
# Where a manifest is saved

A manifest is saved at the canonical path of its file, so that links stay what they are. Where that
path cannot be told, it is saved at the path as it was given: then it comes to stand at the last
name of that path, be that a link to the file or the file itself. Either way the manifest's path
leads to what was saved.
-/

namespace SkillMarket.Marketplace

open FileTree

/-- Where a run saves the manifest: at the last name of the path that it is saved at. -/
def Sync.place (s : Sync) (t : FileTree) (here : Location) : Location :=
  match t.locate here .keep (savePath t here s.manifestPath) with
  | .ok target => target.location
  | .error _ => []

/-- Where a run writes the manifest first. -/
def Sync.temporary (s : Sync) (t : FileTree) (here : Location) (process : Nat) : Location :=
  temporaryLocation (s.place t here) process

/-- How a run saves the manifest: the tree after it, and why it has failed. -/
def Sync.save (s : Sync) (t : FileTree) (here : Location) (process : Nat) (content : ByteArray) :
    FileTree × Option FileError :=
  replaceFile t here process (savePath t here s.manifestPath) content

/-- Nothing keeps a run from saving the manifest. -/
def Sync.Writable (s : Sync) (t : FileTree) (here : Location) (process : Nat) : Prop :=
  Marketplace.Writable t (savePath t here s.manifestPath) (s.place t here) process

variable {s : Sync} {t other : FileTree} {here loc : Location} {process mode : Nat}
  {old content : ByteArray}

/-! ## The path that a manifest is saved at -/

theorem savePath_congr (hshape : SameShape t other) (here : Location) (path : String) :
    savePath other here path = savePath t here path := by
  rw [savePath, savePath, canonicalize_congr hshape]

/-- A manifest is saved at the same place when only files differ. -/
theorem Sync.place_congr (hshape : SameShape t other) : s.place other here = s.place t here := by
  rw [place, place, savePath_congr hshape, locate_congr hshape]
  cases t.locate here .keep (savePath t here s.manifestPath) <;> rfl

theorem Sync.place_eq_of_fileWay {left : Nat} {dir : Location} {name : String}
    (way : FileWay t here (savePath t here s.manifestPath) left dir name loc mode old) :
    s.place t here = dir ++ [name] := by
  rw [place, way.locate_eq (.refl t), walk_of_leads way.placed.leads_keep]

/-- A canonical path leads to the last name of the file. -/
theorem fileWay_canonical (wellFormed : t.WellFormed) {path full : String}
    (canonical : t.canonicalize here path = .ok full)
    (hstat : t.stat here path = .ok (loc, .file mode old)) :
    ∃ dir name, loc = dir ++ [name] ∧ FileWay t here full maxLinks dir name loc mode old := by
  obtain ⟨rfl, short⟩ := canonicalize_eq_ok canonical hstat
  obtain ⟨dir, name, rfl, placed⟩ := placed_of_stat hstat
  have hfile := get?_of_stat hstat
  refine ⟨dir, name, rfl, wellFormed.way hfile short here, placed, ?_⟩
  rw [← hfile]
  exact placed.leads (by simp [hfile])

/-- **The path that a manifest is saved at ends in a name that leads to the manifest.** -/
theorem Sync.exists_fileWay (wellFormed : t.WellFormed)
    (hstat : t.stat here s.manifestPath = .ok (loc, .file mode old)) :
    ∃ left dir name, s.place t here = dir ++ [name] ∧
      FileWay t here (savePath t here s.manifestPath) left dir name loc mode old := by
  obtain ⟨left, dir, name, way⟩ : ∃ left dir name,
      FileWay t here (savePath t here s.manifestPath) left dir name loc mode old := by
    unfold savePath
    split
    · next full canonical =>
      obtain ⟨dir, name, -, way⟩ := fileWay_canonical wellFormed canonical hstat
      exact ⟨maxLinks, dir, name, way⟩
    · exact exists_fileWay_of_stat hstat
  exact ⟨left, dir, name, Sync.place_eq_of_fileWay way, way⟩

/-- **Where its canonical path can be told, a manifest is saved where it is.** -/
theorem Sync.place_eq_of_canonicalize (wellFormed : t.WellFormed) {full : String}
    (canonical : t.canonicalize here s.manifestPath = .ok full)
    (hstat : t.stat here s.manifestPath = .ok (loc, .file mode old)) : s.place t here = loc := by
  obtain ⟨dir, name, rfl, way⟩ := fileWay_canonical wellFormed canonical hstat
  have saved : savePath t here s.manifestPath = full := by rw [savePath, canonical]
  exact Sync.place_eq_of_fileWay (saved ▸ way)

/-- A manifest that is too far from the root is saved at its path as it was given. -/
theorem Sync.savePath_of_far (hstat : t.stat here s.manifestPath = .ok (loc, .file mode old))
    (far : maxPath ≤ (fullPath loc).utf8ByteSize) :
    savePath t here s.manifestPath = s.manifestPath := by
  cases canonical : t.canonicalize here s.manifestPath with
  | ok full =>
      have short := (canonicalize_eq_ok canonical hstat).2
      omega
  | error e => rw [savePath, canonical]

/-- It comes to stand at the last name of that path. -/
theorem Sync.place_of_far (hstat : t.stat here s.manifestPath = .ok (loc, .file mode old))
    (far : maxPath ≤ (fullPath loc).utf8ByteSize) {target : Target}
    (located : t.locate here .keep s.manifestPath = .ok target) :
    s.place t here = target.location := by
  rw [Sync.place, Sync.savePath_of_far hstat far, located]

/-- A manifest that is saved elsewhere than where it is replaces a link. -/
theorem Sync.place_eq_or_link (wellFormed : t.WellFormed)
    (hstat : t.stat here s.manifestPath = .ok (loc, .file mode old)) :
    s.place t here = loc ∨ ∃ text, t.get? (s.place t here) = some (.link text) := by
  obtain ⟨left, dir, name, hplace, way⟩ := s.exists_fileWay wellFormed hstat
  rw [hplace]
  exact way.location_eq.imp_left Eq.symm

/-- Something stands where a manifest is saved. -/
theorem Sync.get?_place_ne_none (wellFormed : t.WellFormed)
    (hstat : t.stat here s.manifestPath = .ok (loc, .file mode old)) :
    t.get? (s.place t here) ≠ none := by
  rcases s.place_eq_or_link wellFormed hstat with same | ⟨text, link⟩
  · simp [same, get?_of_stat hstat]
  · simp [link]

/-! ## Saving -/

/-- **The manifest's path leads to what was saved.** -/
theorem Sync.stat_of_saved (wellFormed : t.WellFormed)
    (hstat : t.stat here s.manifestPath = .ok (loc, .file mode old))
    (hget : ∀ l, other.get? l =
      if s.place t here = l then some (.file mode content) else t.get? l) :
    other.stat here s.manifestPath = .ok (s.place t here, .file mode content) := by
  cases canonical : t.canonicalize here s.manifestPath with
  | ok full =>
      rw [s.place_eq_of_canonicalize wellFormed canonical hstat] at hget ⊢
      have rewritten : Rewritten t other loc mode old content := .of_get? (get?_of_stat hstat) hget
      exact stat_congr rewritten.sameShape hstat rewritten.after
  | error e =>
      -- the path was saved at as it is
      obtain ⟨left, dir, name, hplace, way⟩ := s.exists_fileWay wellFormed hstat
      rw [savePath, canonical] at way
      rw [hplace] at hget ⊢
      exact way.stat_of_elsewhere (by rw [hget, if_pos rfl])
        fun l hl => by rw [hget, if_neg (Ne.symm hl)]

/-- **Where nothing stands at the temporary location, a manifest is saved if nothing keeps it from
that**, and nothing else changes. -/
theorem Sync.save_of_free (wellFormed : t.WellFormed)
    (hstat : t.stat here s.manifestPath = .ok (loc, .file mode old))
    (free : t.get? (s.temporary t here process) = none) (content : ByteArray) :
    (s.Writable t here process ∧
        ∃ done, s.save t here process content = (done, none) ∧
          ∀ l, done.get? l =
            if s.place t here = l then some (.file mode content) else t.get? l) ∨
      (¬ s.Writable t here process ∧
        ∃ e, s.save t here process content = (t, some e)) := by
  obtain ⟨left, dir, name, hplace, way⟩ := s.exists_fileWay wellFormed hstat
  rw [Sync.temporary, hplace, temporaryLocation_append] at free
  rw [Sync.Writable, hplace]
  exact replaceFile_of_free free way content

/-- What was saved is the bytes of the manifest, and nothing else. -/
theorem Sync.get?_saved (wellFormed : t.WellFormed)
    (hstat : t.stat here s.manifestPath = .ok (loc, .file mode old))
    (free : t.get? (s.temporary t here process) = none) {done : FileTree}
    (h : s.save t here process content = (done, none))
    (l : Location) :
    done.get? l = if s.place t here = l then some (.file mode content) else t.get? l := by
  rcases Sync.save_of_free wellFormed hstat free content with
    ⟨-, done', saved, hget⟩ | ⟨-, e, failed⟩
  · rw [saved, Prod.mk.injEq] at h
    exact h.1 ▸ hget l
  · simp [failed] at h

/-- Where nothing stands at the temporary location, a failure leaves the tree alone. -/
theorem Sync.tree_of_save_failed (wellFormed : t.WellFormed)
    (hstat : t.stat here s.manifestPath = .ok (loc, .file mode old))
    (free : t.get? (s.temporary t here process) = none) {after : FileTree} {e : FileError}
    (h : s.save t here process content = (after, some e)) :
    after = t := by
  rcases Sync.save_of_free wellFormed hstat free content with ⟨-, done, saved, -⟩ | ⟨-, e', failed⟩
  · simp [saved] at h
  · rw [failed, Prod.mk.injEq] at h
    exact h.1.symm

/-! ## Saving where something stands in the way -/

/-- What has come of a manifest that was saved, whatever stood at the temporary location. -/
theorem Sync.get?_saved_through (wellFormed : t.WellFormed)
    (hstat : t.stat here s.manifestPath = .ok (loc, .file mode old)) {done : FileTree}
    (h : s.save t here process content = (done, none)) :
    ∃ target, t.locate here .create (temporaryPath (savePath t here s.manifestPath) process) =
        .ok target ∧
      (target.node = none ∨ ∃ m c, target.node = some (.file m c)) ∧
      target.node = t.get? target.location ∧
      (target.location = s.temporary t here process ∨
        ∃ text, t.get? (s.temporary t here process) = some (.link text)) ∧
      ∀ l, done.get? l =
        if s.place t here = l then
          if target.location = s.temporary t here process then some (.file mode content)
          else t.get? (s.temporary t here process)
        else if s.temporary t here process = l then none
        else if target.location = l then some (.file mode content)
        else t.get? l := by
  obtain ⟨left, dir, name, hplace, way⟩ := s.exists_fileWay wellFormed hstat
  obtain ⟨target, located, hnode, hat, hget⟩ := get?_replaceFile_of_ok way h
  have there := (locate_eq_ok_iff.mp located).2.node_eq
  rw [Sync.temporary, hplace, temporaryLocation_append]
  exact ⟨target, located, there ▸ hnode, there, hat, hget⟩

section Written

variable {written : FileTree} {target : Target} (wellFormed : t.WellFormed)
  (hstat : t.stat here s.manifestPath = .ok (loc, .file mode old))
  (hwrite : t.write here (temporaryPath (savePath t here s.manifestPath) process) content =
    .ok written)
  (located : t.locate here .create (temporaryPath (savePath t here s.manifestPath) process) =
    .ok target)
  (setMode : t.access.refuses (.setMode target.location) = none)

include wellFormed hstat hwrite located setMode

/-- A manifest that could be written at the temporary location is saved if the system allows the
rest. -/
theorem Sync.exists_save_of_written
    (move : t.access.refuses (.move (s.temporary t here process) (s.place t here)) = none) :
    ∃ done, s.save t here process content = (done, none) := by
  obtain ⟨left, dir, name, hplace, way⟩ := s.exists_fileWay wellFormed hstat
  rw [Sync.temporary, hplace, temporaryLocation_append] at move
  exact exists_replaceFile_of_written way hwrite located setMode move

end Written

end SkillMarket.Marketplace
