import SkillMarket.Marketplace.Sync
import SkillMarket.Proofs.FileTree.CanonicalPath
import SkillMarket.Proofs.FileTree.Changes

/-!
# Replacing a file

A file is replaced at the last name of a path, through a temporary file with another name beside it.
What a replacement can come to is said once, by `Replaces`. It follows that a replacement which ends
well changes the place of the name alone, if nothing stood in the place of the temporary file, and
one that fails changes nothing then. What stands there is written over; a link is written through,
and moves.
-/

namespace SkillMarket.Marketplace

open FileTree

/-! ## The temporary name -/

/-- Where the file that replaces the one at a location is written first. -/
def temporaryLocation (loc : Location) (process : Nat) : Location :=
  loc.dropLast ++ [temporaryName ((loc.getLast?).getD "") process]

@[simp] theorem temporaryLocation_append (dir : Location) (name : String) (process : Nat) :
    temporaryLocation (dir ++ [name]) process = dir ++ [temporaryName name process] := by
  simp [temporaryLocation]

theorem length_temporaryName (name : String) (process : Nat) :
    name.length + 5 ≤ (temporaryName name process).length := by
  have whole : temporaryName name process = name ++ "." ++ toString process ++ ".tmp" := rfl
  have dot : ".".length = 1 := rfl
  have ending : ".tmp".length = 4 := rfl
  rw [whole, String.length_append, String.length_append, String.length_append]
  omega

theorem temporaryName_ne (name : String) (process : Nat) : temporaryName name process ≠ name := by
  intro h
  have := length_temporaryName name process
  rw [h] at this
  omega

theorem isDigit_of_mem_toString {n : Nat} {c : Char} (h : c ∈ (toString n).toList) :
    c.isDigit = true := by
  rw [Nat.toString_eq_repr, Nat.toList_repr] at h
  exact Nat.isDigit_of_mem_toDigits (by decide) (by decide) h

/-- A temporary name has the characters of the name and its own ones. -/
theorem notMem_temporaryName {name : String} {c : Char} (h : c ∉ name.toList)
    (notDigit : c.isDigit = false) (notEnding : c ∉ ".tmp".toList) (process : Nat) :
    c ∉ (temporaryName name process).toList := by
  have whole : temporaryName name process = name ++ "." ++ toString process ++ ".tmp" := rfl
  have digits : c ∉ (toString process).toList := fun hc => by
    simp [isDigit_of_mem_toString hc] at notDigit
  have dot : c ∉ ".".toList := fun hc =>
    notEnding (List.mem_of_mem_head? (by rw [List.mem_singleton.mp hc]; rfl))
  simp only [whole, String.toList_append, List.mem_append, not_or]
  exact ⟨⟨⟨h, dot⟩, digits⟩, notEnding⟩

/-- A temporary name stands for itself. -/
theorem isProper_temporaryName {name : String} (noSlash : '/' ∉ name.toList) (process : Nat) :
    IsProper (temporaryName name process) := by
  have long := length_temporaryName name process
  have other (text : String) (short : text.length < 5) : temporaryName name process ≠ text := by
    rintro rfl
    omega
  exact ⟨⟨other "" (by decide), notMem_temporaryName noSlash (by decide) (by decide) process⟩,
    other "." (by decide), other ".." (by decide)⟩

theorem temporaryLocation_ne (loc : Location) (process : Nat) :
    temporaryLocation loc process ≠ loc := by
  rcases List.eq_nil_or_concat loc with rfl | ⟨dir, name, rfl⟩
  · simp [temporaryLocation]
  · intro h
    rw [List.concat_eq_append, temporaryLocation_append] at h
    exact temporaryName_ne name process (by simpa using h)

/-! ## Through the path of the temporary file -/

variable {t other : FileTree} {here dir loc : Location} {path name : String} {ending : Ending}
  {left mode process : Nat} {old content : ByteArray}

theorem temporaryPath_eq (way : Way t here path left dir name) (process : Nat) :
    temporaryPath path process = Path.withFileName path (temporaryName name process) := by
  rw [temporaryPath, way.exists_parent.1, Option.getD_some]

/-- The path of the temporary file leads into the same directory, unless it is too long. -/
theorem locate_temporaryPath (way : Way t here path left dir name) (process : Nat)
    (hextends : Extends other t) :
    other.locate here ending (temporaryPath path process) =
      if (temporaryPath path process).utf8ByteSize < maxPath then
        other.walk ending left dir [temporaryName name process]
      else .error .nameTooLong := by
  have noNul : '\x00' ∉ name.toList := by
    obtain ⟨front, hnames, -⟩ := way.passes
    exact (notMem_toList_iff (by decide)).mp (by simpa using way.isPath.noNul) name
      (by simp [hnames])
  rw [temporaryPath_eq way]
  exact way.locate_withFileName (isProper_temporaryName way.isProper.noSlash process)
    (notMem_temporaryName noNul (by decide) (by decide) process) hextends

/-- What the path of the temporary file leads to is the target of its name. -/
theorem leads_of_locate_temporaryPath (way : Way t here path left dir name)
    (hextends : Extends other t) {target : Target}
    (h : other.locate here ending (temporaryPath path process) = .ok target) :
    (temporaryPath path process).utf8ByteSize < maxPath ∧
      Placed other dir (temporaryName name process) ∧
      Leads other ending left dir [temporaryName name process] target := by
  rw [locate_temporaryPath way process hextends] at h
  split at h
  · next short =>
    have leads := leads_of_walk h
    obtain ⟨⟨nonempty, -⟩, notHere, notUp⟩ := isProper_temporaryName way.isProper.noSlash process
    exact ⟨short, placed_of_leads leads nonempty notHere notUp, leads⟩
  · simp at h

/-- What is removed through the path of the temporary file stood at the temporary location. -/
theorem remove_temporaryPath (way : Way t here path left dir name) (hextends : Extends other t)
    {done : FileTree} (h : other.remove here (temporaryPath path process) = .ok done) :
    other.get? (dir ++ [temporaryName name process]) ≠ none ∧
      other.access.refuses (.remove (dir ++ [temporaryName name process])) = none ∧
      done = other.erase (dir ++ [temporaryName name process]) := by
  obtain ⟨target, hlocate, there, -, allowed, rfl⟩ := remove_eq_ok_iff.mp h
  obtain ⟨-, placed, leads⟩ := leads_of_locate_temporaryPath way hextends hlocate
  obtain rfl := (placed.location_of_leads leads).resolve_right fun h => h.1 rfl
  exact ⟨there, allowed, rfl⟩

/-- The temporary file can be written at a target, where it gets so many permissions at first. -/
structure Writes (t : FileTree) (path : String) (left : Nat) (dir : Location) (name : String)
    (process : Nat) (target : Target) (mode : Nat) : Prop where
  short : (temporaryPath path process).utf8ByteSize < maxPath
  placed : Placed t dir (temporaryName name process)
  leads : Leads t .create left dir [temporaryName name process] target
  takes : t.Takes target mode

/-- The ways in which the replacement of a file can end: the temporary file cannot be written; it is
written, but is not to get the permissions of the other file or to move; or it moves. -/
inductive Replaces (t : FileTree) (here : Location) (path : String) (left : Nat) (dir : Location)
    (name : String) (process mode : Nat) (content : ByteArray) :
    FileTree × Option FileError → Prop
  | unwritten {e : FileError}
      (failed : t.write here (temporaryPath path process) content = .error e) :
      Replaces t here path left dir name process mode content
        (discard t here (temporaryPath path process), some e)
  | refused {target : Target} {first given : Nat} {e : FileError}
      (writes : Writes t path left dir name process target first)
      (refuses : t.access.refuses (.setMode target.location) = some e ∨
        t.access.refuses (.move (dir ++ [temporaryName name process]) (dir ++ [name])) = some e) :
      Replaces t here path left dir name process mode content
        (discard (t.put target.location (.file given content)) here (temporaryPath path process),
          some e)
  | moved {target : Target} {first : Nat} {node : Node}
      (writes : Writes t path left dir name process target first)
      (setMode : t.access.refuses (.setMode target.location) = none)
      (move : t.access.refuses
        (.move (dir ++ [temporaryName name process]) (dir ++ [name])) = none)
      (there : (t.put target.location (.file mode content)).get?
        (dir ++ [temporaryName name process]) = some node) :
      Replaces t here path left dir name process mode content
        (((t.put target.location (.file mode content)).erase
          (dir ++ [temporaryName name process])).put (dir ++ [name]) node, none)

namespace Writes

variable {target : Target} {first : Nat}

theorem locate_create (writes : Writes t path left dir name process target first)
    (way : Way t here path left dir name) :
    t.locate here .create (temporaryPath path process) = .ok target := by
  rw [locate_temporaryPath way process (.refl t), if_pos writes.short]
  exact walk_of_leads writes.leads

/-- The written file is found through the path of the temporary one. -/
theorem locate_follow (writes : Writes t path left dir name process target first)
    (way : Way t here path left dir name) (content : ByteArray) :
    (t.put target.location (.file first content)).locate here .follow
        (temporaryPath path process) = .ok ⟨target.location, some (.file first content)⟩ := by
  have hget := get?_put t writes.takes.ne_nil
  rw [locate_temporaryPath way process (writes.takes.extends_put first content),
    if_pos writes.short]
  refine walk_of_leads (writes.leads.written ?_ (fun l hl => ?_) ?_ (by simp))
  · rw [writes.leads.node_eq]
    exact writes.takes.none_or_file
  · rw [hget, if_neg (Ne.symm hl)]
  · rw [hget, if_pos rfl]

/-- The file of the path is still there, with its permissions. -/
theorem mode_eq (writes : Writes t path left dir name process target first)
    (way : FileWay t here path left dir name loc mode old) (content : ByteArray) :
    (t.put target.location (.file first content)).mode here path = .ok mode := by
  have hextends := writes.takes.extends_put first content
  have hfile := way.leads.node_eq.symm
  have leads := way.leads.extend hextends (by simp)
  obtain ⟨content', hthere⟩ : ∃ content',
      (t.put target.location (.file first content)).get? loc = some (.file mode content') := by
    rw [get?_put t writes.takes.ne_nil]
    by_cases hl : target.location = loc
    · -- the file itself was written over, and has kept its permissions
      rcases writes.takes with ⟨absent, -⟩ | ⟨old', same⟩
      · simp [hl, hfile] at absent
      · rw [hl, hfile, Option.some.injEq, Node.file.injEq] at same
        exact ⟨content, by rw [if_pos hl, same.1]⟩
    · exact ⟨old, by rw [if_neg hl, hfile]⟩
  have hstat : (t.put target.location (.file first content)).stat here path =
      .ok (loc, .file mode content') := by
    rw [stat_eq_ok_iff, way.locate_eq hextends, ← hthere]
    exact walk_of_leads leads
  rw [FileTree.mode, hstat]

/-- The written file gets other permissions, or the system refuses that. -/
theorem setMode_eq (writes : Writes t path left dir name process target first)
    (way : Way t here path left dir name) (mode : Nat) (content : ByteArray) :
    (t.put target.location (.file first content)).setMode here (temporaryPath path process) mode =
      (t.put target.location (.file first content)).allow (.setMode target.location)
        (t.put target.location (.file mode content)) := by
  rw [setMode, writes.locate_follow way content]
  simp [bind, Except.bind, setModeAt]

/-- What stands at the temporary name is the file that was written, or a link to it. -/
theorem exists_node (writes : Writes t path left dir name process target first)
    (content : ByteArray) :
    ∃ node, (t.put target.location (.file mode content)).get?
        (dir ++ [temporaryName name process]) = some node ∧ node ≠ .directory := by
  rcases writes.placed.location_of_leads writes.leads with rfl | ⟨-, text, link⟩
  · exact ⟨.file mode content, by rw [get?_put t (by simp), if_pos rfl], by simp⟩
  · exact ⟨.link text, (writes.takes.extends_put mode content).get?_eq link (by simp), by simp⟩

/-- The written file moves, or the system refuses the move. -/
theorem rename_eq (writes : Writes t path left dir name process target first)
    (way : FileWay t here path left dir name loc mode old) {node : Node}
    (there : (t.put target.location (.file mode content)).get?
      (dir ++ [temporaryName name process]) = some node) (notDirectory : node ≠ .directory) :
    (t.put target.location (.file mode content)).rename here (temporaryPath path process) path =
      (t.put target.location (.file mode content)).allow
        (.move (dir ++ [temporaryName name process]) (dir ++ [name]))
        (((t.put target.location (.file mode content)).erase
          (dir ++ [temporaryName name process])).put (dir ++ [name]) node) := by
  have hextends := writes.takes.extends_put mode content
  have source : (t.put target.location (.file mode content)).locate here .keep
      (temporaryPath path process) = .ok ⟨dir ++ [temporaryName name process], some node⟩ := by
    rw [locate_temporaryPath way.toWay process hextends, if_pos writes.short, ← there]
    exact walk_of_leads (writes.placed.extend hextends).leads_keep
  have goal : (t.put target.location (.file mode content)).locate here .keep path =
      .ok ⟨dir ++ [name], (t.put target.location (.file mode content)).get? (dir ++ [name])⟩ := by
    rw [way.locate_eq hextends]
    exact walk_of_leads (way.placed.extend hextends).leads_keep
  -- what is moved over is a file or a link
  have notDirectory' : (t.put target.location (.file mode content)).get? (dir ++ [name]) ≠
      some .directory := by
    rw [get?_put t writes.takes.ne_nil]
    split
    · simp
    · exact way.not_directory
  rw [rename, source, goal]
  exact renameAt_eq notDirectory notDirectory'

end Writes

/-- **A replacement ends in one of these ways.** -/
theorem replaces_replaceFile (way : FileWay t here path left dir name loc mode old) (process : Nat)
    (content : ByteArray) :
    Replaces t here path left dir name process mode content
      (replaceFile t here process path content) := by
  unfold replaceFile
  dsimp only
  split
  · next failed => exact .unwritten failed
  · next written hwrite =>
    obtain ⟨target, hlocate, hwriteAt⟩ := write_eq_ok_iff.mp hwrite
    obtain ⟨short, placed, leads⟩ :=
      leads_of_locate_temporaryPath way.toWay (.refl t) hlocate
    obtain ⟨first, takes, rfl⟩ := exists_put_of_writeAt leads.node_eq hwriteAt
    have writes : Writes t path left dir name process target first :=
      ⟨short, placed, leads, takes⟩
    obtain ⟨node, there, notDirectory⟩ := writes.exists_node content
    rw [install, writes.mode_eq way content]
    dsimp only
    rw [writes.setMode_eq way.toWay, allow, put_access]
    cases hset : t.access.refuses (.setMode target.location) with
    | some e => exact .refused writes (.inl hset)
    | none =>
        dsimp only
        rw [writes.rename_eq way there notDirectory, allow, put_access]
        cases hmove : t.access.refuses
            (.move (dir ++ [temporaryName name process]) (dir ++ [name])) with
        | some e => exact .refused writes (.inr hmove)
        | none => exact .moved writes hset hmove there

/-- The replacement of a file that could be written at a target ends well if the system allows the
rest. -/
theorem exists_replaceFile_of_written (way : FileWay t here path left dir name loc mode old)
    {written : FileTree} {target : Target}
    (hwrite : t.write here (temporaryPath path process) content = .ok written)
    (located : t.locate here .create (temporaryPath path process) = .ok target)
    (setMode : t.access.refuses (.setMode target.location) = none)
    (move : t.access.refuses
      (.move (dir ++ [temporaryName name process]) (dir ++ [name])) = none) :
    ∃ done, replaceFile t here process path content = (done, none) := by
  have replaces := replaces_replaceFile way process content
  generalize replaceFile t here process path content = result at replaces
  cases replaces with
  | unwritten failed => simp [hwrite] at failed
  | refused writes refuses =>
      obtain rfl := Except.ok.inj (located.symm.trans (writes.locate_create way.toWay))
      simp [setMode, move] at refuses
  | moved => exact ⟨_, rfl⟩

/-- **What a replacement comes to, whatever stands at the temporary location.** A file that stands
there is written over and moves to the place of the other one. A link that stands there is followed:
what it leads to gets the bytes and the permissions, and the link itself takes the place of the
other file. -/
theorem get?_replaceFile_of_ok (way : FileWay t here path left dir name loc mode old)
    {done : FileTree} (h : replaceFile t here process path content = (done, none)) :
    ∃ target, t.locate here .create (temporaryPath path process) = .ok target ∧
      (t.get? target.location = none ∨ ∃ m c, t.get? target.location = some (.file m c)) ∧
      (target.location = dir ++ [temporaryName name process] ∨
        ∃ text, t.get? (dir ++ [temporaryName name process]) = some (.link text)) ∧
      ∀ l, done.get? l =
        if dir ++ [name] = l then
          if target.location = dir ++ [temporaryName name process] then some (.file mode content)
          else t.get? (dir ++ [temporaryName name process])
        else if dir ++ [temporaryName name process] = l then none
        else if target.location = l then some (.file mode content)
        else t.get? l := by
  have replaces := replaces_replaceFile way process content
  generalize replaceFile t here process path content = result at h replaces
  cases replaces with
  | unwritten => simp at h
  | refused => simp at h
  | @moved target first node writes setMode move there =>
      obtain ⟨rfl, -⟩ := Prod.mk.inj h
      have hne := writes.takes.ne_nil
      refine ⟨target, writes.locate_create way.toWay, writes.takes.none_or_file, ?_, fun l => ?_⟩
      · rcases writes.placed.location_of_leads writes.leads with htarget | ⟨-, link⟩
        · exact .inl (congrArg Target.location htarget)
        · exact .inr link
      · rw [get?_put t hne] at there
        rw [get?_put _ (by simp), get?_erase _ (by simp), get?_put t hne, there]

/-- Nothing keeps a file from being replaced at a place, through a path: the temporary name and its
path are not too long, and the system allows every change. -/
structure Writable (t : FileTree) (path : String) (place : Location) (process : Nat) : Prop where
  shortName : (temporaryName ((place.getLast?).getD "") process).utf8ByteSize ≤ maxName
  shortPath : (temporaryPath path process).utf8ByteSize < maxPath
  create : t.access.refuses (.create (temporaryLocation place process)) = none
  setMode : t.access.refuses (.setMode (temporaryLocation place process)) = none
  move : t.access.refuses (.move (temporaryLocation place process) place) = none

section Free

variable (free : t.get? (dir ++ [temporaryName name process]) = none)

include free

/-- The temporary file is a new one. -/
theorem Writes.target_eq_of_free {target : Target} {first : Nat}
    (writes : Writes t path left dir name process target first) :
    target = ⟨dir ++ [temporaryName name process], none⟩ := by
  rcases writes.placed.location_of_leads writes.leads with htarget | ⟨-, text, link⟩
  · rw [htarget, free]
  · simp [free] at link

/-- What was written is taken away again. -/
theorem discard_put_of_free {target : Target} {first : Nat}
    (writes : Writes t path left dir name process target first)
    (way : Way t here path left dir name) (given : Nat) (content : ByteArray) :
    discard (t.put target.location (.file given content)) here (temporaryPath path process) =
      t := by
  have hextends := writes.takes.extends_put given content
  obtain rfl := writes.target_eq_of_free free
  have located : (t.put (dir ++ [temporaryName name process]) (.file given content)).locate here
      .keep (temporaryPath path process) =
        .ok ⟨dir ++ [temporaryName name process], some (.file given content)⟩ := by
    have there : (t.put (dir ++ [temporaryName name process]) (.file given content)).get?
        (dir ++ [temporaryName name process]) = some (.file given content) := by
      rw [get?_put t (by simp), if_pos rfl]
    rw [locate_temporaryPath way process hextends, if_pos writes.short, ← there]
    exact walk_of_leads (writes.placed.extend hextends).leads_keep
  have removable : t.access.refuses (.remove (dir ++ [temporaryName name process])) = none := by
    rcases writes.takes with ⟨-, -, created⟩ | ⟨old, hfile⟩
    · exact t.access.removable _ created
    · simp [free] at hfile
  have removed : (t.put (dir ++ [temporaryName name process]) (.file given content)).remove here
      (temporaryPath path process) = .ok t :=
    remove_eq_ok_iff.mpr ⟨_, located, by simp, by simp, removable,
      (erase_put_of_absent _ free).symm⟩
  rw [discard, removed]

theorem discard_of_free (way : Way t here path left dir name) :
    discard t here (temporaryPath path process) = t := by
  unfold discard
  split
  · next h => exact absurd free (remove_temporaryPath way (.refl t) h).1
  · rfl

/-- The temporary file can be written if nothing keeps it from that. -/
theorem Writable.exists_write (h : Writable t path (dir ++ [name]) process)
    (way : Way t here path left dir name) (content : ByteArray) :
    ∃ written, t.write here (temporaryPath path process) content = .ok written := by
  obtain ⟨shortName, shortPath, create, -, -⟩ := h
  rw [List.getLast?_concat, Option.getD_some] at shortName
  rw [temporaryLocation_append] at create
  obtain ⟨⟨nonempty, -⟩, notHere, notUp⟩ := isProper_temporaryName way.isProper.noSlash process
  have placed : Placed t dir (temporaryName name process) :=
    ⟨way.directory, nonempty, notHere, notUp, shortName⟩
  refine ⟨_, write_eq_ok_iff.mpr ⟨⟨dir ++ [temporaryName name process], none⟩, ?_,
    allow_eq_ok_iff.mpr ⟨create, rfl⟩⟩⟩
  rw [locate_temporaryPath way process (.refl t), if_pos shortPath, ← free]
  exact walk_of_leads (placed.leads (by simp [free]))

/-- **Where nothing stands at the temporary location, a replacement changes the one place if nothing
keeps it from that, and else nothing at all.** -/
theorem replaceFile_of_free (way : FileWay t here path left dir name loc mode old)
    (content : ByteArray) :
    (Writable t path (dir ++ [name]) process ∧
        ∃ done, replaceFile t here process path content = (done, none) ∧
          ∀ l, done.get? l = if dir ++ [name] = l then some (.file mode content) else t.get? l) ∨
      (¬ Writable t path (dir ++ [name]) process ∧
        ∃ e, replaceFile t here process path content = (t, some e)) := by
  have replaces := replaces_replaceFile way process content
  generalize hresult : replaceFile t here process path content = result at replaces
  cases replaces with
  | @unwritten e failed =>
      refine .inr ⟨fun writable => ?_, e, by rw [discard_of_free free way.toWay]⟩
      obtain ⟨written, hwritten⟩ := writable.exists_write free way.toWay content
      simp [hwritten] at failed
  | @refused target first given e writes refuses =>
      refine .inr ⟨fun writable => ?_, e,
        by rw [discard_put_of_free free writes way.toWay]⟩
      have setMode := writable.setMode
      have move := writable.move
      rw [temporaryLocation_append] at setMode move
      rw [writes.target_eq_of_free free] at refuses
      simp [setMode, move] at refuses
  | @moved target first node writes setMode move there =>
      have shortName := writes.placed.isName.short
      have takes := writes.takes
      rw [writes.target_eq_of_free free] at setMode takes
      have create : t.access.refuses (.create (dir ++ [temporaryName name process])) = none := by
        rcases takes with ⟨-, -, created⟩ | ⟨old, hfile⟩
        · exact created
        · simp [free] at hfile
      refine .inl ⟨⟨by simpa using shortName, writes.short, by simpa using create,
        by simpa using setMode, by simpa using move⟩, _, rfl, fun l => ?_⟩
      obtain ⟨target', -, -, hat, hget⟩ := get?_replaceFile_of_ok way hresult
      have hat := hat.resolve_right fun ⟨text, link⟩ => by simp [free] at link
      -- the temporary file was put and taken away, so its location is as free as it was
      rw [hget, if_pos hat, hat]
      by_cases gone : dir ++ [temporaryName name process] = l
      · rw [if_pos gone, ← gone, free]
      · rw [if_neg gone, if_neg gone]

end Free

end SkillMarket.Marketplace
