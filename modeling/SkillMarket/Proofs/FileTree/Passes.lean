import SkillMarket.Proofs.FileTree.Walk

/-!
# On the way to the last name

Before its last name a walk only passes directories and links. `Passes` says where it has come by
then, and how many links it has left; from there on the last name alone decides. So paths that
differ in the last name go the same way, whatever they are to end in, and they still go that way in
a tree in which other files stand.
-/

namespace SkillMarket.FileTree

/-! ## Passing directories and links -/

/-- Names lead from a location to another one, through directories and links only, and leave so many
of the links that are allowed. -/
inductive Passes (t : FileTree) : (links : Nat) → Location → List String → (left : Nat) →
    Location → Prop
  | done {links loc} : Passes t links loc [] links loc
  | stay {links loc name rest left dir} (here : t.get? loc = some .directory)
      (blank : name = "" ∨ name = ".") (more : Passes t links loc rest left dir) :
      Passes t links loc (name :: rest) left dir
  | up {links loc rest left dir} (here : t.get? loc = some .directory)
      (above : t.get? loc.dropLast = some .directory)
      (more : Passes t links loc.dropLast rest left dir) :
      Passes t links loc (".." :: rest) left dir
  | followed {links loc name rest text left dir} (here : t.get? loc = some .directory)
      (isName : IsName name) (link : t.get? (loc ++ [name]) = some (.link text))
      (more : Passes t links (if Path.isAbsolute text then [] else loc) (steps text ++ rest)
        left dir) :
      Passes t (links + 1) loc (name :: rest) left dir
  | entered {links loc name rest left dir} (here : t.get? loc = some .directory)
      (isName : IsName name) (there : t.get? (loc ++ [name]) = some .directory)
      (more : Passes t links (loc ++ [name]) rest left dir) :
      Passes t links loc (name :: rest) left dir

variable {t other : FileTree} {ending : Ending} {links left : Nat} {loc dir : Location}
  {front : List String} {last : String} {target : Target}

/-- Names that lead somewhere pass directories and links up to the last one. -/
theorem Leads.exists_passes (h : Leads t ending links loc (front ++ [last]) target) :
    ∃ left dir, Passes t links loc front left dir ∧ Leads t ending left dir [last] target := by
  generalize hnames : front ++ [last] = names at h
  induction h generalizing front with
  | done => simp at hnames
  | stay here blank more ih =>
      rcases List.append_eq_cons_iff.mp hnames with ⟨rfl, hrest⟩ | ⟨front, rfl, hrest⟩
      · exact ⟨_, _, .done, hrest ▸ .stay here blank more⟩
      · obtain ⟨left, dir, passes, leads⟩ := ih hrest.symm
        exact ⟨left, dir, .stay here blank passes, leads⟩
  | up here above more ih =>
      rcases List.append_eq_cons_iff.mp hnames with ⟨rfl, hrest⟩ | ⟨front, rfl, hrest⟩
      · exact ⟨_, _, .done, hrest ▸ .up here above more⟩
      · obtain ⟨left, dir, passes, leads⟩ := ih hrest.symm
        exact ⟨left, dir, .up here above passes, leads⟩
  | missing here isName absent =>
      rcases List.append_eq_cons_iff.mp hnames with ⟨rfl, hrest⟩ | ⟨front, rfl, hrest⟩
      · exact ⟨_, _, .done, by rw [hrest]; exact .missing here isName absent⟩
      · simp at hrest
  | kept here isName link kept =>
      rcases List.append_eq_cons_iff.mp hnames with ⟨rfl, hrest⟩ | ⟨front, rfl, hrest⟩
      · exact ⟨_, _, .done, by rw [hrest]; exact .kept here isName link kept⟩
      · simp at hrest
  | followed here isName file link more? more ih =>
      rcases List.append_eq_cons_iff.mp hnames with ⟨rfl, hrest⟩ | ⟨front, rfl, hrest⟩
      · exact ⟨_, _, .done, hrest ▸ .followed here isName file link more? more⟩
      · subst hrest
        obtain ⟨left, dir, passes, leads⟩ := ih (List.append_assoc _ _ _)
        exact ⟨left, dir, .followed here isName link passes, leads⟩
  | entered here isName file there notLink more ih =>
      rcases List.append_eq_cons_iff.mp hnames with ⟨rfl, hrest⟩ | ⟨front, rfl, hrest⟩
      · exact ⟨_, _, .done, hrest ▸ .entered here isName file there notLink more⟩
      · -- a name follows, so it is a directory that was entered
        have inside := more.directory (by simp [hrest])
        obtain ⟨left, dir, passes, leads⟩ := ih hrest.symm
        exact ⟨left, dir, .entered here isName inside passes, leads⟩

/-- **Once the way is passed, the last name decides**, whatever the walk is to end in. -/
theorem Passes.walk_append (h : Passes t links loc front left dir) (nonempty : last ≠ "") :
    t.walk ending links loc (front ++ [last]) = t.walk ending left dir [last] := by
  induction h with
  | done => rfl
  | stay here blank _ ih =>
      rw [List.cons_append, walk, if_neg (by simpa using here), if_pos (by simpa using blank)]
      exact ih
  | up here above _ ih =>
      rw [List.cons_append, walk, if_neg (by simpa using here), if_neg (by decide), if_pos rfl,
        if_pos above]
      exact ih
  | @followed links loc name rest text left dir here isName link _ ih =>
      obtain ⟨proper, notHere, notUp, short⟩ := isName
      have file : ¬ (rest ++ [last] = [""]) := by simp [List.append_eq_cons_iff, nonempty]
      rw [List.cons_append, walk, ← ih]
      simp [here, proper, notHere, notUp, Nat.not_lt.mpr short, link, file]
  | @entered links loc name rest left dir here isName there _ ih =>
      obtain ⟨proper, notHere, notUp, short⟩ := isName
      have file : ¬ (rest ++ [last] = [""]) := by simp [List.append_eq_cons_iff, nonempty]
      rw [List.cons_append, walk, ← ih]
      simp [here, proper, notHere, notUp, Nat.not_lt.mpr short, there, file]

/-! ## Trees in which more files stand -/

/-- Directories and links stay, and where a file stands there still is one. -/
def Extends (other t : FileTree) : Prop :=
  ∀ loc node, t.get? loc = some node →
    other.get? loc = some node ∨ ∃ m c m' c', node = .file m c ∧ other.get? loc = some (.file m' c')

theorem Extends.refl (t : FileTree) : Extends t t := fun _ _ h => .inl h

theorem Extends.get?_eq (h : Extends other t) {node : Node} (there : t.get? loc = some node)
    (hnode : ∀ m c, node ≠ .file m c) : other.get? loc = some node := by
  rcases h loc node there with same | ⟨m, c, _, _, hfile, -⟩
  · exact same
  · exact absurd hfile (hnode m c)

theorem Placed.extend {name : String} (hextends : Extends other t) (h : Placed t dir name) :
    Placed other dir name :=
  ⟨hextends.get?_eq h.directory (by simp), h.isName⟩

theorem Passes.extend (hextends : Extends other t) (h : Passes t links loc front left dir) :
    Passes other links loc front left dir := by
  induction h with
  | done => exact .done
  | stay here blank _ ih => exact .stay (hextends.get?_eq here (by simp)) blank ih
  | up here above _ ih =>
      exact .up (hextends.get?_eq here (by simp)) (hextends.get?_eq above (by simp)) ih
  | followed here isName link _ ih =>
      exact .followed (hextends.get?_eq here (by simp)) isName (hextends.get?_eq link (by simp)) ih
  | entered here isName there _ ih =>
      exact .entered (hextends.get?_eq here (by simp)) isName (hextends.get?_eq there (by simp)) ih

/-- What names lead to, they still lead to. -/
theorem Leads.extend (hextends : Extends other t) (h : Leads t ending links loc front target)
    (there : target.node ≠ none) :
    Leads other ending links loc front ⟨target.location, other.get? target.location⟩ := by
  induction h with
  | done => exact .done
  | stay here blank _ ih => exact .stay (hextends.get?_eq here (by simp)) blank (ih there)
  | up here above _ ih =>
      exact .up (hextends.get?_eq here (by simp)) (hextends.get?_eq above (by simp)) (ih there)
  | missing => exact absurd rfl there
  | kept here isName link kept =>
      have link' := hextends.get?_eq link (by simp)
      rw [link']
      exact .kept (hextends.get?_eq here (by simp)) isName link' kept
  | followed here isName file link more? _ ih =>
      exact .followed (hextends.get?_eq here (by simp)) isName file
        (hextends.get?_eq link (by simp)) more? (ih there)
  | entered here isName file inside notLink _ ih =>
      have here' := hextends.get?_eq here (by simp)
      rcases hextends _ _ inside with same | ⟨_, _, _, _, -, same⟩
      · exact .entered here' isName file same notLink (ih there)
      · exact .entered here' isName file same (by simp) (ih there)

/-! ## Names that lead to a file -/

/-- Names that lead to a file cannot be passed, whatever follows them. -/
theorem Leads.not_passes {m : Nat} {c : ByteArray} {rest : List String}
    (h : Leads t .follow links loc front target) (hfile : target.node = some (.file m c))
    (inside : t.get? dir = some .directory) {links' : Nat} :
    ¬ Passes t links' loc (front ++ rest) left dir := by
  intro passes
  induction h generalizing links' with
  | done =>
      simp only at hfile
      cases passes <;> simp_all
  | stay here blank _ ih =>
      cases passes with
      | stay _ _ more => exact ih hfile more
      | up => simp at blank
      | followed _ isName => exact absurd blank isName.not_blank
      | entered _ isName => exact absurd blank isName.not_blank
  | up here above _ ih =>
      cases passes with
      | stay _ blank => simp at blank
      | up _ _ more => exact ih hfile more
      | followed _ isName => exact absurd rfl isName.notUp
      | entered _ isName => exact absurd rfl isName.notUp
  | missing => simp at hfile
  | kept _ _ _ kept => simp at kept
  | followed here isName _ link _ _ ih =>
      cases passes with
      | stay _ blank => exact absurd blank isName.not_blank
      | up => exact absurd rfl isName.notUp
      | followed _ _ link' more =>
          rw [link, Option.some.injEq, Node.link.injEq] at link'
          subst link'
          exact ih hfile (by rwa [List.append_assoc])
      | entered _ _ there => simp [link] at there
  | entered here isName _ there notLink _ ih =>
      cases passes with
      | stay _ blank => exact absurd blank isName.not_blank
      | up => exact absurd rfl isName.notUp
      | followed _ _ link _ =>
          rw [there, Option.some.injEq] at link
          exact absurd link (notLink _)
      | entered _ _ _ more => exact ih hfile more

/-- So the way to a name does not pass what leads to a file, and is still there when that place
changes. -/
theorem Passes.of_elsewhere {k : Nat} {name : String} {m : Nat} {c : ByteArray}
    (h : Passes t links loc front left dir) (inside : t.get? dir = some .directory)
    {above : Location} (leads : Leads t .follow k above [name] target)
    (hfile : target.node = some (.file m c))
    (notDirectory : t.get? (above ++ [name]) ≠ some .directory)
    (elsewhere : ∀ l, l ≠ above ++ [name] → other.get? l = t.get? l) :
    Passes other links loc front left dir := by
  have kept {l : Location} (hl : t.get? l = some .directory) : other.get? l = some .directory := by
    rw [elsewhere l (fun h => notDirectory (h ▸ hl)), hl]
  induction h with
  | done => exact .done
  | stay here blank _ ih => exact .stay (kept here) blank (ih inside)
  | up here above _ ih => exact .up (kept here) (kept above) (ih inside)
  | @followed _ loc name' rest text _ _ here isName link more ih =>
      refine .followed (kept here) isName ?_ (ih inside)
      rw [elsewhere _ ?_, link]
      -- the link would lead to the file, on which no name can follow
      intro same
      obtain ⟨rfl, hname⟩ := List.append_inj' same rfl
      obtain rfl : name' = name := by simpa using hname
      cases leads with
      | stay _ blank _ => exact absurd blank isName.not_blank
      | up => exact absurd rfl isName.notUp
      | missing => simp at hfile
      | kept _ _ _ kept => simp at kept
      | followed _ _ _ link' _ more' =>
          rw [link, Option.some.injEq, Node.link.injEq] at link'
          subst link'
          rw [List.append_nil] at more'
          exact more'.not_passes hfile inside more
      | entered _ _ _ there notLink _ =>
          rw [link, Option.some.injEq] at there
          exact absurd there.symm (notLink text)
  | entered here isName there _ ih => exact .entered (kept here) isName (kept there) (ih inside)

end SkillMarket.FileTree
