import SkillMarket.Proofs.FileTree.AbsolutePath
import SkillMarket.Proofs.FileTree.AnyOrder
import SkillMarket.Proofs.Path.Order
import SkillMarket.Skill.Discovery

/-!
# Which skills are found

The names of the skills are those of the directories among the children of the root that are not
left out, each once and in the order of their bytes. The entries of the root may come in any order:
noting the paths of the skills as they come, and sorting these paths in the end, gives the same.
-/

namespace SkillMarket.Skill

open FileTree

/-- A name that is looked at: neither hidden nor among those to leave out. -/
structure IsSkillName (exclude : List String) (name : String) : Prop where
  shown : name.toList.head? ≠ some '.'
  included : name ∉ exclude

theorem isExcluded_eq_false_iff {exclude : List String} {name : String} :
    isExcluded exclude name = false ↔ IsSkillName exclude name := by
  rw [isExcluded, Bool.or_eq_false_iff, beq_eq_false_iff_ne]
  simp only [List.contains_eq_mem, decide_eq_false_iff_not]
  exact ⟨fun h => ⟨h.1, h.2⟩, fun h => ⟨h.shown, h.included⟩⟩

theorem mem_skillNames_iff {exclude : List String} {children : List (String × Node)}
    {name : String} :
    name ∈ skillNames exclude children ↔
      (name, .directory) ∈ children ∧ IsSkillName exclude name := by
  rw [skillNames, List.mem_mergeSort, List.mem_map, ← isExcluded_eq_false_iff]
  constructor
  · rintro ⟨⟨other, node⟩, hchild, rfl⟩
    obtain ⟨inside, kept⟩ := List.mem_filter.mp hchild
    simp only [Bool.and_eq_true, decide_eq_true_eq, Bool.not_eq_true'] at kept
    exact ⟨kept.1 ▸ inside, kept.2⟩
  · rintro ⟨inside, kept⟩
    exact ⟨(name, .directory), List.mem_filter.mpr ⟨inside, by simp [kept]⟩, rfl⟩

theorem sorted_skillNames (exclude : List String) (children : List (String × Node)) :
    (skillNames exclude children).Pairwise (· ≤ ·) := by
  have inOrder := @List.pairwise_mergeSort _ nameBefore
    (fun _ _ _ hab hbc => by simp only [nameBefore, decide_eq_true_eq] at *; exact hab.trans hbc)
    (fun a b => by simpa [nameBefore] using le_total a b)
    ((children.filter fun child => child.2 = .directory && !isExcluded exclude child.1).map
      Prod.fst)
  exact inOrder.imp fun h => by simpa [nameBefore] using h

/-- **The names of the skills are in the strict order of their bytes.** -/
theorem pairwise_skillNames (exclude : List String) {children : List (String × Node)}
    (distinct : (children.map Prod.fst).Nodup) :
    (skillNames exclude children).Pairwise fun a b => Text.bytes a < Text.bytes b := by
  have once : (skillNames exclude children).Nodup :=
    (List.mergeSort_perm _ _).nodup_iff.mpr (distinct.sublist (List.filter_sublist.map _))
  refine ((sorted_skillNames exclude children).and once).imp fun {a b} ⟨hle, hne⟩ => ?_
  rw [Text.bytes_lt_bytes_iff]
  exact lt_of_le_of_ne hle hne

/-- The order of the children does not matter. -/
theorem skillNames_perm (exclude : List String) {children entries : List (String × Node)}
    (h : entries.Perm children) : skillNames exclude entries = skillNames exclude children := by
  refine List.Perm.eq_of_pairwise (fun _ _ _ _ => le_antisymm) (sorted_skillNames _ _)
    (sorted_skillNames _ _) ?_
  exact (List.mergeSort_perm _ _).trans
    (((h.filter _).map _).trans (List.mergeSort_perm _ _).symm)

/-- Skills are found where the root leads to a directory. -/
theorem discover_eq_ok_iff {t : FileTree} {here : Location} {root : String}
    {exclude dirs : List String} :
    discover t here root exclude = .ok dirs ↔
      ∃ loc, t.stat here root = .ok (loc, .directory) ∧
        dirs = (skillNames exclude (t.children loc)).map (Path.join root) := by
  unfold discover FileTree.list
  split
  · next hlist =>
    split at hlist
    · next hstat => simp [hstat]
    · simp at hlist
    · next other hstat =>
      simp only [hstat, reduceCtorEq, Except.ok.injEq, Prod.mk.injEq, false_iff]
      rintro ⟨loc, ⟨-, rfl⟩, -⟩
      exact other rfl
  · next children hlist =>
    split at hlist
    · simp at hlist
    · next loc hstat =>
      rw [Except.ok.injEq] at hlist
      subst hlist
      simp [hstat, eq_comm]
    · simp at hlist

/-! ## Entries in any order -/

/-- The path of an entry, if it is a skill. -/
def skillPath? (root : String) (exclude : List String) : String × Node → Option String
  | (name, node) =>
    if node ≠ .directory then none
    else if isExcluded exclude name then none
    else some (Path.join root name)

/-- The skills among the entries of a directory: the paths are noted as the entries come, and sorted
in the end. -/
def collect (root : String) (exclude : List String) (entries : List (String × Node)) :
    List String :=
  (entries.filterMap (skillPath? root exclude)).mergeSort Path.atMost

theorem filterMap_skillPath? (root : String) (exclude : List String)
    (entries : List (String × Node)) :
    entries.filterMap (skillPath? root exclude) =
      ((entries.filter fun (name, node) => node = .directory && !isExcluded exclude name).map
        Prod.fst).map (Path.join root) := by
  induction entries with
  | nil => rfl
  | cons entry entries ih =>
      obtain ⟨name, node⟩ := entry
      by_cases directory : node = .directory
      · by_cases excluded : isExcluded exclude name = true
        · simp [skillPath?, directory, excluded, ih]
        · simp [skillPath?, directory, excluded, ih]
      · simp [skillPath?, directory, ih]

/-- What is collected are the names of the skills behind the root. -/
theorem collect_perm (root : String) (exclude : List String) (entries : List (String × Node)) :
    (collect root exclude entries).Perm ((skillNames exclude entries).map (Path.join root)) := by
  rw [collect, filterMap_skillPath?]
  exact (List.mergeSort_perm _ _).trans ((List.mergeSort_perm _ _).symm.map _)

/-- **Sorting the paths of the skills is sorting their names.** -/
theorem collect_eq (root : String) {exclude : List String} {entries : List (String × Node)}
    (names : ∀ entry ∈ entries, IsFileName entry.1) :
    collect root exclude entries = (skillNames exclude entries).map (Path.join root) := by
  have isOne (name : String) (h : name ∈ skillNames exclude entries) : Path.IsOne name name :=
    (names _ (mem_skillNames_iff.mp h).1).isOne
  have perm := collect_perm root exclude entries
  have sorted : (collect root exclude entries).Pairwise fun a b => Path.atMost a b = true :=
    List.pairwise_mergeSort Path.atMost_trans Path.atMost_total _
  refine List.Perm.eq_of_pairwise ?_ sorted ?_ perm
  · intro a b ha hb hab hba
    obtain ⟨m, hm, rfl⟩ := List.mem_map.mp (perm.mem_iff.mp ha)
    obtain ⟨n, hn, rfl⟩ := List.mem_map.mp hb
    rw [Path.atMost_join_iff (isOne m hm) (isOne n hn)] at hab
    rw [Path.atMost_join_iff (isOne n hn) (isOne m hm)] at hba
    rw [le_antisymm hab hba]
  · refine List.pairwise_map.mpr ((sorted_skillNames exclude entries).imp_of_mem ?_)
    exact fun ha hb => (Path.atMost_join_iff (isOne _ ha) (isOne _ hb)).mpr

/-- The order of the nodes of a tree, and with it that of the entries, does not matter. -/
theorem discover_perm {t other : FileTree} (h : other.nodes.Perm t.nodes) (here : Location)
    (root : String) (exclude : List String) :
    discover other here root exclude = discover t here root exclude := by
  unfold discover FileTree.list
  rw [stat_perm h]
  cases t.stat here root with
  | error e => rfl
  | ok found =>
      obtain ⟨loc, node⟩ := found
      cases node with
      | directory => simp only [skillNames_perm exclude (children_perm h loc)]
      | file mode content => rfl
      | link target => rfl

/-- Where the root cannot be listed, no skills are found, for the same reason. -/
theorem discover_eq_error_iff {t : FileTree} {here : Location} {root : String}
    {exclude : List String} {e : FileError} :
    discover t here root exclude = .error ⟨root, e⟩ ↔ t.list here root = .error e := by
  unfold discover
  cases t.list here root <;> simp

/-! ## What is found -/

/-- These paths, and no others, are those of the skills in the directory that a root leads to. -/
structure ListsSkills (t : FileTree) (loc : Location) (root : String) (exclude : List String)
    (dirs : List String) : Prop where
  /-- The paths are in the strict order of the bytes of their last names. -/
  inOrder : dirs.Pairwise fun a b => ∃ m n, Path.fileName? a = some m ∧ Path.fileName? b = some n ∧
    Text.bytes m < Text.bytes n
  /-- Each is that of a name in the root, -/
  exists_name : ∀ path ∈ dirs, ∃ name, IsFileName name ∧ path = Path.join root name
  /-- and a name is there exactly if it is that of a directory in the root, and looked at. -/
  mem_iff : ∀ name, IsFileName name → (Path.join root name ∈ dirs ↔
    t.get? (loc ++ [name]) = some .directory ∧ IsSkillName exclude name)

theorem listsSkills_skillNames {t : FileTree} (wellFormed : t.WellFormed) (loc : Location)
    (root : String) (exclude : List String) :
    ListsSkills t loc root exclude
      ((skillNames exclude (t.children loc)).map (Path.join root)) := by
  have mem_iff (name : String) : name ∈ skillNames exclude (t.children loc) ↔
      t.get? (loc ++ [name]) = some .directory ∧ IsSkillName exclude name := by
    rw [mem_skillNames_iff, mem_children_iff]
  have isFileName (name : String) (h : name ∈ skillNames exclude (t.children loc)) :
      IsFileName name := (wellFormed _ _ _ ((mem_iff name).mp h).1).2
  have called {name : String} (h : IsFileName name) :
      Path.fileName? (Path.join root name) = some name := Path.fileName?_join h.isOne
  refine ⟨?_, ?_, fun name hname => ?_⟩
  · refine List.pairwise_map.mpr
      ((pairwise_skillNames exclude (nodup_children t loc)).imp_of_mem ?_)
    exact fun ha hb less => ⟨_, _, called (isFileName _ ha), called (isFileName _ hb), less⟩
  · intro path hpath
    obtain ⟨name, hname, rfl⟩ := List.mem_map.mp hpath
    exact ⟨name, isFileName name hname, rfl⟩
  · rw [← mem_iff, List.mem_map]
    constructor
    · rintro ⟨other, hother, same⟩
      -- the last name of a path tells which name it is
      have names := called (isFileName other hother)
      rw [same, called hname, Option.some.injEq] at names
      exact names ▸ hother
    · exact fun h => ⟨name, h, rfl⟩

/-- **Discovery lists exactly the skills, in whatever order a directory delivers its entries.** For
every root that leads to a directory, the paths of the skills in it are found, in the strict order
of their last names. They are what is collected from the entries of the directory in any order, and
the same in a tree with its nodes in another order. A root that cannot be listed is an error. -/
theorem listsSkills_discover {t : FileTree} {here : Location} {root : String}
    {exclude : List String} (wellFormed : t.WellFormed) :
    (∀ loc, t.stat here root = .ok (loc, .directory) →
      ∃ dirs, discover t here root exclude = .ok dirs ∧ ListsSkills t loc root exclude dirs ∧
        ∀ entries, entries.Perm (t.children loc) → collect root exclude entries = dirs) ∧
    (∀ other : FileTree, other.nodes.Perm t.nodes →
      discover other here root exclude = discover t here root exclude) ∧
    ∀ e, discover t here root exclude = .error ⟨root, e⟩ ↔ t.list here root = .error e := by
  refine ⟨fun loc root_eq => ?_, fun other perm => discover_perm perm here root exclude,
    fun e => discover_eq_error_iff⟩
  refine ⟨_, discover_eq_ok_iff.mpr ⟨loc, root_eq, rfl⟩,
    listsSkills_skillNames wellFormed loc root exclude, fun entries perm => ?_⟩
  have names : ∀ entry ∈ entries, IsFileName entry.1 := fun entry hentry =>
    (wellFormed _ _ _ (mem_children_iff.mp (perm.mem_iff.mp hentry))).2
  rw [collect_eq root names, skillNames_perm exclude perm]

/-- Skills behind a link, and all that is none: a directory that is hidden, one that is left out,
one further below, a link to a directory, and a file. -/
def workshop : FileTree where
  nodes := [(["root"], .link "kit"), (["kit"], .directory), (["kit", "b"], .directory),
    (["kit", ".git"], .directory), (["kit", "a-b"], .directory), (["kit", "scripts"], .directory),
    (["kit", "b", "c"], .directory), (["kit", "link"], .link "b"), (["kit", "Z"], .directory),
    (["kit", "file"], .file 0o644 ⟨#[]⟩)]
  distinct := by decide

theorem listsSkills_discover_workshop :
    workshop.WellFormed ∧ workshop.stat [] "root/" = .ok (["kit"], .directory) ∧
      ∃ dirs, discover workshop [] "root/" ["scripts"] = .ok dirs ∧
        ListsSkills workshop ["kit"] "root/" ["scripts"] dirs ∧
        collect "root/" ["scripts"] (workshop.children ["kit"]).reverse = dirs := by
  have wellFormed : workshop.WellFormed := wellFormed_of_nodes (by decide)
  have root_eq : workshop.stat [] "root/" = .ok (["kit"], .directory) := by
    have steps_kit : steps "kit" = ["kit"] := by decide
    have short : ∀ name ∈ ["root", "kit"], ¬ maxName < name.utf8ByteSize := by decide
    refine stat_of_walk ⟨by decide, by decide, by decide⟩ ["root", ""] (by decide) ?_
    simp [walk, get?, find?, workshop, start, Path.isAbsolute, maxLinks, steps_kit, short]
  obtain ⟨dirs, found, listsSkills, anyOrder⟩ :=
    (listsSkills_discover wellFormed).1 ["kit"] root_eq
  exact ⟨wellFormed, root_eq, dirs, found, listsSkills, anyOrder _ (List.reverse_perm _)⟩

end SkillMarket.Skill
