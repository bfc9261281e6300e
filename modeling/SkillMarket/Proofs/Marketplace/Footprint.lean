import SkillMarket.Proofs.Marketplace.Run

/-!
# What a run writes

A run that ends well writes one file at most: the one that the manifest's path leads to, through
however many links, as long as it has a canonical path. Nothing stays of the temporary file, and
every path leads where it led. Without a canonical path the last name of the manifest's path is
written, which may be a link that is replaced by a file.
-/

namespace SkillMarket.Marketplace

open FileTree

variable {s : Sync} {t : FileTree} {here : Location} {process : Nat}

/-- Where the manifest is saved where it is, a run that ends well leaves it there, with the same
bytes or other ones, and nothing else differs. -/
theorem Sync.rewritten_of_ok (wellFormed : t.WellFormed) {loc : Location} {text : String}
    {report : SyncReport} (hok : (s.run t here process).result = .ok report)
    (opened : t.openText here s.manifestPath = .ok (loc, text)) (inPlace : s.place t here = loc)
    (free : t.get? (s.temporary t here process) = none) :
    ∃ mode old new, t.stat here s.manifestPath = .ok (loc, .file mode old) ∧
      Rewritten t (s.run t here process).tree loc mode old new := by
  obtain ⟨mode, m, hstat, -, -, outcome⟩ := Sync.tree_of_ok_of_opened hok opened
  have hfile := get?_of_stat hstat
  rcases outcome with ⟨-, htree⟩ | ⟨-, saved⟩
  · rw [htree]
    exact ⟨mode, _, _, hstat, .refl hfile⟩
  · have hget := Sync.get?_saved wellFormed hstat free saved
    rw [inPlace] at hget
    exact ⟨mode, _, _, hstat, .of_get? hfile hget⟩

/-- **A run that ends well writes one file at most.** Without an update the tree is as it was,
whatever stands at the temporary location. With one, if nothing stood there before, a file with the
permissions of the manifest has come to the place that the manifest is saved at, the manifest's path
leads to it, and every other location holds what it held; no location is new or gone. If the
manifest has a canonical path, that place is its own: then every link is as it was, and every path
leads where it led. -/
theorem Sync.run_writes_manifest_only (wellFormed : t.WellFormed) {report : SyncReport}
    (hok : (s.run t here process).result = .ok report) :
    ((∀ outcome ∈ report.entries, outcome.isUpdated = false) → (s.run t here process).tree = t) ∧
    ((∃ outcome ∈ report.entries, outcome.isUpdated = true) →
      t.get? (s.temporary t here process) = none →
      ∃ loc mode old new,
        t.stat here s.manifestPath = .ok (loc, .file mode old) ∧
        (s.run t here process).tree.stat here s.manifestPath =
          .ok (s.place t here, .file mode new) ∧
        (∀ l, l ≠ s.place t here → (s.run t here process).tree.get? l = t.get? l) ∧
        (∀ l, (s.run t here process).tree.get? l = none ↔ t.get? l = none) ∧
        ∀ full, t.canonicalize here s.manifestPath = .ok full →
          s.place t here = loc ∧
          (∀ l target, (s.run t here process).tree.get? l = some (.link target) ↔
            t.get? l = some (.link target)) ∧
          ∀ current path l node, t.stat current path = .ok (l, node) →
            ∃ node', (s.run t here process).tree.stat current path = .ok (l, node') ∧
              (l ≠ loc → node' = node)) := by
  obtain ⟨loc, text, m, opened, -, -, -, outcome⟩ := Sync.tree_of_ok hok
  obtain ⟨mode, hstat⟩ := openText_eq_ok_iff.mp opened
  refine ⟨fun same => ?_, fun updated free => ?_⟩
  · rcases outcome with ⟨-, htree⟩ | ⟨other, -⟩
    · exact htree
    · exact absurd (SyncReport.updated_eq_zero_iff.mpr same) other
  · have saved := (outcome.resolve_left fun ⟨zero, _⟩ => by
      obtain ⟨outcome, ho, hupdated⟩ := updated
      simp [SyncReport.updated_eq_zero_iff.mp zero outcome ho] at hupdated).2
    have hget := Sync.get?_saved wellFormed hstat free saved
    have elsewhere (l : Location) (hl : l ≠ s.place t here) :
        (s.run t here process).tree.get? l = t.get? l := by rw [hget, if_neg (Ne.symm hl)]
    refine ⟨loc, mode, _, _, hstat, Sync.stat_of_saved wellFormed hstat hget, elsewhere,
      fun l => ?_, fun full canonical => ?_⟩
    · by_cases hl : l = s.place t here
      · simp [hl, hget, Sync.get?_place_ne_none wellFormed hstat]
      · rw [elsewhere l hl]
    · have inPlace := s.place_eq_of_canonicalize wellFormed canonical hstat
      obtain ⟨mode', old, new, hstat', rewritten⟩ :=
        Sync.rewritten_of_ok wellFormed hok opened inPlace free
      exact ⟨inPlace, rewritten.link_iff, fun current path l node h => rewritten.stat h⟩

theorem run_shop_writes_manifest_only :
    (shop [shopPackage]).WellFormed ∧
      (shopSync.run (shop [shopPackage]) [] 7).result = .ok ⟨"/l", shopOutcomes⟩ ∧
      (∃ outcome ∈ shopOutcomes, outcome.isUpdated = true) ∧
      (shop [shopPackage]).get? (shopSync.temporary (shop [shopPackage]) [] 7) = none ∧
      (shop [shopPackage]).canonicalize [] shopSync.manifestPath = .ok "/m" ∧
      ∃ loc mode old new,
        (shop [shopPackage]).stat [] shopSync.manifestPath = .ok (loc, .file mode old) ∧
        (shopSync.run (shop [shopPackage]) [] 7).tree.stat [] shopSync.manifestPath =
          .ok (loc, .file mode new) ∧
        (∀ l, l ≠ loc →
          (shopSync.run (shop [shopPackage]) [] 7).tree.get? l = (shop [shopPackage]).get? l) ∧
        ∀ l target,
          (shopSync.run (shop [shopPackage]) [] 7).tree.get? l = some (.link target) ↔
            (shop [shopPackage]).get? l = some (.link target) := by
  have updated : ∃ outcome ∈ shopOutcomes, outcome.isUpdated = true := by decide
  obtain ⟨loc, mode, old, new, hstat, hstat', elsewhere, -, canonical⟩ :=
    (Sync.run_writes_manifest_only isShop_shop.wellFormed result_run_shop).2 updated shop_free
  obtain ⟨inPlace, links, -⟩ := canonical _ isShop_shop.canonical
  rw [inPlace] at hstat' elsewhere
  exact ⟨isShop_shop.wellFormed, result_run_shop, updated, shop_free, isShop_shop.canonical, loc,
    mode, old, new, hstat, hstat', elsewhere, links⟩

/-- **A link to a manifest that is too far from the root is replaced.** The new text comes to the
place of the link, and the manifest that the link led to stays as it was. -/
theorem Sync.run_replaces_link (wellFormed : t.WellFormed) {report : SyncReport}
    (hok : (s.run t here process).result = .ok report) (updated : report.updated ≠ 0)
    (free : t.get? (s.temporary t here process) = none) {loc link : Location} {text aim : String}
    (opened : t.openText here s.manifestPath = .ok (loc, text))
    (hlink : t.locate here .keep s.manifestPath = .ok ⟨link, some (.link aim)⟩)
    (far : maxPath ≤ (fullPath loc).utf8ByteSize) :
    (∃ mode new, (s.run t here process).tree.get? link = some (.file mode new)) ∧
      (s.run t here process).tree.get? loc = t.get? loc := by
  obtain ⟨mode, m, hstat, -, -, outcome⟩ := Sync.tree_of_ok_of_opened hok opened
  obtain ⟨-, saved⟩ := outcome.resolve_left fun h => updated h.1
  have hget := Sync.get?_saved wellFormed hstat free saved
  have place : s.place t here = link := s.place_of_far hstat far hlink
  have apart : link ≠ loc := by
    rintro rfl
    have there := (locate_eq_ok_iff.mp hlink).2.node_eq
    simp [get?_of_stat hstat] at there
  rw [place] at hget
  exact ⟨⟨mode, _, by rw [hget, if_pos rfl]⟩, by rw [hget, if_neg apart]⟩

/-- A name that is nearly as long as a name can be. -/
def longName : String := String.ofList (List.replicate 250 'd')

/-- So many directories of that name, one in the other. -/
def longWay (n : Nat) : Location := List.replicate n longName

/-- A shop in which two links lead to a manifest that is too far from the root. -/
def farShop : FileTree where
  nodes := [(["l"], .link (fullPath ("e" :: longWay 8 ++ ["m"]))),
      (["e"], .link (fullPath (longWay 8 ++ [longName]))), (["a"], .directory), shopPackage] ++
    ((List.range 17).map fun n => (longWay (n + 1), .directory)) ++
    [(longWay 17 ++ ["m"], .file 0o600 (Text.encode shopText))]
  distinct := List.Nodup.of_map (fun l => (l.length, l.head?)) (by decide +kernel)

theorem isFileName_longName : IsFileName longName := by
  have chars : longName.toList = List.replicate 250 'd' := String.toList_ofList
  have other (c : Char) (h : c ≠ 'd') : c ∉ longName.toList := by
    rw [chars, List.mem_replicate]
    exact fun hc => h hc.2
  exact ⟨⟨by decide +kernel, by decide +kernel, by decide +kernel, by decide +kernel⟩,
    other '/' (by decide), other '\x00' (by decide)⟩

theorem get?_farShop_longWay {n : Nat} (h : n ≤ 17) :
    farShop.get? (longWay n) = some .directory := by
  cases n with
  | zero => rfl
  | succ n =>
      refine (get?_eq_some_iff (by simp [longWay])).mpr ?_
      simp only [farShop, List.mem_append, List.mem_map, List.mem_range]
      exact .inl (.inr ⟨n, h, rfl⟩)

theorem get?_farShop_manifest :
    farShop.get? (longWay 17 ++ ["m"]) = some (.file 0o600 (Text.encode shopText)) := by
  refine (get?_eq_some_iff (by simp [longWay])).mpr ?_
  simp only [farShop, List.mem_append, List.mem_singleton]
  exact .inr trivial

theorem wellFormed_farShop : farShop.WellFormed := by
  refine wellFormed_of_nodes fun p hp => ?_
  simp only [farShop, List.mem_append, List.mem_map, List.mem_range, List.mem_singleton] at hp
  rcases hp with (hp | ⟨n, hn, rfl⟩) | rfl
  · revert p
    decide +kernel
  · have name : (longWay (n + 1)).getLast? = some longName := by
      simp [longWay, List.replicate_succ']
    have dir : (longWay (n + 1)).dropLast = longWay n := by simp [longWay, List.replicate_succ']
    rw [dir, name]
    exact ⟨get?_farShop_longWay (by omega), by simpa using isFileName_longName⟩
  · rw [List.dropLast_concat, List.getLast?_concat]
    exact ⟨get?_farShop_longWay (by omega), by decide +kernel⟩

theorem far_farShop : maxPath ≤ (fullPath (longWay 17 ++ ["m"])).utf8ByteSize := by
  decide +kernel

/-- The first link leads to the second one, and that one half of the way. -/
theorem stat_farShop : farShop.stat [] shopSync.manifestPath =
    .ok (longWay 17 ++ ["m"], .file 0o600 (Text.encode shopText)) := by
  have isFileName : ∀ name ∈ ["l", "e", "m"], IsFileName name := by decide +kernel
  have isPiece (n : Nat) : ∀ name ∈ longWay n, IsPiece name := fun name hname =>
    List.eq_of_mem_replicate hname ▸ isFileName_longName.isProper.toIsPiece
  have pieces : ∀ name ∈ "e" :: longWay 8 ++ ["m"], IsPiece name := by
    simp only [List.cons_append, List.forall_mem_cons, List.forall_mem_append]
    exact ⟨(isFileName "e" (by simp)).isProper.toIsPiece, isPiece 8,
      (isFileName "m" (by simp)).isProper.toIsPiece, by simp⟩
  have half : ∀ name ∈ longWay 8 ++ [longName], IsPiece name := isPiece 9
  have whole : Leads farShop .follow 38 [] (longWay 17 ++ ["m"])
      ⟨longWay 17 ++ ["m"], farShop.get? (longWay 17 ++ ["m"])⟩ :=
    wellFormed_farShop.leads_append (get?_farShop_longWay (n := 17) (by omega))
      (.entered (get?_farShop_longWay (by omega)) (isFileName "m" (by simp)).toIsName (by simp)
        get?_farShop_manifest (by simp) .done)
  have second : Leads farShop .follow 39 [] ("e" :: longWay 8 ++ ["m"])
      ⟨longWay 17 ++ ["m"], farShop.get? (longWay 17 ++ ["m"])⟩ := by
    refine .followed rfl (isFileName "e" (by simp)).toIsName (by simp) rfl (by simp) ?_
    rw [ite_self, steps_fullPath half]
    exact whole
  have first : Leads farShop .follow maxLinks [] ["l"]
      ⟨longWay 17 ++ ["m"], farShop.get? (longWay 17 ++ ["m"])⟩ := by
    refine .followed rfl (isFileName "l" (by simp)).toIsName (by simp) rfl (by simp) ?_
    rw [ite_self, steps_fullPath pieces, List.append_nil]
    exact second
  have steps : steps shopSync.manifestPath = ["l"] := by decide +kernel
  rw [stat_eq_ok_iff, locate_eq_ok_iff, steps, ← get?_farShop_manifest]
  exact ⟨⟨by decide, by decide, by decide⟩, first⟩

theorem package_farShop : farShop.stat [] "/a/p" = .ok (["a", "p"], shopPackage.2) := by
  have isFileName : ∀ name ∈ ["a", "p"], IsFileName name := by decide +kernel
  have steps : steps "/a/p" = ["a", "p"] := by decide +kernel
  rw [stat_eq_ok_iff, locate_eq_ok_iff, steps]
  refine ⟨⟨by decide, by decide, by decide⟩,
    .entered rfl (isFileName "a" (by simp)).toIsName (by simp) rfl (by simp) ?_⟩
  exact .entered rfl (isFileName "p" (by simp)).toIsName (by simp) rfl (by simp) .done

theorem locate_farShop : farShop.locate [] .keep shopSync.manifestPath =
    .ok ⟨["l"], some (.link (fullPath ("e" :: longWay 8 ++ ["m"])))⟩ := by
  have isFileName : IsFileName "l" := by decide +kernel
  have steps : steps shopSync.manifestPath = ["l"] := by decide +kernel
  rw [locate_eq_ok_iff, steps]
  exact ⟨⟨by decide, by decide, by decide⟩, .kept rfl isFileName.toIsName rfl rfl⟩

/-- The run ends well, but the link is a file now, and the manifest that it led to is as it was. -/
theorem run_farShop_replaces_link :
    farShop.WellFormed ∧
      farShop.stat [] "/l" = .ok (longWay 17 ++ ["m"], .file 0o600 (Text.encode shopText)) ∧
      farShop.get? ["l"] = some (.link (fullPath ("e" :: longWay 8 ++ ["m"]))) ∧
      farShop.get? (temporaryLocation (longWay 17 ++ ["m"]) 7) = none ∧
      farShop.get? (temporaryLocation ["l"] 7) = none ∧
      (shopSync.run farShop [] 7).result = .ok ⟨"/l", shopOutcomes⟩ ∧
      (∃ mode new, (shopSync.run farShop [] 7).tree.get? ["l"] = some (.file mode new)) ∧
      (shopSync.run farShop [] 7).tree.get? (longWay 17 ++ ["m"]) =
        some (.file 0o600 (Text.encode shopText)) := by
  have opened : farShop.openText [] shopSync.manifestPath = .ok (longWay 17 ++ ["m"], shopText) :=
    openText_eq_ok_iff.mpr ⟨0o600, stat_farShop⟩
  have place : shopSync.place farShop [] = ["l"] :=
    shopSync.place_of_far stat_farShop far_farShop locate_farShop
  have temporary : temporaryLocation ["l"] 7 = ["l.7.tmp"] := by decide +kernel
  have free : farShop.get? (temporaryLocation ["l"] 7) = none := by
    rw [temporary]
    decide +kernel
  have free' : farShop.get? (temporaryLocation (longWay 17 ++ ["m"]) 7) = none := by
    decide +kernel
  have writable : shopSync.Writable farShop [] 7 := by
    rw [Sync.Writable, place, Sync.savePath_of_far stat_farShop far_farShop]
    exact ⟨by decide +kernel, by decide +kernel, rfl, rfl, rfl⟩
  have saved : farShop.get? (shopSync.temporary farShop [] 7) = none := by
    rw [Sync.temporary, place, free]
  have result : (shopSync.run farShop [] 7).result = .ok ⟨"/l", shopOutcomes⟩ :=
    (Sync.result_eq_ok_iff opened parse_shopText (decided_shopManifest package_farShop)
      wellFormed_farShop saved).mpr fun _ => writable
  obtain ⟨link, manifest⟩ := Sync.run_replaces_link wellFormed_farShop result (by decide) saved
    opened locate_farShop far_farShop
  exact ⟨wellFormed_farShop, stat_farShop, rfl, free', free, result, link,
    manifest.trans get?_farShop_manifest⟩

end SkillMarket.Marketplace
