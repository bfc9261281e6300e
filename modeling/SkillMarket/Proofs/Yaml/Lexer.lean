import Mathlib.Data.List.Basic
import SkillMarket.Yaml.Token

/-!
# Tokens that stay

A lexer puts tokens for a key in front of others that it has taken before, but never in front of
the place where the key may have begun. So the tokens that were there before any of the keys that
are still possible stay the first ones, whatever the rest of the text holds.
-/

namespace SkillMarket.Yaml

/-- Tokens, the last one first, that the lexer has taken before any key that is still possible. -/
structure Keeps (first : List Token) (l : Lexer) : Prop where
  tokens : first <:+ l.tokens
  count : l.count = l.tokens.length
  possible : ∀ k ∈ l.possible, first.length ≤ k.number
  outer : ∀ level ∈ l.outer, ∀ k ∈ level, first.length ≤ k.number

namespace Keeps

variable {first : List Token} {l l' : Lexer}

/-! ## What does not change tokens -/

/-- Going on in the text changes nothing. -/
theorem moved (h : Keeps first l) (cursor : Cursor) (keyAllowed : Bool) :
    Keeps first { l with cursor := cursor, keyAllowed := keyAllowed } :=
  ⟨h.tokens, h.count, h.possible, h.outer⟩

theorem withoutKey (h : Keeps first l) : Keeps first { l with possible := none } :=
  ⟨h.tokens, h.count, by simp, h.outer⟩

theorem le_count (h : Keeps first l) : first.length ≤ l.count :=
  h.count ▸ h.tokens.length_le

theorem skipGap (h : Keeps first l) : Keeps first l.skipGap := h.moved _ _

theorem giveUpKey (h : Keeps first l) (done : l.giveUpKey = some l') : Keeps first l' := by
  unfold Lexer.giveUpKey at done
  split at done
  · simp at done
  · rw [Option.some.injEq] at done
    exact done ▸ h.withoutKey

theorem noteKey (h : Keeps first l) (done : l.noteKey = some l') : Keeps first l' := by
  unfold Lexer.noteKey at done
  split at done
  · obtain ⟨m, hm, rfl⟩ := Option.map_eq_some_iff.mp done
    have kept := h.giveUpKey hm
    -- the key begins with the next token
    exact ⟨kept.tokens, kept.count, fun k hk => Option.mem_some_iff.mp hk ▸ kept.le_count,
      kept.outer⟩
  · rw [Option.some.injEq] at done
    exact done ▸ h

theorem mem_of_dropStaleKey {here : Place} {key key' : Option PossibleKey} {k : PossibleKey}
    (done : dropStaleKey here key = some key') (hk : k ∈ key') : k ∈ key := by
  unfold dropStaleKey at done
  split at done
  · simp_all
  · split_ifs at done <;> simp_all

/-- What is left of a level was there before. -/
theorem exists_of_mem_mapM {here : Place} {outer outer' : List (Option PossibleKey)}
    (done : outer.mapM (dropStaleKey here) = some outer') {level' : Option PossibleKey}
    (hlevel : level' ∈ outer') :
    ∃ level ∈ outer, dropStaleKey here level = some level' := by
  induction outer generalizing outer' with
  | nil =>
      rw [List.mapM_nil, Option.pure_def, Option.some.injEq] at done
      simp [← done] at hlevel
  | cons level outer ih =>
      simp only [List.mapM_cons, Option.bind_eq_bind, Option.bind_eq_some_iff, Option.pure_def,
        Option.some.injEq] at done
      obtain ⟨kept, hkept, more, hmore, rfl⟩ := done
      rcases List.mem_cons.mp hlevel with rfl | hlevel
      · exact ⟨level, by simp, hkept⟩
      · obtain ⟨found, hfound, hdrop⟩ := ih hmore hlevel
        exact ⟨found, by simp [hfound], hdrop⟩

theorem dropStaleKeys (h : Keeps first l) (done : l.dropStaleKeys = some l') : Keeps first l' := by
  unfold Lexer.dropStaleKeys at done
  simp only [Option.bind_eq_bind, Option.bind_eq_some_iff, Option.pure_def,
    Option.some.injEq] at done
  obtain ⟨possible, hpossible, outer, houter, rfl⟩ := done
  refine ⟨h.tokens, h.count, fun k hk => h.possible k (mem_of_dropStaleKey hpossible hk), ?_⟩
  intro level' hlevel' k hk
  obtain ⟨level, hlevel, hdrop⟩ := exists_of_mem_mapM houter hlevel'
  exact h.outer level hlevel k (mem_of_dropStaleKey hdrop hk)

/-! ## What puts tokens -/

theorem add (h : Keeps first l) (t : Token) : Keeps first (l.add t) :=
  ⟨h.tokens.trans (List.suffix_cons t l.tokens), congrArg Nat.succ h.count, h.possible, h.outer⟩

/-- A token that is put after the first ones leaves them where they are. -/
theorem insert (h : Keeps first l) {number : Nat} (after : first.length ≤ number) (t : Token) :
    Keeps first (l.insert number t) := by
  obtain ⟨later, hlater⟩ := h.tokens
  have length : later.length + first.length = l.count := by
    rw [h.count, ← hlater, List.length_append]
  have below : l.count - number ≤ later.length := by omega
  refine ⟨?_, ?_, h.possible, h.outer⟩
  · have kept : first <:+ l.tokens.drop (l.count - number) := by
      rw [← hlater, List.drop_append_of_le_length below]
      exact List.suffix_append _ _
    exact (kept.trans (List.suffix_cons t _)).trans (List.suffix_append _ _)
  · simp only [Lexer.insert, h.count, List.length_append, List.length_cons, List.length_take,
      List.length_drop]
    omega

theorem openBlock (h : Keeps first l) {number : Nat} (after : first.length ≤ number)
    (column : Nat) (t : Token) : Keeps first (l.openBlock column number t) := by
  unfold Lexer.openBlock
  split
  · have opened := h.insert after t
    exact ⟨opened.tokens, opened.count, opened.possible, opened.outer⟩
  · exact h

theorem closeBlocks (h : Keeps first l) (bound : Nat) : Keeps first (l.closeBlocks bound) := by
  unfold Lexer.closeBlocks
  split
  · exact h
  · refine ⟨h.tokens.trans (List.suffix_append _ _), ?_, h.possible, h.outer⟩
    simp only [h.count, List.length_append, List.length_map]
    omega

/-! ## Taking tokens -/

theorem takeMark (h : Keeps first l) {t : Token} {next : Cursor}
    (done : l.takeMark t next = some l') : Keeps first l' := by
  obtain ⟨m, hm, rfl⟩ := Option.map_eq_some_iff.mp done
  exact (((h.closeBlocks 0).giveUpKey hm).add t).moved _ _

theorem takeOpening (h : Keeps first l) {t : Token} (done : l.takeOpening t = some l') :
    Keeps first l' := by
  obtain ⟨m, hm, rfl⟩ := Option.map_eq_some_iff.mp done
  have kept := (h.noteKey hm).add t
  exact ⟨kept.tokens, kept.count, by simp, List.forall_mem_cons.mpr ⟨kept.possible, kept.outer⟩⟩

theorem takeClosing (h : Keeps first l) {t : Token} (done : l.takeClosing t = some l') :
    Keeps first l' := by
  obtain ⟨m, hm, rfl⟩ := Option.map_eq_some_iff.mp done
  have given := h.giveUpKey hm
  have kept := given.add t
  refine ⟨kept.tokens, kept.count, ?_, fun level hlevel =>
    kept.outer level (List.mem_of_mem_tail hlevel)⟩
  cases houter : m.outer with
  | nil => simpa [houter] using given.possible
  | cons level more => simpa [houter] using given.outer level (by simp [houter])

theorem takeComma (h : Keeps first l) (done : l.takeComma = some l') : Keeps first l' := by
  obtain ⟨m, hm, rfl⟩ := Option.map_eq_some_iff.mp done
  exact ((h.giveUpKey hm).add .comma).moved _ _

theorem takeDash (h : Keeps first l) (done : l.takeDash = some l') : Keeps first l' := by
  unfold Lexer.takeDash at done
  split at done
  · simp at done
  · obtain ⟨m, hm, rfl⟩ := Option.map_eq_some_iff.mp done
    exact (((h.openBlock h.le_count _ _).giveUpKey hm).add .dash).moved _ _

theorem takeKey (h : Keeps first l) (done : l.takeKey = some l') : Keeps first l' := by
  unfold Lexer.takeKey at done
  split at done
  · simp at done
  · obtain ⟨m, hm, rfl⟩ := Option.map_eq_some_iff.mp done
    exact (((h.openBlock h.le_count _ _).giveUpKey hm).add .key).moved _ _

theorem takeValue (h : Keeps first l) (done : l.takeValue = some l') : Keeps first l' := by
  unfold Lexer.takeValue at done
  split at done
  · next k hk =>
    have after := h.possible k (by simp [hk])
    rw [Option.some.injEq] at done
    exact done ▸ ((((h.insert after .key).openBlock after _ _).add .value).withoutKey.moved _ _)
  · split at done
    · simp at done
    · rw [Option.some.injEq] at done
      exact done ▸ (((h.openBlock h.le_count _ _).add .value).moved _ _)

theorem takeNode (h : Keeps first l) {read : Option (Token × Cursor)}
    (done : l.takeNode read = some l') : Keeps first l' := by
  simp only [Lexer.takeNode, Option.bind_eq_bind, Option.bind_eq_some_iff, Option.pure_def,
    Option.some.injEq] at done
  obtain ⟨m, hm, ⟨t, next⟩, -, rfl⟩ := done
  exact ((h.noteKey hm).add t).moved _ _

theorem takePlain (h : Keeps first l) (done : l.takePlain = some l') : Keeps first l' := by
  simp only [Lexer.takePlain, Option.bind_eq_bind, Option.bind_eq_some_iff, Option.pure_def,
    Option.some.injEq] at done
  obtain ⟨m, hm, r, -, rfl⟩ := done
  exact ((h.noteKey hm).add _).moved _ _

theorem takeBlock (h : Keeps first l) {style : BlockStyle} {size : Nat}
    (done : l.takeBlock style size = some l') : Keeps first l' := by
  simp only [Lexer.takeBlock, Option.bind_eq_bind, Option.bind_eq_some_iff, Option.pure_def,
    Option.some.injEq] at done
  obtain ⟨m, hm, r, -, rfl⟩ := done
  exact ((h.giveUpKey hm).add _).moved _ _

/-- One of two ways is taken. -/
theorem of_ite {p : Prop} [Decidable p] {left right : Option Lexer}
    (hleft : left = some l' → Keeps first l') (hright : right = some l' → Keeps first l') :
    (if p then left else right) = some l' → Keeps first l' := by
  split
  · exact hleft
  · exact hright

theorem take (h : Keeps first l) {size : Nat} {c : Char} {rest : List Char} :
    l.take size c rest = some l' → Keeps first l' := by
  refine of_ite (fun done => ?_) <|
    of_ite h.takeMark <|
    of_ite h.takeOpening <| of_ite h.takeOpening <| of_ite h.takeClosing <| of_ite h.takeClosing <|
    of_ite h.takeComma <| of_ite h.takeDash <| of_ite h.takeKey <| of_ite h.takeValue <|
    of_ite h.takeNode <| of_ite h.takeNode <| of_ite h.takeNode <|
    of_ite h.takeBlock <| of_ite h.takeBlock <| of_ite h.takeNode <| of_ite h.takeNode <|
    of_ite h.takePlain nofun
  obtain ⟨⟨d, next⟩, -, hmark⟩ := Option.bind_eq_some_iff.mp done
  exact h.takeMark hmark

/-- **Whatever a lexer takes, the first tokens stay.** -/
theorem run (h : Keeps first l) {size rounds : Nat} (done : l.run size rounds = some l') :
    Keeps first l' := by
  induction rounds generalizing l with
  | zero => simp [Lexer.run] at done
  | succ rounds ih =>
      rw [Lexer.run, Option.bind_eq_bind, Option.bind_eq_some_iff] at done
      obtain ⟨m, hm, done⟩ := done
      have kept := (h.skipGap.dropStaleKeys hm).closeBlocks (m.column + 1)
      dsimp only at done
      split at done
      · exact (kept.closeBlocks 0).giveUpKey done
      · obtain ⟨n, hn, done⟩ := Option.bind_eq_some_iff.mp done
        exact ih (kept.take hn) done

end Keeps

end SkillMarket.Yaml
