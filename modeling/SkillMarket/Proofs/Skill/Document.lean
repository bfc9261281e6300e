import SkillMarket.Proofs.FileTree.Access
import SkillMarket.Proofs.Text.LineEndings
import SkillMarket.Skill.Document

/-!
# Documents and their line endings

A document that is reached by its own path or by that of its directory is loaded, and what is loaded
and reported does not depend on how its newlines are spelt.
-/

namespace SkillMarket.Skill

open Text FileTree

variable {t : FileTree} {here : Location} {text path : String}

/-- A path stands for a document with a text: it is that of the document or of its directory. -/
inductive StandsFor (t : FileTree) (here : Location) (text : String) : String → Prop
  | document {path : String} {loc : Location} {mode : Nat}
      (file : t.stat here path = .ok (loc, .file mode (encode text))) : StandsFor t here text path
  | directory {path : String} {dir loc : Location} {mode : Nat}
      (directory : t.stat here path = .ok (dir, .directory))
      (file : t.stat here (Path.join path documentName) =
        .ok (loc, .file mode (encode text))) : StandsFor t here text path

theorem StandsFor.exists_stat (h : StandsFor t here text path) :
    ∃ loc mode, t.stat here (documentPath t here path) = .ok (loc, .file mode (encode text)) := by
  cases h with
  | @document loc mode file =>
      have notDirectory : t.isDirectory here path = false := by rw [isDirectory, file]
      refine ⟨loc, mode, ?_⟩
      rw [documentPath, notDirectory]
      exact file
  | @directory dir loc mode directory file =>
      have isDirectory : t.isDirectory here path = true := by rw [isDirectory, directory]
      refine ⟨loc, mode, ?_⟩
      rw [documentPath, if_pos isDirectory]
      exact file

/-- Such a path is loaded. -/
theorem StandsFor.load_eq (h : StandsFor t here text path) :
    Document.load t here path = .ok (.ofText (documentPath t here path) text) := by
  obtain ⟨loc, mode, file⟩ := h.exists_stat
  rw [Document.load, reaches_of_stat file, readText_of_stat file]
  rfl

/-- **Line endings make no difference.** However the newlines of a text are spelt, normalizing gives
the text, and a document with the spelling is loaded like one with the text: with the same content,
front matter and report. Every text spells its own normal form, so that normalizing it leaves no
carriage return, keeps every other character in its place, adds nothing but newlines, and does
nothing more when it is done again; it is the replacement of a carriage return with its newline and
of every other one then. -/
theorem Document.load_of_spelling :
    (∀ text spelt : List Char, Spelling text spelt → normalizeNewlines spelt = text ∧
      ∀ t here path, StandsFor t here (String.ofList spelt) path →
      ∀ t' here' path', StandsFor t' here' (String.ofList text) path' →
        ∃ d d', load t here path = .ok d ∧ load t' here' path' = .ok d' ∧ d.content = text ∧
          d'.content = text ∧ d.frontMatter = d'.frontMatter ∧ d.report = d'.report) ∧
    ∀ any : List Char, Spelling (normalizeNewlines any) any ∧ '\r' ∉ normalizeNewlines any ∧
      (any.filter (· ≠ '\r')).Sublist (normalizeNewlines any) ∧
      (normalizeNewlines any).filter (· ≠ '\n') = any.filter (fun c => c ≠ '\n' ∧ c ≠ '\r') ∧
      normalizeNewlines (normalizeNewlines any) = normalizeNewlines any ∧
      normalizeNewlines any = replaceAll ['\r'] ['\n'] (replaceAll ['\r', '\n'] ['\n'] any) := by
  refine ⟨fun text spelt spelling => ⟨spelling.normalizeNewlines_eq, ?_⟩, fun any => ?_⟩
  · intro t here path holds t' here' path' holds'
    have same : normalizeNewlines spelt = normalizeNewlines text := by
      rw [spelling.normalizeNewlines_eq, normalizeNewlines_eq_self spelling.noReturn]
    have content (path : String) : (ofText path (String.ofList spelt)).content = text := by
      simpa [ofText] using spelling.normalizeNewlines_eq
    refine ⟨_, _, holds.load_eq, holds'.load_eq, content _, ?_, ?_, ?_⟩
    · simpa [ofText] using normalizeNewlines_eq_self spelling.noReturn
    · simp [ofText, same]
    · simp [report, ofText, same]
  · have spelling := spelling_normalizeNewlines any
    exact ⟨spelling, spelling.noReturn, spelling.sublist, spelling.filter_eq,
      normalizeNewlines_eq_self spelling.noReturn, normalizeNewlines_eq_replaceAll any⟩

/-- All three line endings, and carriage returns one after another. -/
def mixedText : List Char := "---\r\nname: a-b\r---\n\r\r\n".toList

def plainText : List Char := "---\nname: a-b\n---\n\n\n".toList

/-- A document in its directory, and another one beside that. -/
def twoDocuments (inside beside : List Char) : FileTree where
  nodes := [(["kit"], .directory),
    (["kit", "SKILL.md"], .file 0o600 (encode (String.ofList inside))),
    (["plain.md"], .file 0o644 (encode (String.ofList beside)))]
  distinct := by simp

section

variable (inside beside : List Char)

theorem short_names : ∀ name ∈ ["kit", "SKILL.md", "plain.md"], ¬ maxName < name.utf8ByteSize := by
  decide

theorem standsFor_kit :
    StandsFor (twoDocuments inside beside) [] (String.ofList inside) "kit" := by
  have kit : (twoDocuments inside beside).stat [] "kit" = .ok (["kit"], .directory) := by
    refine stat_of_walk ⟨by decide, by decide, by decide⟩ ["kit"] (by decide) ?_
    simp [walk, get?, find?, twoDocuments, start, Path.isAbsolute, short_names]
  have document : (twoDocuments inside beside).stat [] "kit/SKILL.md" =
      .ok (["kit", "SKILL.md"], .file 0o600 (encode (String.ofList inside))) := by
    refine stat_of_walk ⟨by decide, by decide, by decide⟩ ["kit", "SKILL.md"] (by decide) ?_
    simp [walk, get?, find?, twoDocuments, start, Path.isAbsolute, short_names]
  have joined : Path.join "kit" documentName = "kit/SKILL.md" := by decide
  exact .directory kit (joined ▸ document)

theorem standsFor_plain :
    StandsFor (twoDocuments inside beside) [] (String.ofList beside) "plain.md" := by
  have document : (twoDocuments inside beside).stat [] "plain.md" =
      .ok (["plain.md"], .file 0o644 (encode (String.ofList beside))) := by
    refine stat_of_walk ⟨by decide, by decide, by decide⟩ ["plain.md"] (by decide) ?_
    simp [walk, get?, find?, twoDocuments, start, Path.isAbsolute, short_names]
  exact .document document

end

theorem load_twoDocuments :
    Spelling plainText mixedText ∧
      ∃ d d', Document.load (twoDocuments mixedText plainText) [] "kit" = .ok d ∧
        Document.load (twoDocuments mixedText plainText) [] "plain.md" = .ok d' ∧
        d.content = plainText ∧ d'.content = plainText ∧ d.frontMatter = d'.frontMatter ∧
        d.report = d'.report :=
  have spelling : Spelling plainText mixedText := spelling_iff.mpr (by decide)
  ⟨spelling, (Document.load_of_spelling.1 _ _ spelling).2 _ _ _ (standsFor_kit mixedText plainText)
    _ _ _ (standsFor_plain mixedText plainText)⟩

end SkillMarket.Skill
