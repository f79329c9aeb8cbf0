import PascalTokens.Proofs.Scan.Origin
import PascalTokens.Proofs.SourceFile

/-!
# Sources that were kept in a file

A source that is exported and imported again may come back with other line endings and with a line
feed at its end. The scan takes a carriage return before a line feed for a part of the line ending,
and a line without words for nothing. So it finds the same tokens on the same lines, and fails in
the same way, provided that no carriage return stands anywhere else: there it is a blank to the
scan, and a line ending to the import. The same goes for a stream that keeps the line endings of its
source.

## Main statements

* `drain_unifyLineEndings`: line endings may be unified.
* `drain_apply_newlines`: a stream may keep line endings, or unify them.
* `drain_load_after_save`: a source that was exported is imported with the drain it had.
-/

namespace PascalTokens

namespace Scan

variable {text path : Text}

/-- A scan drops the carriage returns at line ends itself. -/
theorem drain_unifyLineEndings (setting : Setting) (h : Text.ReturnsEndLines text) :
    drain setting (Text.unifyLineEndings text) = drain setting text := by
  rw [drain_eq_lines, Text.lines_unifyLineEndings h, drain_eq_scanLines, sourceLines]

/-- A stream may keep the carriage returns at line ends, and one at the end of the text. -/
theorem drain_apply_newlines (setting : Setting) {newlines : Text.Newlines}
    (h : newlines = .kept → Text.ReturnsEndLines (Text.terminated text)) :
    drain setting (newlines.apply text) = drain setting (Text.unifyLineEndings text) := by
  cases newlines with
  | unified => rfl
  | kept =>
    calc drain setting text
      _ = drain setting (Text.terminated text) := (drain_terminated setting text).symm
      _ = drain setting (Text.unifyLineEndings (Text.terminated text)) :=
        (drain_unifyLineEndings setting (h rfl)).symm
      _ = drain setting (Text.terminated (Text.unifyLineEndings text)) := by
        rw [Text.unifyLineEndings_terminated]
      _ = drain setting (Text.unifyLineEndings text) := drain_terminated setting _

theorem drain_normalize (setting : Setting) (h : Text.ReturnsEndLines text) :
    drain setting (SourceFile.normalize text) = drain setting text := by
  rw [SourceFile.normalize, drain_terminated, drain_unifyLineEndings setting h]

/-- A source can be exported to every path that names a file, with every codec that reaches its
characters. What is imported from there is scanned like the source itself. -/
theorem drain_load_after_save (setting : Setting) {tree : FileTree} {l : Location} {codec : Codec}
    {bytes : Bytes} (hpath : SourceFile.Names tree path l)
    (hencode : codec.encode text = .ok bytes) (hreturns : Text.ReturnsEndLines text) :
    ∃ after loaded, SourceFile.save tree text path codec.name = (after, .ok (.ofText path)) ∧
      SourceFile.load after path codec.name = .ok loaded ∧
      drain setting loaded = drain setting text := by
  have hwritten : tree.Written (tree.put l bytes) l bytes := tree.written_put l bytes
  have hnames : SourceFile.Names (tree.put l bytes) path l :=
    (SourceFile.names_congr hwritten.directories_eq).2 hpath
  have hcontents : (tree.put l bytes).contents? l = some bytes := by
    rw [hwritten.contents?_eq, if_pos rfl]
  exact ⟨tree.put l bytes, SourceFile.normalize text, SourceFile.save_eq hpath hencode,
    SourceFile.load_eq hnames hcontents hencode, drain_normalize setting hreturns⟩

/-- Carriage returns in a literal and behind a line comment, in a text that does not end its last
line. -/
theorem drain_load_after_save_returns :
    let setting : Setting := ⟨.ofFlags true true, none⟩
    let tree : FileTree := ⟨[["a".toList]], []⟩
    let text := "s = 'é\r\nb'; // x\r\n$".toList
    drain setting text =
        ⟨[⟨['s'], .identifier, 1⟩, ⟨['='], .relationalOperator, 1⟩,
          ⟨"é b".toList, .stringLiteral, 2⟩], .failed ⟨.unrecognized ['$'], 3, none⟩⟩ ∧
      ∃ after loaded,
        SourceFile.save tree text "a//b".toList Codec.latin1.name =
          (after, .ok (.ofText "a//b".toList)) ∧
        SourceFile.load after "a//b".toList Codec.latin1.name = .ok loaded ∧
        drain setting loaded = drain setting text := by
  intro setting tree text
  have hpath : SourceFile.Names tree "a//b".toList ["a".toList, "b".toList] :=
    ⟨by decide, by decide⟩
  have hreturns : Text.ReturnsEndLines text := by
    simp [text, Text.returnsEndLines_nil, Text.returnsEndLines_cons]
  exact ⟨by decide, drain_load_after_save setting hpath rfl hreturns⟩

end Scan

end PascalTokens
