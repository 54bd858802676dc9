import Mathlib.Data.List.DropRight
import PipelineSyntax.Proofs.Addresses

/-!
# Carets under columns

A diagnostic is shown with the line that it is about, and a caret below. The line is that of the
text at the number of the diagnostic's line, without the carriage returns at its end
(`Text.Cut.lineText_eq`), and the caret stands behind as many characters as columns come first.

The carriage returns are all that is cut off. So only a violation in the midst of them has its
caret too far to the left, right behind the line (`Diagnostic.length_pad_of_offset_le`).
-/

namespace PipelineSyntax

/-! ### The line that is shown -/

namespace Text.Cut

variable (cut : Cut)

/-- The text of the line is the line without the carriage returns at its end. -/
theorem lineText_eq :
    cut.lineText = (cut.lineBefore.reverse ++ cut.lineAfter).rdropWhile (· = '\r') :=
  rfl

theorem newline_notMem_lineText : '\n' ∉ cut.lineText := by
  intro hmem
  rw [lineText_eq] at hmem
  rcases List.mem_append.1 ((List.rdropWhile_prefix _ _).mem hmem) with hbefore | hafter
  · exact cut.newline_notMem_reverse_lineBefore hbefore
  · exact cut.newline_notMem_lineAfter hafter

/-- A cut that is not behind the text of its line has only that in front of it on the line. -/
theorem lineBefore_prefix_lineText
    (h : cut.offset ≤ lineStart (cut.before.reverse ++ cut.after) cut.line + width cut.lineText) :
    cut.lineBefore.reverse <+: cut.lineText := by
  have hle : width cut.lineBefore.reverse ≤ width cut.lineText := by
    rw [← cut.lineStart_add_width] at h
    exact Nat.le_of_add_le_add_left h
  exact prefix_of_width_le (List.prefix_append _ cut.lineAfter) (List.rdropWhile_prefix _ _) hle

end Text.Cut

/-! ### The pad in front of the caret -/

namespace Diagnostic

section Pad

variable (diagnostic : Diagnostic)

theorem length_pad : diagnostic.pad.length =
    min (diagnostic.column - 1) diagnostic.sourceLine.length := by
  simp [pad, sourceLine]

/-- The pad has tabs under tabs and blanks under everything else. -/
theorem getElem?_pad {index : Nat} (h : index < diagnostic.pad.length) :
    diagnostic.pad.toList[index]? =
      some (if diagnostic.sourceLine.toList[index]? = some '\t' then '\t' else ' ') := by
  rw [length_pad, sourceLine, String.length_ofList] at h
  have hindex : index < diagnostic.cut.lineText.length := by omega
  simp only [pad, sourceLine, String.toList_ofList, List.getElem?_map,
    List.getElem?_take_of_lt (by omega : index < diagnostic.column - 1),
    List.getElem?_eq_getElem hindex, Option.map_some, Option.some.injEq]

/-- The pad is as long as columns come first, unless the line ends before. -/
theorem length_pad_of_prefix (h : diagnostic.cut.lineBefore.reverse <+: diagnostic.cut.lineText) :
    diagnostic.pad.length = diagnostic.column - 1 := by
  have hle := h.length_le
  rw [List.length_reverse] at hle
  rw [length_pad, sourceLine, String.length_ofList]
  exact Nat.min_eq_left hle

end Pad

/-- **The caret stands under the column of the violation.** The line that is shown is that of the
text at the number of the line, without the carriage returns at its end. Below it a caret stands
behind a pad, which is as long as columns come first, or as the line where it is shorter, and has
tabs under tabs. The line is shorter only if the violation lies between the carriage returns that
are cut off. Every slice that line and column and the line itself are computed from is there. -/
theorem caret_under_column (name text : String) (abort : Abort) :
    let diagnostic := ofAbort name text abort
    let source := diagnostic.sourceLine.toList
    (∃ piece, Text.line? text.toList diagnostic.line = some piece ∧
      source = piece.rdropWhile (· = '\r') ∧ '\n' ∉ source) ∧
    (∃ pad : String, diagnostic.render =
        diagnostic.display ++ "\n  " ++ diagnostic.sourceLine ++ "\n  " ++ pad ++ "^" ∧
      pad.length = min (diagnostic.column - 1) source.length ∧
      (∀ index < pad.length,
        pad.toList[index]? = some (if source[index]? = some '\t' then '\t' else ' ')) ∧
      (diagnostic.offset ≤ Text.lineStart text.toList diagnostic.line + Text.width source →
        pad.length = diagnostic.column - 1)) ∧
    Text.lineColumn? text.toList diagnostic.offset = some (diagnostic.line, diagnostic.column) ∧
    Text.sourceLine? text.toList diagnostic.offset = some source := by
  intro diagnostic source
  have htext : diagnostic.cut.before.reverse ++ diagnostic.cut.after = text.toList :=
    toList_ofAbort name text abort
  have hsource : source = diagnostic.cut.lineText := String.toList_ofList
  rw [hsource, ← htext]
  refine ⟨⟨_, diagnostic.cut.line?_eq, diagnostic.cut.lineText_eq,
    diagnostic.cut.newline_notMem_lineText⟩, ⟨diagnostic.pad, rfl, ?_, fun index hindex ↦ ?_,
    fun hle ↦ ?_⟩, diagnostic.cut.lineColumn?_eq, diagnostic.cut.sourceLine?_eq⟩
  · rw [length_pad, sourceLine, String.length_ofList]
  · rw [diagnostic.getElem?_pad hindex, ← hsource]
  · exact diagnostic.length_pad_of_prefix (diagnostic.cut.lineBefore_prefix_lineText hle)

end Diagnostic

end PipelineSyntax
