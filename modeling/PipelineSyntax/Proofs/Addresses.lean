import Mathlib.Data.Prod.Lex
import PipelineSyntax.Diagnostic
import PipelineSyntax.Proofs.Slices

/-!
# Line and column as an address

Line and column of a diagnostic say where it is as well as its byte offset does. Going to a line
of the text, and in it behind as many characters as the column says, is `Text.offsetAt?`, and it
ends at the offset of the diagnostic.

A line and a column that come later in the lexicographic order lie at a larger offset
(`Text.offsetAt?_lt`). So an offset has one address only, and offsets are ordered as their
addresses are.
-/

namespace PipelineSyntax

namespace Text

/-! ### Addresses -/

/-- A line of a text, without the newline that ends it. Lines count from one. -/
def line? (chars : List Char) : Nat → Option (List Char)
  | 0 => none
  | line + 1 => (chars.splitOn '\n')[line]?

/-- Where a line begins, in bytes: behind the earlier ones and the newlines that end them. -/
def lineStart (chars : List Char) (line : Nat) : Nat :=
  width (((chars.splitOn '\n').take (line - 1)).flatMap (· ++ ['\n']))

/-- The byte offset at a line and a column, which is behind as many characters of the line as
columns come first. The column may be that behind the line, but none further on. -/
def offsetAt? (chars : List Char) (line column : Nat) : Option Nat :=
  match line? chars line with
  | some piece =>
    if 0 < column ∧ column ≤ piece.length + 1 then
      some (lineStart chars line + width (piece.take (column - 1)))
    else none
  | none => none

section Addresses

variable {chars piece : List Char} {line line' column column' offset offset' : Nat}

theorem offsetAt?_eq_some_iff : offsetAt? chars line column = some offset ↔
    ∃ piece, line? chars line = some piece ∧ 0 < column ∧ column ≤ piece.length + 1 ∧
      lineStart chars line + width (piece.take (column - 1)) = offset := by
  rw [offsetAt?]
  cases line? chars line with
  | none => simp
  | some piece => simp [and_assoc]

/-- The next line begins behind the line and a newline. -/
theorem lineStart_succ (h : line? chars line = some piece) :
    lineStart chars (line + 1) = lineStart chars line + width piece + 1 := by
  cases line with
  | zero => cases h
  | succ line =>
    have hpiece : (chars.splitOn '\n')[line]? = some piece := h
    have hnewline : width ['\n'] = 1 := rfl
    rw [lineStart, lineStart, Nat.add_sub_cancel, Nat.add_sub_cancel, List.take_add_one, hpiece,
      Option.toList_some, List.flatMap_append, List.flatMap_singleton, width_append, width_append,
      hnewline, Nat.add_assoc]

theorem lineStart_mono (h : line ≤ line') : lineStart chars line ≤ lineStart chars line' := by
  obtain ⟨count, hcount⟩ := Nat.exists_eq_add_of_le (Nat.sub_le_sub_right h 1)
  rw [lineStart, lineStart, hcount, List.take_add, List.flatMap_append, width_append]
  exact Nat.le_add_right _ _

theorem width_take_lt {count count' : Nat} (h : count < count') (hle : count' ≤ chars.length) :
    width (chars.take count) < width (chars.take count') := by
  have hsplit : chars.take count' =
      chars.take count ++ (chars.drop count).take (count' - count) := by
    rw [← List.take_add, Nat.add_sub_cancel' (Nat.le_of_lt h)]
  rw [hsplit, width_append, Nat.lt_add_right_iff_pos, Nat.pos_iff_ne_zero]
  intro hzero
  have hlength := congrArg List.length (eq_nil_of_width_eq_zero hzero)
  rw [List.length_take, List.length_drop, List.length_nil] at hlength
  omega

theorem width_take_le (chars : List Char) (count : Nat) :
    width (chars.take count) ≤ width chars := by
  conv_rhs => rw [← List.take_append_drop count chars, width_append]
  exact Nat.le_add_right _ _

/-- Of two addresses in a text, the later one has the larger offset. -/
theorem offsetAt?_lt (h : offsetAt? chars line column = some offset)
    (h' : offsetAt? chars line' column' = some offset')
    (hlt : toLex (line, column) < toLex (line', column')) : offset < offset' := by
  obtain ⟨piece, hpiece, hpos, -, rfl⟩ := offsetAt?_eq_some_iff.1 h
  obtain ⟨piece', hpiece', -, hcolumn', rfl⟩ := offsetAt?_eq_some_iff.1 h'
  obtain hline | ⟨rfl, hcolumn⟩ := Prod.Lex.toLex_lt_toLex.1 hlt
  · calc lineStart chars line + width (piece.take (column - 1))
      _ ≤ lineStart chars line + width piece := Nat.add_le_add_left (width_take_le _ _) _
      _ < lineStart chars (line + 1) := by
        rw [lineStart_succ hpiece]
        exact Nat.lt_succ_self _
      _ ≤ lineStart chars line' := lineStart_mono hline
      _ ≤ lineStart chars line' + width (piece'.take (column' - 1)) := Nat.le_add_right _ _
  · obtain rfl : piece = piece' := Option.some.inj (hpiece.symm.trans hpiece')
    dsimp only at hcolumn
    exact Nat.add_lt_add_left (width_take_lt (by omega) (by omega)) _

/-- Addresses in a text are ordered as their offsets are. -/
theorem toLex_lt_iff (h : offsetAt? chars line column = some offset)
    (h' : offsetAt? chars line' column' = some offset') :
    toLex (line, column) < toLex (line', column') ↔ offset < offset' := by
  refine ⟨offsetAt?_lt h h', fun hlt ↦ ?_⟩
  rcases lt_trichotomy (toLex (line, column)) (toLex (line', column')) with hless | heq | hmore
  · exact hless
  · cases heq
    exact absurd (Option.some.inj (h.symm.trans h')) hlt.ne
  · exact absurd (offsetAt?_lt h' h hmore) hlt.not_gt

/-- No two addresses in a text have the same offset. -/
theorem address_eq_iff (h : offsetAt? chars line column = some offset)
    (h' : offsetAt? chars line' column' = some offset') :
    (line, column) = (line', column') ↔ offset = offset' := by
  rw [← toLex_inj, le_antisymm_iff, le_antisymm_iff, ← not_lt, ← not_lt, ← not_lt, ← not_lt,
    toLex_lt_iff h h', toLex_lt_iff h' h]

end Addresses

/-! ### The address of a cut -/

namespace Cut

/-- The line of a cut, found by its number, is what stands on the two sides of the cut. -/
theorem line?_eq (cut : Cut) : line? (cut.before.reverse ++ cut.after) cut.line =
    some (cut.lineBefore.reverse ++ cut.lineAfter) :=
  cut.getElem?_splitOn

/-- A cut lies behind the beginning of its line and what of the line is in front of it. -/
theorem lineStart_add_width (cut : Cut) : lineStart (cut.before.reverse ++ cut.after) cut.line +
    width cut.lineBefore.reverse = cut.offset := by
  rw [lineStart, ← width_append, cut.take_splitOn, ← offset_eq]

/-- Line and column of a cut lead to its offset. -/
theorem offsetAt?_eq (cut : Cut) :
    offsetAt? (cut.before.reverse ++ cut.after) cut.line cut.column = some cut.offset := by
  refine offsetAt?_eq_some_iff.2 ⟨_, cut.line?_eq, Nat.succ_pos _, ?_, ?_⟩
  · rw [column, List.length_append, List.length_reverse]
    omega
  · rw [column, Nat.add_sub_cancel, ← List.length_reverse, List.take_left, cut.lineStart_add_width]

end Cut

end Text

namespace Diagnostic

/-! ### The address of a diagnostic -/

section OfAbort

variable (name text : String) (abort : Abort)

theorem toList_ofAbort : (ofAbort name text abort).cut.before.reverse ++
    (ofAbort name text abort).cut.after = text.toList :=
  Text.Cut.ofOffset_text text abort.offset

theorem offsetAt?_ofAbort : Text.offsetAt? text.toList (ofAbort name text abort).line
    (ofAbort name text abort).column = some (ofAbort name text abort).offset := by
  rw [← toList_ofAbort name text abort]
  exact Text.Cut.offsetAt?_eq _

theorem lineColumn?_ofAbort : Text.lineColumn? text.toList (ofAbort name text abort).offset =
    some ((ofAbort name text abort).line, (ofAbort name text abort).column) := by
  rw [← toList_ofAbort name text abort]
  exact Text.Cut.lineColumn?_eq _

end OfAbort

/-- **Line and column are the address of the offset.** A diagnostic lies at the last character
boundary that is neither behind the abort nor behind the text. Its line and column lead there,
and no others do; so two diagnostics in a text have the same line and column exactly if they
have the same offset, and of two that have not, the one with the larger offset has the later line
and column. Computed from the text and the offset in bytes, offset, line and column are the
same. -/
theorem line_column_address (name text : String) (abort : Abort) :
    let diagnostic := ofAbort name text abort
    IsGreatest {boundary | String.Pos.Raw.IsValid text ⟨boundary⟩ ∧
      boundary ≤ min abort.offset text.utf8ByteSize} diagnostic.offset ∧
    Text.offsetAt? text.toList diagnostic.line diagnostic.column = some diagnostic.offset ∧
    (∀ line column, Text.offsetAt? text.toList line column = some diagnostic.offset →
      (line, column) = (diagnostic.line, diagnostic.column)) ∧
    (∀ (name' : String) (abort' : Abort),
      let diagnostic' := ofAbort name' text abort'
      ((diagnostic.line, diagnostic.column) = (diagnostic'.line, diagnostic'.column) ↔
        diagnostic.offset = diagnostic'.offset) ∧
      (toLex (diagnostic.line, diagnostic.column) < toLex (diagnostic'.line, diagnostic'.column) ↔
        diagnostic.offset < diagnostic'.offset) ∧
      (abort.offset ≤ abort'.offset →
        toLex (diagnostic.line, diagnostic.column) ≤
          toLex (diagnostic'.line, diagnostic'.column))) ∧
    Text.clamp text.toList abort.offset = diagnostic.offset ∧
    Text.lineColumn? text.toList diagnostic.offset =
      some (diagnostic.line, diagnostic.column) := by
  intro diagnostic
  have haddress := offsetAt?_ofAbort name text abort
  refine ⟨Text.Cut.isGreatest_offset text abort.offset, haddress,
    fun line column h ↦ (Text.address_eq_iff h haddress).2 rfl, fun name' abort' ↦ ?_,
    Text.Cut.clamp_eq text abort.offset, lineColumn?_ofAbort name text abort⟩
  have haddress' := offsetAt?_ofAbort name' text abort'
  refine ⟨Text.address_eq_iff haddress haddress', Text.toLex_lt_iff haddress haddress',
    fun hle ↦ not_lt.1 fun hlt ↦ ?_⟩
  have hoffset := (Text.toLex_lt_iff haddress' haddress).1 hlt
  exact absurd (Text.Cut.offset_mono hle) hoffset.not_ge

end Diagnostic

end PipelineSyntax
