import Mathlib.Order.Bounds.Basic
import PipelineSyntax.Proofs.Cuts
import PipelineSyntax.Text.Slice

/-!
# Slicing a text agrees with cutting it

What is read off a text and a byte offset, by slicing at bytes and searching the slices, is what
a cut at this offset says of itself: the offset that an offset is moved to
(`Cut.clamp_eq`), line and column (`Cut.lineColumn?_eq`), and the line around it
(`Cut.sourceLine?_eq`). None of the slices on the way is out of range or ends inside a character.

Slicing at bytes is splitting into characters (`splitAt?_eq_some_iff`), so a slice is there as
soon as the text is written as three pieces of which it is the middle one (`slice?_append`).
-/

namespace PipelineSyntax

namespace Text

/-! ### Slicing -/

section Slicing

variable {chars front back : List Char} {bytes : Nat}

theorem splitAt?_width (front back : List Char) :
    splitAt? (front ++ back) (width front) = some (front, back) := by
  induction front with
  | nil => simp [splitAt?]
  | cons c front ih =>
    obtain ⟨size, hsize⟩ := Nat.exists_eq_succ_of_ne_zero c.utf8Size_pos.ne'
    have hwidth : width (c :: front) = size + width front + 1 := by
      rw [width_cons, hsize]
      omega
    have hrest : size + width front + 1 - c.utf8Size = width front := by omega
    rw [hwidth, List.cons_append, splitAt?, if_pos (by omega), hrest, ih]
    rfl

/-- A text is split at a byte exactly if it consists of two pieces with the byte between. -/
theorem splitAt?_eq_some_iff :
    splitAt? chars bytes = some (front, back) ↔ chars = front ++ back ∧ width front = bytes := by
  constructor
  · intro h
    induction chars generalizing front bytes with
    | nil =>
      cases bytes with
      | zero => cases h; exact ⟨rfl, width_nil⟩
      | succ bytes => cases h
    | cons c chars ih =>
      cases bytes with
      | zero => cases h; exact ⟨rfl, width_nil⟩
      | succ bytes =>
        rw [splitAt?] at h
        split at h
        · obtain ⟨⟨rest, back'⟩, hsplit, hpair⟩ := Option.map_eq_some_iff.1 h
          cases hpair
          obtain ⟨rfl, hwidth⟩ := ih hsplit
          refine ⟨rfl, ?_⟩
          rw [width_cons, hwidth]
          omega
        · cases h
  · rintro ⟨rfl, rfl⟩
    exact splitAt?_width front back

theorem slice?_append (front piece back : List Char) :
    slice? (front ++ piece ++ back) (width front) (width (front ++ piece)) = some piece := by
  have hle : width front ≤ width (front ++ piece) := by simp
  rw [slice?, if_pos hle, splitAt?_width]
  simp [splitAt?_width]

/-- The slice from the beginning. -/
theorem slice?_front (front back : List Char) :
    slice? (front ++ back) 0 (width front) = some front := by
  simpa using slice?_append [] front back

/-- The slice to the end. -/
theorem slice?_back (front back : List Char) :
    slice? (front ++ back) (width front) (width (front ++ back)) = some back := by
  simpa using slice?_append front back []

end Slicing

/-! ### Character boundaries -/

theorem isBoundary_iff {text : String} {offset : Nat} :
    isBoundary text.toList offset = true ↔ String.Pos.Raw.IsValid text ⟨offset⟩ := by
  rw [isBoundary, Option.isSome_iff_exists, isValid_iff_exists_front]
  constructor
  · rintro ⟨⟨front, back⟩, hsplit⟩
    obtain ⟨htext, hwidth⟩ := splitAt?_eq_some_iff.1 hsplit
    exact ⟨front, ⟨back, htext.symm⟩, hwidth⟩
  · rintro ⟨front, ⟨back, htext⟩, hwidth⟩
    exact ⟨(front, back), splitAt?_eq_some_iff.2 ⟨htext.symm, hwidth⟩⟩

/-- Going back ends at the last boundary that is not behind the offset. -/
theorem isGreatest_floorBoundary (text : String) (offset : Nat) :
    IsGreatest {boundary | String.Pos.Raw.IsValid text ⟨boundary⟩ ∧ boundary ≤ offset}
      (floorBoundary text.toList offset) := by
  induction offset with
  | zero =>
    refine ⟨⟨isBoundary_iff.1 ?_, Nat.le_refl 0⟩, fun boundary h ↦ h.2⟩
    simp [floorBoundary, isBoundary, splitAt?]
  | succ offset ih =>
    rw [floorBoundary]
    split
    case isTrue hvalid =>
      exact ⟨⟨isBoundary_iff.1 hvalid, Nat.le_refl _⟩, fun boundary h ↦ h.2⟩
    case isFalse hinvalid =>
      obtain ⟨⟨hvalid, hle⟩, hgreatest⟩ := ih
      refine ⟨⟨hvalid, by omega⟩, fun boundary ⟨hboundary, hbound⟩ ↦ ?_⟩
      have hne : boundary ≠ offset + 1 := fun heq ↦
        hinvalid (isBoundary_iff.2 (heq ▸ hboundary))
      exact hgreatest ⟨hboundary, by omega⟩

/-! ### Newlines -/

section Newlines

variable {chars front back : List Char}

theorem newline?_of_notMem (h : '\n' ∉ chars) : newline? chars = none := by
  induction chars with
  | nil => rfl
  | cons c chars ih =>
    obtain ⟨hc, hrest⟩ := not_or.1 (mt List.mem_cons.2 h)
    rw [newline?, if_neg (Ne.symm hc), ih hrest]
    rfl

theorem newline?_append (h : '\n' ∉ front) (back : List Char) :
    newline? (front ++ '\n' :: back) = some (width front) := by
  induction front with
  | nil => simp [newline?]
  | cons c front ih =>
    obtain ⟨hc, hrest⟩ := not_or.1 (mt List.mem_cons.2 h)
    rw [List.cons_append, newline?, if_neg (Ne.symm hc), ih hrest, width_cons]
    rfl

theorem lastNewline?_of_notMem (h : '\n' ∉ chars) : lastNewline? chars = none := by
  induction chars with
  | nil => rfl
  | cons c chars ih =>
    obtain ⟨hc, hrest⟩ := not_or.1 (mt List.mem_cons.2 h)
    rw [lastNewline?, ih hrest]
    exact if_neg (Ne.symm hc)

theorem lastNewline?_append (front : List Char) (h : '\n' ∉ back) :
    lastNewline? (front ++ '\n' :: back) = some (width front) := by
  induction front with
  | nil =>
    rw [List.nil_append, lastNewline?, lastNewline?_of_notMem h]
    simp
  | cons c front ih =>
    rw [List.cons_append, lastNewline?, ih, width_cons]

end Newlines

namespace Cut

variable (cut : Cut)

/-! ### What a cut says of itself -/

/-- The offset that an offset is moved to is that of the cut there. -/
theorem clamp_eq (text : String) (offset : Nat) :
    clamp text.toList offset = (ofOffset text offset).offset := by
  rw [clamp, width_toList]
  exact (isGreatest_floorBoundary text _).unique (isGreatest_offset text offset)

/-- The line of a cut begins behind the earlier lines. -/
theorem exists_earlier : ∃ earlier, cut.before.reverse = earlier ++ cut.lineBefore.reverse ∧
    lastLineStart cut.before.reverse = width earlier := by
  have hline := cut.newline_notMem_reverse_lineBefore
  rcases cut.reverse_before_cases with h | ⟨earlier, h⟩
  · refine ⟨[], h, ?_⟩
    rw [lastLineStart, h, lastNewline?_of_notMem hline]
    simp
  · refine ⟨earlier ++ ['\n'], ?_, ?_⟩
    · rw [h, List.append_assoc, List.singleton_append]
    · rw [lastLineStart, h, lastNewline?_append earlier hline, width_append]
      rfl

/-- The line of a cut ends in front of the later lines. -/
theorem exists_later : ∃ later, cut.after = cut.lineAfter ++ later ∧
    (newline? cut.after).elim (width (cut.before.reverse ++ cut.after)) (cut.offset + ·) =
      width (cut.before.reverse ++ cut.lineAfter) := by
  have hsplit : cut.lineAfter ++ cut.after.dropWhile (· ≠ '\n') = cut.after :=
    List.takeWhile_append_dropWhile
  have hhead := List.head?_dropWhile_not (· ≠ '\n') cut.after
  refine ⟨_, hsplit.symm, ?_⟩
  rcases hrest : cut.after.dropWhile (· ≠ '\n') with _ | ⟨c, rest⟩
  · rw [hrest, List.append_nil] at hsplit
    rw [newline?_of_notMem (hsplit ▸ cut.newline_notMem_lineAfter), hsplit]
    rfl
  · rw [hrest] at hhead hsplit
    obtain rfl : c = '\n' := by simpa using hhead
    have hfound := newline?_append cut.newline_notMem_lineAfter rest
    rw [hsplit] at hfound
    rw [hfound, offset_eq, width_append _ cut.lineAfter]
    rfl

/-- Counted from the byte offset of a cut, line and column are those of the cut. -/
theorem lineColumn?_eq : lineColumn? (cut.before.reverse ++ cut.after) cut.offset =
    some (cut.line, cut.column) := by
  obtain ⟨earlier, hbefore, hstart⟩ := cut.exists_earlier
  have hcurrent : slice? cut.before.reverse (lastLineStart cut.before.reverse)
      (width cut.before.reverse) = some cut.lineBefore.reverse := by
    rw [hstart, hbefore, slice?_back]
  rw [lineColumn?, offset_eq, slice?_front, Option.bind_eq_bind, Option.bind_some, hcurrent]
  simp [line, column]

/-- Searched for from the byte offset of a cut, the line around it is that of the cut. -/
theorem sourceLine?_eq : sourceLine? (cut.before.reverse ++ cut.after) cut.offset =
    some cut.lineText := by
  obtain ⟨earlier, hbefore, hstart⟩ := cut.exists_earlier
  obtain ⟨later, hafter, hstop⟩ := cut.exists_later
  have hline : slice? (cut.before.reverse ++ cut.after) (width earlier)
      (width (cut.before.reverse ++ cut.lineAfter)) =
        some (cut.lineBefore.reverse ++ cut.lineAfter) := by
    have hpiece := slice?_append earlier (cut.lineBefore.reverse ++ cut.lineAfter) later
    rwa [← List.append_assoc, ← hbefore, List.append_assoc, ← hafter] at hpiece
  have hfront : slice? (cut.before.reverse ++ cut.after) 0 cut.offset =
      some cut.before.reverse := by
    rw [offset_eq, slice?_front]
  have hback : slice? (cut.before.reverse ++ cut.after) cut.offset
      (width (cut.before.reverse ++ cut.after)) = some cut.after := by
    rw [offset_eq, slice?_back]
  simp only [sourceLine?, hfront, hback, hstart, hstop, hline, Option.bind_eq_bind,
    Option.bind_some]
  rfl

end Cut

end Text

end PipelineSyntax
