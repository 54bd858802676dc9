import Mathlib.Data.List.TakeWhile
import Mathlib.Order.Bounds.Defs
import PipelineSyntax.Text.Cut

/-!
# Cuts by bytes and by lines

A cut is told by its byte offset: of two cuts in one text, the one with the smaller offset has
less in front of it (`prefix_of_width_le`), and cutting at an offset gives the last cut that is
not behind it (`Cut.isGreatest_offset`).

A cut is told by line and column just as well. Splitting the text at its newlines gives the
line that the cut lies on at the number of that line, and what the column counts is what of this
line is in front of the cut (`Cut.getElem?_splitOn`, `Cut.take_splitOn`).
-/

namespace PipelineSyntax

namespace Text

/-! ### Widths -/

theorem width_toList (text : String) : width text.toList = text.utf8ByteSize := by
  rw [width, String.ofList_toList]

theorem width_reverse (chars : List Char) : width chars.reverse = width chars := by
  induction chars with
  | nil => rfl
  | cons c chars ih => simp [ih, Nat.add_comm]

theorem eq_nil_of_width_eq_zero {chars : List Char} (h : width chars = 0) : chars = [] := by
  rcases chars with _ | ⟨c, chars⟩
  · rfl
  · have hpos := c.utf8Size_pos
    rw [width_cons] at h
    omega

theorem length_le_width (chars : List Char) : chars.length ≤ width chars := by
  induction chars with
  | nil => exact Nat.zero_le _
  | cons c chars ih =>
    have hpos := c.utf8Size_pos
    rw [List.length_cons, width_cons]
    omega

/-- Dropping characters widens nothing. -/
theorem width_le_of_sublist {chars chars' : List Char} (h : chars.Sublist chars') :
    width chars ≤ width chars' := by
  induction h with
  | slnil => exact Nat.le_refl _
  | cons c _ ih =>
    rw [width_cons]
    omega
  | cons_cons c _ ih =>
    rw [width_cons, width_cons]
    omega

/-- Of two pieces that a text begins with, the one that takes fewer bytes begins the other. -/
theorem prefix_of_width_le {front front' text : List Char} (h : front <+: text)
    (h' : front' <+: text) (hle : width front ≤ width front') : front <+: front' := by
  rcases List.prefix_or_prefix_of_prefix h h' with hpre | ⟨rest, rfl⟩
  · exact hpre
  · rw [width_append] at hle
    obtain rfl := eq_nil_of_width_eq_zero (by omega : width rest = 0)
    simp

/-- A character boundary is where a piece ends that the text begins with. -/
theorem isValid_iff_exists_front {text : String} {offset : Nat} :
    String.Pos.Raw.IsValid text ⟨offset⟩ ↔
      ∃ front, front <+: text.toList ∧ width front = offset := by
  rw [String.Pos.Raw.isValid_iff_exists_append]
  constructor
  · rintro ⟨before, after, rfl, hoffset⟩
    refine ⟨before.toList, ⟨after.toList, String.toList_append.symm⟩, ?_⟩
    rw [width_toList]
    exact (congrArg String.Pos.Raw.byteIdx hoffset).symm
  · rintro ⟨front, ⟨back, hback⟩, rfl⟩
    refine ⟨String.ofList front, String.ofList back, ?_, rfl⟩
    rw [← String.ofList_append, hback, String.ofList_toList]

/-! ### Splitting at newlines -/

theorem length_splitOn (chars : List Char) :
    (chars.splitOn '\n').length = chars.count '\n' + 1 := by
  induction chars with
  | nil => rfl
  | cons c chars ih =>
    rw [List.splitOn_cons_eq_if_modifyHead, List.count_cons]
    split <;> simp [ih]

/-- The first piece is what stands in front of the first newline. -/
theorem head?_splitOn (chars : List Char) :
    (chars.splitOn '\n').head? = some (chars.takeWhile (· ≠ '\n')) := by
  induction chars with
  | nil => rfl
  | cons c chars ih =>
    rw [List.splitOn_cons_eq_if_modifyHead]
    by_cases hc : c = '\n'
    · simp [hc]
    · simp [hc, ih]

/-- The pieces with a newline behind each are the text with one behind it. -/
theorem flatMap_splitOn (chars : List Char) :
    (chars.splitOn '\n').flatMap (· ++ ['\n']) = chars ++ ['\n'] := by
  induction chars with
  | nil => rfl
  | cons c chars ih =>
    rw [List.splitOn_cons_eq_if_modifyHead]
    obtain ⟨first, rest, hpieces⟩ := List.exists_cons_of_ne_nil (List.splitOn_ne_nil '\n' chars)
    rw [hpieces] at ih ⊢
    by_cases hc : c = '\n'
    · simp [hc, ← ih]
    · simpa [hc] using ih

namespace Cut

/-! ### Cutting at an offset -/

theorem advance_append (before front after : List Char) :
    advance before (front ++ after) (width front) = ⟨front.reverse ++ before, after⟩ := by
  induction front generalizing before with
  | nil =>
    cases after with
    | nil => rfl
    | cons c after => simp [advance, c.utf8Size_pos.ne']
  | cons c front ih => simp [advance, ih]

/-- A text is cut between two texts of which it consists. -/
theorem ofOffset_append (before after : String) :
    ofOffset (before ++ after) before.utf8ByteSize = ⟨before.toList.reverse, after.toList⟩ := by
  rw [ofOffset, String.toList_append, ← width_toList, advance_append, List.append_nil]

/-- A cut that is moved goes over whole characters, as many as fit. -/
theorem advance_fits (before after : List Char) (bytes : Nat) :
    ∃ front, (advance before after bytes).before = front.reverse ++ before ∧
      after = front ++ (advance before after bytes).after ∧ width front ≤ bytes ∧
      ∀ c rest, (advance before after bytes).after = c :: rest →
        bytes < width front + c.utf8Size := by
  induction after generalizing before bytes with
  | nil => exact ⟨[], rfl, rfl, by simp, fun c rest h ↦ nomatch h⟩
  | cons c after ih =>
    rw [advance]
    split
    · obtain ⟨front, hbefore, hafter, hle, hnext⟩ := ih (c :: before) (bytes - c.utf8Size)
      refine ⟨c :: front, by simp [hbefore], congrArg _ hafter, ?_, fun d rest hrest ↦ ?_⟩
      · rw [width_cons]
        omega
      · have hlt := hnext d rest hrest
        rw [width_cons]
        omega
    · exact ⟨[], rfl, rfl, by simp, fun d rest h ↦ by cases h; simp; omega⟩

section Offset

variable {text : String} {offset offset' : Nat}

theorem offset_eq (cut : Cut) : cut.offset = width cut.before.reverse :=
  (width_reverse cut.before).symm

/-- Cutting at an offset gives the last character boundary that is not behind it. -/
theorem isGreatest_offset (text : String) (offset : Nat) :
    IsGreatest {boundary | String.Pos.Raw.IsValid text ⟨boundary⟩ ∧
      boundary ≤ min offset text.utf8ByteSize} (ofOffset text offset).offset := by
  obtain ⟨front, hbefore, hafter, hle, hnext⟩ := advance_fits [] text.toList offset
  have hfront : (ofOffset text offset).offset = width front := by
    rw [offset_eq, ofOffset, hbefore, List.append_nil, List.reverse_reverse]
  have hpre : front <+: text.toList := ⟨_, hafter.symm⟩
  rw [hfront]
  constructor
  · refine ⟨isValid_iff_exists_front.2 ⟨front, hpre, rfl⟩, Nat.le_min.2 ⟨hle, ?_⟩⟩
    rw [← width_toList, hafter, width_append]
    exact Nat.le_add_right _ _
  · rintro boundary ⟨hvalid, hmin⟩
    obtain ⟨other, hother, rfl⟩ := isValid_iff_exists_front.1 hvalid
    by_contra hlt
    -- otherwise one more character would fit
    obtain ⟨more, rfl⟩ := prefix_of_width_le hpre hother (by omega)
    rw [hafter, List.prefix_append_right_inj] at hother
    obtain ⟨rest, hrest⟩ := hother
    rcases more with _ | ⟨c, more⟩
    · simp at hlt
    · have hbound := hnext c (more ++ rest) hrest.symm
      simp only [width_append, width_cons] at hmin
      omega

theorem offset_mono (h : offset ≤ offset') :
    (ofOffset text offset).offset ≤ (ofOffset text offset').offset := by
  obtain ⟨hvalid, hle⟩ := (isGreatest_offset text offset).1
  exact (isGreatest_offset text offset').2 ⟨hvalid, by omega⟩

end Offset

/-! ### The line of a cut -/

variable (cut : Cut)

theorem newline_notMem_lineBefore : '\n' ∉ cut.lineBefore := by
  intro hmem
  have hchar := List.mem_takeWhile_imp hmem
  simp at hchar

theorem newline_notMem_reverse_lineBefore : '\n' ∉ cut.lineBefore.reverse :=
  mt List.mem_reverse.1 cut.newline_notMem_lineBefore

theorem newline_notMem_lineAfter : '\n' ∉ cut.lineAfter := by
  intro hmem
  have hchar := List.mem_takeWhile_imp hmem
  simp at hchar

/-- In front of its line there is nothing, or a newline. -/
theorem reverse_before_cases : cut.before.reverse = cut.lineBefore.reverse ∨
    ∃ earlier, cut.before.reverse = earlier ++ '\n' :: cut.lineBefore.reverse := by
  have hsplit : cut.lineBefore ++ cut.before.dropWhile (· ≠ '\n') = cut.before :=
    List.takeWhile_append_dropWhile
  have hhead := List.head?_dropWhile_not (· ≠ '\n') cut.before
  rcases hrest : cut.before.dropWhile (· ≠ '\n') with _ | ⟨c, rest⟩
  · rw [hrest, List.append_nil] at hsplit
    exact .inl (congrArg List.reverse hsplit.symm)
  · rw [hrest] at hhead hsplit
    obtain rfl : c = '\n' := by simpa using hhead
    exact .inr ⟨rest.reverse, by rw [← hsplit]; simp⟩

/-- The line to the left of a cut is what stands behind the last newline. -/
theorem exists_lines : ∃ lines current, cut.before.reverse = lines ++ current ∧
    '\n' ∉ current ∧ (lines = [] ∨ lines.getLast? = some '\n') ∧
    cut.column = current.length + 1 := by
  have hcurrent := cut.newline_notMem_reverse_lineBefore
  have hcolumn : cut.column = cut.lineBefore.reverse.length + 1 := by
    rw [column, List.length_reverse]
  rcases cut.reverse_before_cases with hbefore | ⟨earlier, hbefore⟩
  · exact ⟨[], _, hbefore, hcurrent, .inl rfl, hcolumn⟩
  · refine ⟨earlier ++ ['\n'], _, ?_, hcurrent, .inr (by simp), hcolumn⟩
    rw [hbefore, List.append_assoc, List.singleton_append]

theorem line_of_first (h : cut.before.reverse = cut.lineBefore.reverse) : cut.line = 1 := by
  rw [line, List.reverse_inj.1 h, List.count_eq_zero.2 cut.newline_notMem_lineBefore]

section Later

variable {cut} {earlier : List Char}
  (h : cut.before.reverse = earlier ++ '\n' :: cut.lineBefore.reverse)

include h

theorem line_of_later : cut.line = (earlier.splitOn '\n').length + 1 := by
  have hline := List.count_eq_zero.2 cut.newline_notMem_reverse_lineBefore
  rw [line, ← List.count_reverse, h, List.count_append, List.count_cons_self, hline, length_splitOn]

theorem splitOn_of_later : (cut.before.reverse ++ cut.after).splitOn '\n' =
    earlier.splitOn '\n' ++ (cut.lineBefore.reverse ++ cut.after).splitOn '\n' := by
  rw [h, List.append_assoc, List.cons_append, List.splitOn_append_cons_self]

end Later

/-- From the line of the cut on, the first piece of the text is that line. -/
theorem head?_splitOn_line :
    ((cut.lineBefore.reverse ++ cut.after).splitOn '\n').head? =
      some (cut.lineBefore.reverse ++ cut.lineAfter) := by
  have hline : ∀ c ∈ cut.lineBefore.reverse, decide (c ≠ '\n') = true := by
    intro c hmem
    exact decide_eq_true fun hc ↦ cut.newline_notMem_reverse_lineBefore (hc ▸ hmem)
  rw [head?_splitOn, List.takeWhile_append_of_pos hline]
  rfl

/-- At the number of its line, splitting the text at its newlines gives the line of the cut. -/
theorem getElem?_splitOn :
    ((cut.before.reverse ++ cut.after).splitOn '\n')[cut.line - 1]? =
      some (cut.lineBefore.reverse ++ cut.lineAfter) := by
  rw [← cut.head?_splitOn_line, List.head?_eq_getElem?]
  rcases cut.reverse_before_cases with h | ⟨earlier, h⟩
  · rw [cut.line_of_first h, h]
  · rw [line_of_later h, splitOn_of_later h, Nat.add_sub_cancel,
      List.getElem?_append_right (Nat.le_refl _), Nat.sub_self]

/-- The earlier lines, and the line as far as the cut, are what stands in front of the cut. -/
theorem take_splitOn :
    (((cut.before.reverse ++ cut.after).splitOn '\n').take (cut.line - 1)).flatMap (· ++ ['\n']) ++
      cut.lineBefore.reverse = cut.before.reverse := by
  rcases cut.reverse_before_cases with h | ⟨earlier, h⟩
  · rw [cut.line_of_first h, h]
    rfl
  · rw [line_of_later h, splitOn_of_later h, Nat.add_sub_cancel, List.take_left, flatMap_splitOn, h,
      List.append_assoc, List.singleton_append]

end Cut

end Text

end PipelineSyntax
