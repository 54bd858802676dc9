import PipelineSyntax.Literal.DoubleQuoted
import PipelineSyntax.Literal.SingleQuoted
import PipelineSyntax.Text.Cut

/-!
# Literals between delimiters

`enclose delimiter inner` is the literal with the given characters between two delimiters. Both
quoted kinds take their literals apart where `enclose` puts them together, the one with whatever
character comes first (`SingleQuoted.split?_eq_some_iff`), the other with a double quote
(`DoubleQuoted.inner?_eq_some_iff`).

The width of the delimiter in bytes plays no part: a literal that ends with its first character
is long enough for two of them exactly if it has two characters (`isDelimited_iff_width`).
-/

namespace PipelineSyntax

namespace Literal

/-- The characters between two delimiters, as a literal. -/
def enclose (delimiter : Char) (inner : List Char) : String :=
  String.ofList (delimiter :: (inner ++ [delimiter]))

/-- A literal of at least two characters that ends with the character it begins with. -/
def IsDelimited (raw : String) : Prop :=
  2 ≤ raw.length ∧ raw.toList.head? = raw.toList.getLast?

variable {raw : String} {delimiter : Char} {inner rest : List Char}

@[simp]
theorem toList_enclose (delimiter : Char) (inner : List Char) :
    (enclose delimiter inner).toList = delimiter :: (inner ++ [delimiter]) := by
  simp [enclose]

theorem eq_enclose_iff : raw = enclose delimiter inner ↔
    raw.toList = delimiter :: (inner ++ [delimiter]) := by
  rw [← String.toList_inj, toList_enclose]

theorem enclose_inj {inner' : List Char} :
    enclose delimiter inner = enclose delimiter inner' ↔ inner = inner' := by
  rw [eq_enclose_iff, toList_enclose]
  simp

theorem utf8ByteSize_enclose (delimiter : Char) (inner : List Char) :
    (enclose delimiter inner).utf8ByteSize = Text.width inner + 2 * delimiter.utf8Size := by
  show Text.width (delimiter :: (inner ++ [delimiter])) = _
  rw [Text.width_cons, Text.width_append, Text.width_cons, Text.width_nil]
  omega

/-- What ends with the delimiter is what stands in front of it, and the delimiter. -/
theorem eq_concat_iff :
    rest.getLast? = some delimiter ∧ rest.dropLast = inner ↔ rest = inner ++ [delimiter] := by
  constructor
  · rintro ⟨hlast, rfl⟩
    obtain ⟨inner, rfl⟩ := List.getLast?_eq_some_iff.1 hlast
    simp
  · rintro rfl
    simp

theorem SingleQuoted.split?_eq_some_iff :
    split? raw = some (delimiter, inner) ↔ raw = enclose delimiter inner := by
  rw [eq_enclose_iff, split?]
  rcases raw.toList with _ | ⟨first, rest⟩
  · simp
  · rw [List.cons.injEq, ← eq_concat_iff]
    constructor
    · intro h
      simp only [Option.ite_none_right_eq_some, Option.some.injEq, Prod.mk.injEq] at h
      obtain ⟨hlast, rfl, hinner⟩ := h
      exact ⟨rfl, hlast, hinner⟩
    · rintro ⟨rfl, hlast, hinner⟩
      simp [hlast, hinner]

theorem DoubleQuoted.inner?_eq_some_iff :
    inner? raw = some inner ↔ raw = enclose '"' inner := by
  rw [eq_enclose_iff, inner?]
  split
  · rename_i rest heq
    rw [heq, List.cons.injEq, ← eq_concat_iff]
    simp
  · rename_i hopening
    simp only [reduceCtorEq, false_iff]
    exact hopening _

theorem isDelimited_iff : IsDelimited raw ↔ ∃ delimiter inner, raw = enclose delimiter inner := by
  simp only [eq_enclose_iff, IsDelimited, ← String.length_toList]
  rcases raw.toList with _ | ⟨delimiter, rest⟩
  · simp
  · rcases List.eq_nil_or_concat rest with rfl | ⟨inner, last, rfl⟩
    · simp
    · simp [List.getLast?_cons, eq_comm]

/-- To ask for two characters is to ask for the bytes of two delimiters. -/
theorem isDelimited_iff_width :
    IsDelimited raw ↔ ∃ delimiter, raw.toList.head? = some delimiter ∧
      raw.toList.getLast? = some delimiter ∧ 2 * delimiter.utf8Size ≤ raw.utf8ByteSize := by
  have hwidth : raw.utf8ByteSize = Text.width raw.toList := by
    rw [Text.width, String.ofList_toList]
  simp only [IsDelimited, ← String.length_toList, hwidth]
  rcases raw.toList with _ | ⟨delimiter, rest⟩
  · simp
  · rcases List.eq_nil_or_concat rest with rfl | ⟨inner, last, rfl⟩
    · -- one character would have to be as wide as two of it
      have hpos := delimiter.utf8Size_pos
      simp only [List.length_cons, List.length_nil, List.head?_cons, List.getLast?_singleton,
        Option.some.injEq, Text.width_cons, Text.width_nil]
      constructor
      · rintro ⟨hlength, -⟩
        omega
      · rintro ⟨_, rfl, -, hle⟩
        omega
    · suffices h : delimiter = last ↔ last = delimiter ∧
          2 * delimiter.utf8Size ≤ delimiter.utf8Size + (Text.width inner + last.utf8Size) by
        simpa [List.getLast?_cons] using h
      constructor
      · rintro rfl
        exact ⟨rfl, by omega⟩
      · rintro ⟨rfl, -⟩
        rfl

end Literal

end PipelineSyntax
