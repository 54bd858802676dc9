/-!
# Cuts in a text

A cut is a place between two characters of a text. It is kept as the characters on its two
sides, those on the left with the nearest first, so that the line a cut lies on can be
read off in both directions from where it is.

Bytes, characters and lines are three measures of one text. Here they are all functions of
a cut: the byte offset is the width of the left side, the line counts its newlines, and
the column counts the characters of the left side up to the nearest newline. Only a
newline ends a line.
-/

namespace PipelineSyntax

namespace Text

/-- A place between two characters of a text. -/
structure Cut where
  /-- The characters to the left, the nearest first. -/
  before : List Char
  /-- The characters to the right, the nearest first. -/
  after : List Char
  deriving DecidableEq, Repr

/-- The number of bytes that characters take in UTF-8. -/
def width (chars : List Char) : Nat :=
  (String.ofList chars).utf8ByteSize

@[simp]
theorem width_nil : width [] = 0 := by
  simp [width]

@[simp]
theorem width_append (left right : List Char) :
    width (left ++ right) = width left + width right := by
  simp [width, String.ofList_append]

@[simp]
theorem width_cons (c : Char) (chars : List Char) :
    width (c :: chars) = c.utf8Size + width chars := by
  rw [← List.singleton_append, width_append]
  simp [width]

namespace Cut

/-- Moves a cut to the right over as many whole characters as fit into the given number of
bytes. -/
def advance (before : List Char) : List Char → Nat → Cut
  | [], _ => ⟨before, []⟩
  | c :: after, bytes =>
    if c.utf8Size ≤ bytes then advance (c :: before) after (bytes - c.utf8Size)
    else ⟨before, c :: after⟩

/-- The cut at a byte offset. An offset inside a character counts as the boundary in front
of it, and one behind the text as the end of the text. -/
def ofOffset (text : String) (offset : Nat) : Cut :=
  advance [] text.toList offset

/-- The byte offset of the cut. -/
def offset (cut : Cut) : Nat :=
  width cut.before

/-- The number of the line that the cut lies on; lines count from one. -/
def line (cut : Cut) : Nat :=
  cut.before.count '\n' + 1

/-- The characters of the line to the left of the cut, the nearest first. -/
def lineBefore (cut : Cut) : List Char :=
  cut.before.takeWhile (· ≠ '\n')

/-- The characters of the line to the right of the cut. -/
def lineAfter (cut : Cut) : List Char :=
  cut.after.takeWhile (· ≠ '\n')

/-- The number of the column behind the cut, in characters; columns count from one. -/
def column (cut : Cut) : Nat :=
  cut.lineBefore.length + 1

/-- The line that the cut lies on, without the carriage returns at its end. -/
def lineText (cut : Cut) : List Char :=
  let line := cut.lineBefore.reverse ++ cut.lineAfter
  (line.reverse.dropWhile (· = '\r')).reverse

/-! ### A cut loses nothing -/

/-- Moving a cut keeps the text. -/
theorem advance_text (before after : List Char) (bytes : Nat) :
    (advance before after bytes).before.reverse ++ (advance before after bytes).after =
      before.reverse ++ after := by
  induction after generalizing before bytes with
  | nil => rfl
  | cons c after ih =>
    rw [advance]
    split
    · rw [ih]; simp
    · rfl

/-- The two sides of a cut make up the text it was made in. -/
theorem ofOffset_text (text : String) (offset : Nat) :
    (ofOffset text offset).before.reverse ++ (ofOffset text offset).after = text.toList :=
  advance_text [] text.toList offset

end Cut

end Text

end PipelineSyntax
