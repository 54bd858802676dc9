import PipelineSyntax.Text.Cut

/-!
# Slices of a text

What a cut says of its line can also be read off a byte offset and the text alone, by slicing
the text at bytes and by searching the slices for a newline. A slice is a piece between two
bytes, both of which have to lie between two characters; for any others, or in the wrong order,
there is none, and whoever asks for it has made a mistake.

Every limit below is searched for on its own: where the line begins by the last newline in
front of the offset, where it ends by the first one behind it, and how many lines there are by
counting.
-/

namespace PipelineSyntax

namespace Text

/-! ### Slicing -/

/-- The characters on the two sides of a byte offset. There are none unless it lies between two
characters, or at one of the ends. -/
def splitAt? : List Char → Nat → Option (List Char × List Char)
  | chars, 0 => some ([], chars)
  | [], _ + 1 => none
  | c :: chars, bytes + 1 =>
    if c.utf8Size ≤ bytes + 1 then
      (splitAt? chars (bytes + 1 - c.utf8Size)).map fun (front, back) ↦ (c :: front, back)
    else none

/-- Whether a byte offset is a character boundary. -/
def isBoundary (chars : List Char) (offset : Nat) : Bool :=
  (splitAt? chars offset).isSome

/-- The characters between two bytes. -/
def slice? (chars : List Char) (start stop : Nat) : Option (List Char) :=
  if start ≤ stop then do
    let (front, _) ← splitAt? chars stop
    let (_, piece) ← splitAt? front start
    return piece
  else none

/-- Goes back from a byte offset to the nearest character boundary. -/
def floorBoundary (chars : List Char) : Nat → Nat
  | 0 => 0
  | offset + 1 => if isBoundary chars (offset + 1) then offset + 1 else floorBoundary chars offset

/-- Moves a byte offset into the text and onto a character boundary. -/
def clamp (chars : List Char) (offset : Nat) : Nat :=
  floorBoundary chars (min offset (width chars))

/-! ### Searching -/

/-- The byte offset of the first newline. -/
def newline? : List Char → Option Nat
  | [] => none
  | c :: chars => if c = '\n' then some 0 else (newline? chars).map (c.utf8Size + ·)

/-- The byte offset of the last newline. -/
def lastNewline? : List Char → Option Nat
  | [] => none
  | c :: chars =>
    match lastNewline? chars with
    | some offset => some (c.utf8Size + offset)
    | none => if c = '\n' then some 0 else none

/-- Where the last line begins: behind the last newline, or with the text. -/
def lastLineStart (chars : List Char) : Nat :=
  (lastNewline? chars).elim 0 (· + 1)

/-! ### Lines and columns -/

/-- The line and the column of a byte offset, counted from one. -/
def lineColumn? (chars : List Char) (offset : Nat) : Option (Nat × Nat) := do
  let before ← slice? chars 0 offset
  let current ← slice? before (lastLineStart before) (width before)
  return (before.count '\n' + 1, current.length + 1)

/-- The line around a byte offset, without the carriage returns at its end. -/
def sourceLine? (chars : List Char) (offset : Nat) : Option (List Char) := do
  let before ← slice? chars 0 offset
  let after ← slice? chars offset (width chars)
  let stop := (newline? after).elim (width chars) (offset + ·)
  let line ← slice? chars (lastLineStart before) stop
  return (line.reverse.dropWhile (· = '\r')).reverse

end Text

end PipelineSyntax
