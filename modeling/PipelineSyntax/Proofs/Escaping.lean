import PipelineSyntax.Proofs.Escapes

/-!
# Escaped spellings

There are many ways to write a text between double quotes: each of its characters may stand for
itself, be named by a letter or by its code point, or be written byte by byte, and a byte may be
written in either base. `SpellsChar c chars` holds of all the ways to write `c`.

Whatever is chosen for each character, the spelling decodes to the text
(`escaped_spelling_decodes`). Each way is a row of items that stands for the bytes of the
character (`SpellsChar.reads`), so the spelling of a text stands for the bytes of the text; which
items the bytes of one character came in no longer shows.
-/

namespace PipelineSyntax

namespace Literal

namespace DoubleQuoted

/-- The characters write a byte by its value. -/
inductive SpellsByte (byte : UInt8) : List Char → Prop
  | hexadecimal {digits : List Char} (hdigits : Numeral 16 2 digits byte.toNat) :
      SpellsByte byte ('\\' :: 'x' :: digits)
  | octal {digits : List Char} (hdigits : Numeral 8 3 digits byte.toNat) :
      SpellsByte byte ('\\' :: digits)

/-- The characters are a way to write a character between double quotes. -/
inductive SpellsChar (c : Char) : List Char → Prop
  | itself (hslash : c ≠ '\\') (hquote : c ≠ '"') (hline : c ≠ '\n') : SpellsChar c [c]
  | letter {letter : Char} {byte : UInt8} (hletter : (letter, byte) ∈ letterBytes)
      (hbyte : c.toNat = byte.toNat) : SpellsChar c ['\\', letter]
  | short {digits : List Char} (hdigits : Numeral 16 4 digits c.toNat) :
      SpellsChar c ('\\' :: 'u' :: digits)
  | long {digits : List Char} (hdigits : Numeral 16 8 digits c.toNat) :
      SpellsChar c ('\\' :: 'U' :: digits)
  | bytes {spellings : List (List Char)}
      (hbytes : List.Forall₂ SpellsByte (String.utf8EncodeChar c) spellings) :
      SpellsChar c spellings.flatten

variable {c : Char} {byte : UInt8} {bytes : List UInt8} {chars : List Char}

theorem Spells.reads (h : Spells chars bytes) : Reads chars bytes := by
  simpa using Reads.next h .nil

theorem SpellsByte.reads (h : SpellsByte byte chars) : Reads chars [byte] := by
  rcases h with hdigits | hdigits
  · exact (Spells.hexadecimal hdigits).reads
  · exact (Spells.octal hdigits).reads

/-- A row of spellings stands for what the members of the row stand for. -/
theorem reads_flatten {α : Type} {spelled : α → List Char → Prop} {encode : α → List UInt8}
    {row : List α} {spellings : List (List Char)} (h : List.Forall₂ spelled row spellings)
    (hspelled : ∀ a chars, spelled a chars → Reads chars (encode a)) :
    Reads spellings.flatten (row.flatMap encode) := by
  induction h with
  | nil => exact .nil
  | cons hfirst _ ih => exact (hspelled _ _ hfirst).append ih

/-- The one-letter escapes name characters that take a single byte. -/
theorem utf8EncodeChar_of_letter {letter : Char} (hletter : (letter, byte) ∈ letterBytes)
    (hbyte : c.toNat = byte.toNat) : String.utf8EncodeChar c = [byte] := by
  have hascii : ∀ entry ∈ letterBytes, entry.2.toNat ≤ 127 := by decide
  have hle : c.val.toNat ≤ 127 := by
    show c.toNat ≤ 127
    rw [hbyte]
    exact hascii (letter, byte) hletter
  rw [String.utf8EncodeChar, if_pos hle]
  show [UInt8.ofNat c.toNat] = [byte]
  rw [hbyte, UInt8.ofNat_toNat]

/-- Every way to write a character stands for its bytes. -/
theorem SpellsChar.reads (h : SpellsChar c chars) : Reads chars (String.utf8EncodeChar c) := by
  rcases h with ⟨hslash, hquote, hline⟩ | ⟨hletter, hbyte⟩ | hdigits | hdigits |
    @⟨spellings, hbytes⟩
  · exact (Spells.plain hslash hquote hline).reads
  · rw [utf8EncodeChar_of_letter hletter hbyte]
    exact (Spells.letter hletter).reads
  · exact (Spells.codePoint (by decide) hdigits).reads
  · exact (Spells.codePoint (by decide) hdigits).reads
  · have hreads := reads_flatten hbytes fun _ _ ↦ SpellsByte.reads
    rwa [List.flatMap_singleton'] at hreads

/-- **Any escaped spelling of a text decodes back to it,** however each of its characters has been
written. -/
theorem escaped_spelling_decodes (text : String) (spellings : List (List Char))
    (h : List.Forall₂ SpellsChar text.toList spellings) :
    decode (enclose '"' spellings.flatten) = .ok text := by
  have hreads := reads_flatten h fun _ _ ↦ SpellsChar.reads
  have htext : text.toUTF8 = (text.toList.flatMap String.utf8EncodeChar).toByteArray := by
    rw [← List.utf8Encode, ← String.toByteArray_ofList, String.ofList_toList,
      String.toUTF8_eq_toByteArray]
  rw [decode_enclose_eq_ok_iff]
  exact decodeItems_eq_ok_iff.2 ⟨_, hreads, htext⟩

/-- The two bytes of one character in two bases, a digit behind them, a quote and a newline by their
letters, a character as it is, and one outside the first plane by its code point. -/
def mixedSpellings : List (List Char) :=
  ["\\xC3\\251", "7", "\\\"", "\\n", "ß", "\\U0001f600"].map String.toList

theorem escaped_spelling_decodes_mixed :
    List.Forall₂ SpellsChar "é7\"\nß😀".toList mixedSpellings ∧
      decode "\"\\xC3\\2517\\\"\\nß\\U0001f600\"" = .ok "é7\"\nß😀" := by
  have hfirst : Numeral 16 2 ['C', '3'] (0xc3 : UInt8).toNat :=
    (numeral_iff (by decide)).2 (by decide)
  have hsecond : Numeral 8 3 ['2', '5', '1'] (0xa9 : UInt8).toNat :=
    (numeral_iff (by decide)).2 (by decide)
  have hface : Numeral 16 8 ['0', '0', '0', '1', 'f', '6', '0', '0'] '😀'.toNat :=
    (numeral_iff (by decide)).2 (by decide)
  have hbytes : List.Forall₂ SpellsByte (String.utf8EncodeChar 'é')
      [['\\', 'x', 'C', '3'], ['\\', '2', '5', '1']] := by
    rw [show String.utf8EncodeChar 'é' = [0xc3, 0xa9] by decide]
    exact .cons (.hexadecimal hfirst) (.cons (.octal hsecond) .nil)
  have hseven : SpellsChar '7' ['7'] := .itself (by decide) (by decide) (by decide)
  have hquote : SpellsChar '"' ['\\', '"'] :=
    @SpellsChar.letter _ '"' 0x22 (by decide) (by decide)
  have hline : SpellsChar '\n' ['\\', 'n'] :=
    @SpellsChar.letter _ 'n' 0x0a (by decide) (by decide)
  have hsharp : SpellsChar 'ß' ['ß'] := .itself (by decide) (by decide) (by decide)
  have hspellings : List.Forall₂ SpellsChar "é7\"\nß😀".toList mixedSpellings :=
    .cons (.bytes hbytes) (.cons hseven (.cons hquote (.cons hline (.cons hsharp
      (.cons (.long hface) .nil)))))
  exact ⟨hspellings, escaped_spelling_decodes "é7\"\nß😀" mixedSpellings hspellings⟩

end DoubleQuoted

end Literal

end PipelineSyntax
