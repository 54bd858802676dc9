import PipelineSyntax.Proofs.Delimiters
import PipelineSyntax.Proofs.Numerals

/-!
# The items of double-quoted literals

Which items a double-quoted literal may hold, and what is wrong where none begins, said without
the reader. `Spells chars bytes` relates the characters of one item to the bytes it stands for,
and `Reads` a row of items to all their bytes; `Misfit chars reason` says of a text that no item
begins it, and why.

The reader follows both, item by item (`readItems_append`, `readItems_of_misfit`), and there is no
third case (`reads_or_misfits`). So what it gives and what it refuses can be read off the
relations: the fault is the leftmost one, because all that stands in front of it reads.
-/

namespace PipelineSyntax

namespace Literal

namespace DoubleQuoted

/-! ### Items -/

/-- The one-letter escapes, and the byte that each of them stands for. -/
def letterBytes : List (Char × UInt8) :=
  [('a', 0x07), ('b', 0x08), ('f', 0x0c), ('n', 0x0a), ('r', 0x0d), ('t', 0x09), ('v', 0x0b),
    ('\\', 0x5c), ('"', 0x22)]

/-- The letters of the escapes that name a code point, and how many digits follow them. -/
def codePointDigits : List (Char × Nat) :=
  [('u', 4), ('U', 8)]

/-- The characters are one item, and stand for the bytes. -/
inductive Spells : List Char → List UInt8 → Prop
  | plain {c : Char} (hslash : c ≠ '\\') (hquote : c ≠ '"') (hline : c ≠ '\n') :
      Spells [c] (String.utf8EncodeChar c)
  | letter {letter : Char} {byte : UInt8} (hletter : (letter, byte) ∈ letterBytes) :
      Spells ['\\', letter] [byte]
  | hexadecimal {digits : List Char} {byte : UInt8} (hdigits : Numeral 16 2 digits byte.toNat) :
      Spells ('\\' :: 'x' :: digits) [byte]
  | octal {digits : List Char} {byte : UInt8} (hdigits : Numeral 8 3 digits byte.toNat) :
      Spells ('\\' :: digits) [byte]
  | codePoint {letter c : Char} {count : Nat} {digits : List Char}
      (hletter : (letter, count) ∈ codePointDigits) (hdigits : Numeral 16 count digits c.toNat) :
      Spells ('\\' :: letter :: digits) (String.utf8EncodeChar c)

/-- The characters are items one behind the other, and stand for the bytes. -/
inductive Reads : List Char → List UInt8 → Prop
  | nil : Reads [] []
  | next {item rest : List Char} {bytes more : List UInt8} (hitem : Spells item bytes)
      (hrest : Reads rest more) : Reads (item ++ rest) (bytes ++ more)

/-- The text is not empty and does not begin with an item, for the given reason. -/
inductive Misfit : List Char → Reason → Prop
  | unescaped {c : Char} {rest : List Char} (hc : c = '"' ∨ c = '\n') :
      Misfit (c :: rest) (.unescaped c)
  | unended : Misfit ['\\'] .truncatedEscape
  | unknown {letter : Char} {rest : List Char} (hletter : ∀ byte, (letter, byte) ∉ letterBytes)
      (hx : letter ≠ 'x') (hcodePoint : ∀ count, (letter, count) ∉ codePointDigits)
      (hoctal : ∀ value, ¬ IsDigit 8 letter value) :
      Misfit ('\\' :: letter :: rest) (.unknownEscape letter)
  | hexadecimal {rest : List Char} (hlacks : LacksNumeral 16 2 rest) :
      Misfit ('\\' :: 'x' :: rest) .truncatedEscape
  | octal {first : Char} {value : Nat} {rest : List Char} (hfirst : IsDigit 8 first value)
      (hlacks : LacksNumeral 8 3 (first :: rest)) :
      Misfit ('\\' :: first :: rest) .truncatedEscape
  | outOfRange {digits rest : List Char} {value : Nat} (hdigits : Numeral 8 3 digits value)
      (hlt : 255 < value) : Misfit ('\\' :: (digits ++ rest)) (.octalOutOfRange value)
  | codePoint {letter : Char} {count : Nat} {rest : List Char}
      (hletter : (letter, count) ∈ codePointDigits) (hlacks : LacksNumeral 16 count rest) :
      Misfit ('\\' :: letter :: rest) .truncatedEscape
  | invalid {letter : Char} {count value : Nat} {digits rest : List Char}
      (hletter : (letter, count) ∈ codePointDigits) (hdigits : Numeral 16 count digits value)
      (hvalue : ∀ c : Char, c.toNat ≠ value) :
      Misfit ('\\' :: letter :: (digits ++ rest)) (.invalidCodePoint value)

/-! ### A text reads, or an item is missing -/

section Texts

variable {chars front back : List Char} {bytes more : List UInt8}

theorem Spells.ne_nil (h : Spells chars bytes) : chars ≠ [] := by
  rintro rfl
  cases h

theorem spells_or_misfit (h : chars ≠ []) :
    (∃ item rest bytes, chars = item ++ rest ∧ Spells item bytes) ∨
      ∃ reason, Misfit chars reason := by
  rcases chars with _ | ⟨c, rest⟩
  · exact absurd rfl h
  by_cases hslash : c = '\\'
  · subst hslash
    rcases rest with _ | ⟨letter, rest⟩
    · exact .inr ⟨_, .unended⟩
    by_cases hletter : ∃ byte, (letter, byte) ∈ letterBytes
    · obtain ⟨byte, hletter⟩ := hletter
      exact .inl ⟨['\\', letter], rest, _, rfl, .letter hletter⟩
    by_cases hx : letter = 'x'
    · subst hx
      rcases numeral_or_lacksNumeral 16 2 rest with ⟨digits, rest, value, rfl, hdigits⟩ | hlacks
      · have hbyte : (UInt8.ofNat value).toNat = value :=
          UInt8.toNat_ofNat_of_lt' (hdigits.lt (by decide))
        exact .inl ⟨'\\' :: 'x' :: digits, rest, _, rfl, .hexadecimal (hbyte ▸ hdigits)⟩
      · exact .inr ⟨_, .hexadecimal hlacks⟩
    by_cases hcodePoint : ∃ count, (letter, count) ∈ codePointDigits
    · obtain ⟨count, hletter⟩ := hcodePoint
      rcases numeral_or_lacksNumeral 16 count rest with
        ⟨digits, rest, value, rfl, hdigits⟩ | hlacks
      · by_cases hvalue : ∃ c : Char, c.toNat = value
        · obtain ⟨c, rfl⟩ := hvalue
          exact .inl ⟨'\\' :: letter :: digits, rest, _, rfl, .codePoint hletter hdigits⟩
        · exact .inr ⟨_, .invalid hletter hdigits fun c heq ↦ hvalue ⟨c, heq⟩⟩
      · exact .inr ⟨_, .codePoint hletter hlacks⟩
    by_cases hoctal : ∃ value, IsDigit 8 letter value
    · obtain ⟨first, hfirst⟩ := hoctal
      rcases numeral_or_lacksNumeral 8 3 (letter :: rest) with
        ⟨digits, back, value, hchars, hdigits⟩ | hlacks
      · rw [hchars]
        by_cases hvalue : 255 < value
        · exact .inr ⟨_, .outOfRange hdigits hvalue⟩
        · have hbyte : (UInt8.ofNat value).toNat = value :=
            UInt8.toNat_ofNat_of_lt' (show value < 256 by omega)
          exact .inl ⟨'\\' :: digits, back, _, rfl, .octal (hbyte ▸ hdigits)⟩
      · exact .inr ⟨_, .octal hfirst hlacks⟩
    · exact .inr ⟨_, .unknown (not_exists.1 hletter) hx (not_exists.1 hcodePoint)
        (not_exists.1 hoctal)⟩
  · by_cases hc : c = '"' ∨ c = '\n'
    · exact .inr ⟨_, .unescaped hc⟩
    · obtain ⟨hquote, hline⟩ := not_or.1 hc
      exact .inl ⟨[c], rest, _, rfl, .plain hslash hquote hline⟩

/-- Every text is made of items, or of items up to a place where none begins. -/
theorem reads_or_misfits (chars : List Char) :
    (∃ bytes, Reads chars bytes) ∨
      ∃ front back bytes reason, chars = front ++ back ∧ Reads front bytes ∧
        Misfit back reason := by
  induction hlength : chars.length using Nat.strong_induction_on generalizing chars with
  | h length ih =>
    by_cases hnil : chars = []
    · subst hnil
      exact .inl ⟨_, .nil⟩
    rcases spells_or_misfit hnil with ⟨item, rest, bytes, rfl, hitem⟩ | ⟨reason, hmisfit⟩
    · have hlt : rest.length < length := by
        have hpos := List.length_pos_of_ne_nil hitem.ne_nil
        rw [List.length_append] at hlength
        omega
      rcases ih _ hlt rest rfl with ⟨more, hrest⟩ | ⟨front, back, more, reason, rfl, hfront, hback⟩
      · exact .inl ⟨_, .next hitem hrest⟩
      · exact .inr ⟨item ++ front, back, _, reason, (List.append_assoc ..).symm,
          .next hitem hfront, hback⟩
    · exact .inr ⟨[], chars, [], reason, rfl, .nil, hmisfit⟩

theorem Reads.append (hfront : Reads front bytes) (hback : Reads back more) :
    Reads (front ++ back) (bytes ++ more) := by
  induction hfront with
  | nil => exact hback
  | next hitem _ ih =>
    rw [List.append_assoc, List.append_assoc]
    exact .next hitem ih

end Texts

/-! ### The reader follows the items -/

section Reader

variable {letter : Char} {byte : UInt8} {count value : Nat} {chars item rest : List Char}
  {bytes : List UInt8} {out : ByteArray} {read : Item} {reason : Reason}

theorem readItems_escape (h : readEscape chars = .ok (read, rest)) :
    readItems out ('\\' :: chars) = readItems (out ++ read.bytes) rest := by
  rw [readItems, if_pos rfl]
  split <;> simp_all

theorem readItems_escape_error (h : readEscape chars = .error reason) :
    readItems out ('\\' :: chars) = .error reason := by
  rw [readItems, if_pos rfl]
  split <;> simp_all

theorem bytes_char (c : Char) : (Item.char c).bytes = (String.utf8EncodeChar c).toByteArray := by
  rw [Item.bytes, String.toByteArray_singleton, List.utf8Encode_singleton]

/-- The letters that name a character name one of a single byte. -/
theorem mem_letterBytes_iff : (letter, byte) ∈ letterBytes ↔
    ∃ named, namedChar? letter = some named ∧ String.utf8EncodeChar named = [byte] := by
  constructor
  · intro h
    simp only [letterBytes, List.mem_cons, List.not_mem_nil, Prod.mk.injEq, or_false] at h
    rcases h with ⟨rfl, rfl⟩ | ⟨rfl, rfl⟩ | ⟨rfl, rfl⟩ | ⟨rfl, rfl⟩ | ⟨rfl, rfl⟩ | ⟨rfl, rfl⟩ |
      ⟨rfl, rfl⟩ | ⟨rfl, rfl⟩ | ⟨rfl, rfl⟩ <;> exact ⟨_, rfl, by decide⟩
  · rintro ⟨named, hnamed, hbyte⟩
    unfold namedChar? at hnamed
    split at hnamed <;> cases hnamed <;> cases hbyte <;> decide

theorem exists_byte_of_namedChar? {named : Char} (h : namedChar? letter = some named) :
    ∃ byte, String.utf8EncodeChar named = [byte] := by
  unfold namedChar? at h
  split at h <;> cases h <;> exact ⟨_, rfl⟩

/-- An octal digit is none of the letters that begin another escape. -/
theorem not_letter_of_isDigit {first : Char} (h : IsDigit 8 first value) :
    namedChar? first = none ∧ first ≠ 'x' ∧ first ≠ 'u' ∧ first ≠ 'U' := by
  obtain ⟨hlt, hfirst⟩ := h
  have hdigits : ∀ v < 8, ∀ c, c = Nat.digitChar v ∨ c = (Nat.digitChar v).toUpper →
      namedChar? c = none ∧ c ≠ 'x' ∧ c ≠ 'u' ∧ c ≠ 'U' := by
    simp only [forall_eq_or_imp, forall_eq]
    decide
  exact hdigits value hlt first hfirst

theorem readEscape_letter (h : (letter, byte) ∈ letterBytes) :
    ∃ read, readEscape (letter :: rest) = .ok (read, rest) ∧ read.bytes = [byte].toByteArray := by
  obtain ⟨named, hnamed, hbyte⟩ := mem_letterBytes_iff.1 h
  refine ⟨.char named, ?_, by rw [bytes_char, hbyte]⟩
  rw [readEscape, hnamed]

theorem readEscape_x : readEscape ('x' :: rest) = readNumeric 16 2 byteItem rest := by
  rw [readEscape, show namedChar? 'x' = none by decide]
  rfl

theorem readEscape_codePoint (h : (letter, count) ∈ codePointDigits) :
    readEscape (letter :: rest) = readNumeric 16 count codePointItem rest := by
  obtain ⟨rfl, rfl⟩ | ⟨rfl, rfl⟩ : letter = 'u' ∧ count = 4 ∨ letter = 'U' ∧ count = 8 := by
    simpa [codePointDigits] using h
  · rw [readEscape, show namedChar? 'u' = none by decide]
    rfl
  · rw [readEscape, show namedChar? 'U' = none by decide]
    rfl

theorem readEscape_octal {first : Char} (h : IsDigit 8 first value) :
    readEscape (first :: rest) = readNumeric 8 3 byteItem (first :: rest) := by
  obtain ⟨hnamed, hx, hu, hU⟩ := not_letter_of_isDigit h
  have hdigit := (digitValue?_eq_some_iff (by decide)).2 h
  rw [readEscape, hnamed]
  simp only [hx, hu, hU, hdigit, if_false, Option.isSome_some, if_true]

theorem readEscape_unknown (hletter : ∀ byte, (letter, byte) ∉ letterBytes) (hx : letter ≠ 'x')
    (hcodePoint : ∀ count, (letter, count) ∉ codePointDigits)
    (hoctal : ∀ value, ¬ IsDigit 8 letter value) :
    readEscape (letter :: rest) = .error (.unknownEscape letter) := by
  have hnamed : namedChar? letter = none := by
    rw [Option.eq_none_iff_forall_ne_some]
    intro named hnamed
    obtain ⟨byte, hbyte⟩ := exists_byte_of_namedChar? hnamed
    exact hletter byte (mem_letterBytes_iff.2 ⟨named, hnamed, hbyte⟩)
  have hu : letter ≠ 'u' := by
    rintro rfl
    exact hcodePoint 4 (by decide)
  have hU : letter ≠ 'U' := by
    rintro rfl
    exact hcodePoint 8 (by decide)
  have hdigit : digitValue? 8 letter = none := by
    rw [Option.eq_none_iff_forall_ne_some]
    exact fun value heq ↦ hoctal value ((digitValue?_eq_some_iff (by decide)).1 heq)
  rw [readEscape, hnamed]
  simp [hx, hu, hU, hdigit]

theorem byteItem_toNat (byte : UInt8) : byteItem byte.toNat = .ok (.byte byte) := by
  rw [byteItem, if_pos byte.toNat_lt, UInt8.ofNat_toNat]

theorem codePointItem_toNat (c : Char) : codePointItem c.toNat = .ok (.char c) := by
  have hvalid : c.toNat.isValidChar := c.valid
  rw [codePointItem, if_pos hvalid, Char.ofNat_toNat]

theorem codePointItem_of_invalid (h : ∀ c : Char, c.toNat ≠ value) :
    codePointItem value = .error (.invalidCodePoint value) := by
  refine if_neg fun hvalid ↦ h (Char.ofNatAux value hvalid) ?_
  rfl

/-- An item is read as the bytes it stands for. -/
theorem readItems_item (h : Spells item bytes) :
    readItems out (item ++ rest) = readItems (out ++ bytes.toByteArray) rest := by
  rcases h with ⟨hslash, hquote, hline⟩ | hletter | @⟨digits, byte, hdigits⟩ |
    @⟨digits, byte, hdigits⟩ | @⟨letter, c, count, digits, hletter, hdigits⟩
  · rw [List.singleton_append, readItems, if_neg hslash, if_neg (not_or.2 ⟨hquote, hline⟩),
      bytes_char]
  · obtain ⟨read, hread, hbytes⟩ := readEscape_letter hletter
    rw [← hbytes]
    exact readItems_escape hread
  · have hread : readEscape ('x' :: (digits ++ rest)) = .ok (.byte byte, rest) := by
      rw [readEscape_x, readNumeric_of_numeral (by decide) hdigits, byteItem_toNat]
      rfl
    exact readItems_escape hread
  · obtain ⟨first, tail, digit, rfl, hfirst⟩ := hdigits.exists_first
    have hread : readEscape (first :: (tail ++ rest)) = .ok (.byte byte, rest) := by
      rw [readEscape_octal hfirst, ← List.cons_append,
        readNumeric_of_numeral (by decide) hdigits, byteItem_toNat]
      rfl
    exact readItems_escape hread
  · have hread : readEscape (letter :: (digits ++ rest)) = .ok (.char c, rest) := by
      rw [readEscape_codePoint hletter, readNumeric_of_numeral (by decide) hdigits,
        codePointItem_toNat]
      rfl
    rw [← bytes_char]
    exact readItems_escape hread

theorem readItems_append (h : Reads chars bytes) :
    readItems out (chars ++ rest) = readItems (out ++ bytes.toByteArray) rest := by
  induction h generalizing out with
  | nil => simp
  | next hitem _ ih =>
    rw [List.append_assoc, readItems_item hitem, ih, List.toByteArray_append,
      ByteArray.append_assoc]

theorem readItems_of_misfit (h : Misfit chars reason) : readItems out chars = .error reason := by
  rcases h with @⟨c, rest, hc⟩ | - | ⟨hletter, hx, hcodePoint, hoctal⟩ | hlacks | ⟨hfirst, hlacks⟩ |
    ⟨hdigits, hlt⟩ | ⟨hletter, hlacks⟩ | ⟨hletter, hdigits, hvalue⟩
  · have hslash : c ≠ '\\' := by
      rintro rfl
      simp at hc
    rw [readItems, if_neg hslash, if_pos hc]
  · exact readItems_escape_error rfl
  · exact readItems_escape_error (readEscape_unknown hletter hx hcodePoint hoctal)
  · refine readItems_escape_error ?_
    rw [readEscape_x, readNumeric_of_lacksNumeral (by decide) hlacks]
  · refine readItems_escape_error ?_
    rw [readEscape_octal hfirst, readNumeric_of_lacksNumeral (by decide) hlacks]
  · obtain ⟨first, tail, digit, rfl, hfirst⟩ := hdigits.exists_first
    refine readItems_escape_error ?_
    rw [List.cons_append, readEscape_octal hfirst, ← List.cons_append,
      readNumeric_of_numeral (by decide) hdigits, byteItem, if_neg (by omega)]
    rfl
  · refine readItems_escape_error ?_
    rw [readEscape_codePoint hletter, readNumeric_of_lacksNumeral (by decide) hlacks]
  · refine readItems_escape_error ?_
    rw [readEscape_codePoint hletter, readNumeric_of_numeral (by decide) hdigits,
      codePointItem_of_invalid hvalue]
    rfl

end Reader

/-! ### What a literal stands for -/

section Literals

variable {inner front back : List Char} {bytes : List UInt8} {text : String} {reason : Reason}

theorem fromUTF8?_eq_some_iff {bytes : ByteArray} :
    String.fromUTF8? bytes = some text ↔ text.toUTF8 = bytes := by
  rw [String.fromUTF8?, String.toUTF8_eq_toByteArray]
  constructor
  · intro h
    split at h
    · cases h
      rfl
    · cases h
  · rintro rfl
    rw [dif_pos text.isValidUTF8]
    rfl

theorem readItems_of_reads (h : Reads inner bytes) :
    readItems .empty inner = .ok bytes.toByteArray := by
  have happend := @readItems_append inner [] bytes .empty h
  rwa [List.append_nil, ByteArray.empty_append, readItems] at happend

theorem decodeItems_of_misfit (hfront : Reads front bytes) (hback : Misfit back reason) :
    decodeItems (front ++ back) = .error reason := by
  rw [decodeItems, readItems_append hfront, readItems_of_misfit hback]

theorem decodeItems_eq_ok_iff_of_reads (h : Reads inner bytes) :
    decodeItems inner = .ok text ↔ text.toUTF8 = bytes.toByteArray := by
  rw [decodeItems, readItems_of_reads h, ← fromUTF8?_eq_some_iff]
  dsimp only
  cases String.fromUTF8? bytes.toByteArray <;> simp

theorem decodeItems_eq_error_iff_of_reads (h : Reads inner bytes) :
    decodeItems inner = .error reason ↔
      reason = .invalidUtf8 ∧ ∀ text : String, text.toUTF8 ≠ bytes.toByteArray := by
  simp only [decodeItems, readItems_of_reads h, ne_eq, ← fromUTF8?_eq_some_iff]
  cases String.fromUTF8? bytes.toByteArray <;> simp [eq_comm]

theorem decodeItems_eq_ok_iff : decodeItems inner = .ok text ↔
    ∃ bytes, Reads inner bytes ∧ text.toUTF8 = bytes.toByteArray := by
  constructor
  · intro h
    rcases reads_or_misfits inner with ⟨bytes, hreads⟩ |
      ⟨front, back, bytes, reason, rfl, hfront, hback⟩
    · exact ⟨bytes, hreads, (decodeItems_eq_ok_iff_of_reads hreads).1 h⟩
    · rw [decodeItems_of_misfit hfront hback] at h
      cases h
  · rintro ⟨bytes, hreads, htext⟩
    exact (decodeItems_eq_ok_iff_of_reads hreads).2 htext

theorem decodeItems_eq_error_iff : decodeItems inner = .error reason ↔
    (∃ front back bytes, inner = front ++ back ∧ Reads front bytes ∧ Misfit back reason) ∨
      reason = .invalidUtf8 ∧ ∃ bytes, Reads inner bytes ∧
        ∀ text : String, text.toUTF8 ≠ bytes.toByteArray := by
  constructor
  · intro h
    rcases reads_or_misfits inner with ⟨bytes, hreads⟩ |
      ⟨front, back, bytes, reason', rfl, hfront, hback⟩
    · obtain ⟨hreason, hnone⟩ := (decodeItems_eq_error_iff_of_reads hreads).1 h
      exact .inr ⟨hreason, bytes, hreads, hnone⟩
    · rw [decodeItems_of_misfit hfront hback] at h
      cases h
      exact .inl ⟨front, back, bytes, rfl, hfront, hback⟩
  · rintro (⟨front, back, bytes, rfl, hfront, hback⟩ | ⟨hreason, bytes, hreads, hnone⟩)
    · exact decodeItems_of_misfit hfront hback
    · exact (decodeItems_eq_error_iff_of_reads hreads).2 ⟨hreason, hnone⟩

/-- Characters that stand for themselves read as their own bytes. -/
theorem reads_of_plain (h : inner.all isPlain = true) :
    Reads inner (inner.flatMap String.utf8EncodeChar) := by
  induction inner with
  | nil => exact .nil
  | cons c inner ih =>
    obtain ⟨hc, hinner⟩ : isPlain c = true ∧ inner.all isPlain = true := by simpa using h
    obtain ⟨⟨hslash, hquote⟩, hline⟩ : (c ≠ '\\' ∧ c ≠ '"') ∧ c ≠ '\n' := by
      simpa [isPlain] using hc
    exact .next (.plain hslash hquote hline) (ih hinner)

/-- The shortcut past the items changes nothing. -/
theorem decodeInner_eq_decodeItems (inner : List Char) :
    decodeInner inner = decodeItems inner := by
  rw [decodeInner]
  split
  · rename_i hplain
    have htext : (String.ofList inner).toUTF8 =
        (inner.flatMap String.utf8EncodeChar).toByteArray := by
      rw [String.toUTF8_eq_toByteArray, String.toByteArray_ofList, List.utf8Encode]
    exact (decodeItems_eq_ok_iff.2 ⟨_, reads_of_plain hplain, htext⟩).symm
  · rfl

end Literals

/-! ### The theorem -/

/-- The literal stands for no text, for the given reason. -/
inductive Refused (raw : String) : Reason → Prop
  | undelimited (hraw : ∀ inner, raw ≠ enclose '"' inner) : Refused raw .missingDelimiters
  | misfit {front back : List Char} {bytes : List UInt8} {reason : Reason}
      (hraw : raw = enclose '"' (front ++ back)) (hfront : Reads front bytes)
      (hback : Misfit back reason) : Refused raw reason
  | notUtf8 {inner : List Char} {bytes : List UInt8} (hraw : raw = enclose '"' inner)
      (hreads : Reads inner bytes) (hbytes : ∀ text : String, text.toUTF8 ≠ bytes.toByteArray) :
      Refused raw .invalidUtf8

section Decoding

variable {raw : String} {inner : List Char} {text : String} {fault : Fault} {reason : Reason}

theorem decode_enclose (inner : List Char) :
    decode (enclose '"' inner) =
      (decodeItems inner).mapError fun reason ↦ ⟨enclose '"' inner, reason⟩ := by
  rw [decode, inner?_eq_some_iff.2 rfl, ← decodeInner_eq_decodeItems]

theorem decode_of_undelimited (h : ∀ inner, raw ≠ enclose '"' inner) :
    decode raw = .error ⟨raw, .missingDelimiters⟩ := by
  have hinner : inner? raw = none := by
    rw [Option.eq_none_iff_forall_ne_some]
    exact fun inner heq ↦ h inner (inner?_eq_some_iff.1 heq)
  rw [decode, hinner]

theorem decode_enclose_eq_ok_iff :
    decode (enclose '"' inner) = .ok text ↔ decodeItems inner = .ok text := by
  rw [decode_enclose]
  cases decodeItems inner <;> simp [Except.mapError]

theorem exists_reads_of_decode (h : decode raw = .ok text) :
    ∃ inner bytes, raw = enclose '"' inner ∧ Reads inner bytes ∧
      text.toUTF8 = bytes.toByteArray := by
  by_cases hraw : ∃ inner, raw = enclose '"' inner
  · obtain ⟨inner, rfl⟩ := hraw
    obtain ⟨bytes, hreads, htext⟩ := decodeItems_eq_ok_iff.1 (decode_enclose_eq_ok_iff.1 h)
    exact ⟨inner, bytes, rfl, hreads, htext⟩
  · rw [decode_of_undelimited (not_exists.1 hraw)] at h
    cases h

theorem decode_enclose_eq_error_iff :
    decode (enclose '"' inner) = .error fault ↔
      fault.literal = enclose '"' inner ∧ decodeItems inner = .error fault.reason := by
  rw [decode_enclose]
  obtain ⟨literal, reason⟩ := fault
  cases decodeItems inner <;> simp [Except.mapError, eq_comm]

theorem refused_enclose_iff :
    Refused (enclose '"' inner) reason ↔ decodeItems inner = .error reason := by
  rw [decodeItems_eq_error_iff]
  constructor
  · rintro (hraw | @⟨front, back, bytes, _, hraw, hfront, hback⟩ |
      @⟨inner', bytes, hraw, hreads, hnone⟩)
    · exact absurd rfl (hraw inner)
    · obtain rfl := enclose_inj.1 hraw
      exact .inl ⟨front, back, bytes, rfl, hfront, hback⟩
    · obtain rfl := enclose_inj.1 hraw
      exact .inr ⟨rfl, bytes, hreads, hnone⟩
  · rintro (⟨front, back, bytes, rfl, hfront, hback⟩ | ⟨rfl, bytes, hreads, hnone⟩)
    · exact .misfit rfl hfront hback
    · exact .notUtf8 rfl hreads hnone

theorem decode_eq_error_iff :
    decode raw = .error fault ↔ fault.literal = raw ∧ Refused raw fault.reason := by
  by_cases hraw : ∃ inner, raw = enclose '"' inner
  · obtain ⟨inner, rfl⟩ := hraw
    rw [decode_enclose_eq_error_iff, refused_enclose_iff]
  · have hundelimited := not_exists.1 hraw
    rw [decode_of_undelimited hundelimited]
    constructor
    · rintro ⟨⟩
      exact ⟨rfl, .undelimited hundelimited⟩
    · obtain ⟨literal, reason⟩ := fault
      rintro ⟨rfl, _ | ⟨hinner, -⟩ | ⟨hinner, -⟩⟩
      · rfl
      · exact absurd hinner (hundelimited _)
      · exact absurd hinner (hundelimited _)

end Decoding

/-- **A double-quoted literal decodes exactly if it is made of the items that there are,** to the
text whose bytes they stand for. Otherwise the fault names the literal and the leftmost thing that
does not fit, and bytes that are no text only where everything fits. The shortcut for literals
without escapes agrees with the reading of items. -/
theorem decodes_exactly_the_items (raw : String) :
    (∀ text, decode raw = .ok text ↔ ∃ inner bytes, raw = enclose '"' inner ∧
        Reads inner bytes ∧ text.toUTF8 = bytes.toByteArray) ∧
      (∀ fault, decode raw = .error fault ↔ fault.literal = raw ∧ Refused raw fault.reason) ∧
      ∀ inner, decodeInner inner = decodeItems inner := by
  by_cases hraw : ∃ inner, raw = enclose '"' inner
  · obtain ⟨inner, rfl⟩ := hraw
    refine ⟨fun text ↦ ?_, fun fault ↦ ?_, decodeInner_eq_decodeItems⟩
    · rw [decode_enclose_eq_ok_iff, decodeItems_eq_ok_iff]
      constructor
      · rintro ⟨bytes, hreads, htext⟩
        exact ⟨inner, bytes, rfl, hreads, htext⟩
      · rintro ⟨inner', bytes, hinner, hreads, htext⟩
        obtain rfl := enclose_inj.1 hinner
        exact ⟨bytes, hreads, htext⟩
    · rw [decode_enclose_eq_error_iff, refused_enclose_iff]
  · have hundelimited := not_exists.1 hraw
    refine ⟨fun text ↦ ?_, fun fault ↦ ?_, decodeInner_eq_decodeItems⟩
    · rw [decode_of_undelimited hundelimited]
      constructor
      · intro h
        cases h
      · rintro ⟨inner, -, hinner, -⟩
        exact absurd hinner (hundelimited inner)
    · rw [decode_of_undelimited hundelimited]
      constructor
      · intro h
        cases h
        exact ⟨rfl, .undelimited hundelimited⟩
      · obtain ⟨literal, reason⟩ := fault
        rintro ⟨rfl, hundelimited' | ⟨hinner, -⟩ | ⟨hinner, -⟩⟩
        · rfl
        · exact absurd hinner (hundelimited _)
        · exact absurd hinner (hundelimited _)

end DoubleQuoted

end Literal

end PipelineSyntax
