import PipelineSyntax.Proofs.Acceptance
import PipelineSyntax.Proofs.Cuts
import PipelineSyntax.Proofs.Doubling
import PipelineSyntax.Proofs.Escapes
import PipelineSyntax.Proofs.Numbering

/-!
# Quoting shrinks when it is decoded

A quoted literal takes more bytes than the text it stands for, because its delimiters are dropped
and nothing between them grows. Of the characters between single quotes some are kept and the
others are dropped (`halve_sublist`); between double quotes a character that stands for itself
takes as many bytes as it stands for, and every escape takes more (`Spells.shrinks`), be it one
character of four bytes spelled by ten, or a single byte spelled by four.

So whether a literal was quoted can be told from a string of the tree alone: its spelling is its
text exactly if it was a bare word, and no quoted literal is spelled `=`.
-/

namespace PipelineSyntax

namespace Literal

/-! ### Between single quotes -/

namespace SingleQuoted

/-- Halving a run drops some of its members. -/
theorem halveRun_sublist (delimiter c : Char) (count : Nat) :
    (halveRun delimiter (List.replicate (count + 1) c)).Sublist
      (List.replicate (count + 1) c) := by
  by_cases hc : c = delimiter
  · subst hc
    rw [halveRun_delimiters]
    exact (List.replicate_sublist_replicate c).2 (by omega)
  · rw [halveRun_others hc]

/-- Of the characters between the delimiters some are kept. -/
theorem halve_sublist (delimiter : Char) (chars : List Char) :
    (halve delimiter chars).Sublist chars := by
  induction chars using runInduction with
  | nil => exact List.Sublist.refl []
  | run c count rest hrest ih =>
    rw [halve_replicate_append count hrest]
    exact (halveRun_sublist delimiter c count).append ih

theorem decode_eq_ok_iff {raw text : String} : decode raw = .ok text ↔
    ∃ delimiter inner, raw = enclose delimiter inner ∧
      text = String.ofList (halve delimiter inner) := by
  by_cases hraw : IsDelimited raw
  · obtain ⟨delimiter, inner, rfl⟩ := isDelimited_iff.1 hraw
    rw [decode_enclose]
    constructor
    · rintro ⟨⟩
      exact ⟨delimiter, inner, rfl, rfl⟩
    · rintro ⟨delimiter', inner', heq, rfl⟩
      have hchars := eq_enclose_iff.1 heq
      rw [toList_enclose] at hchars
      obtain ⟨rfl, hinner⟩ := List.cons.inj hchars
      rw [List.append_cancel_right hinner]
  · rw [decode_of_not_isDelimited hraw]
    constructor
    · rintro ⟨⟩
    · rintro ⟨delimiter, inner, hinner, -⟩
      exact absurd (isDelimited_iff.2 ⟨delimiter, inner, hinner⟩) hraw

/-- Decoding drops the delimiters at least. -/
theorem decode_shrinks {raw text : String} (h : decode raw = .ok text) :
    ∃ delimiter, raw.toList.head? = some delimiter ∧
      text.utf8ByteSize + 2 * delimiter.utf8Size ≤ raw.utf8ByteSize := by
  obtain ⟨delimiter, inner, rfl, rfl⟩ := decode_eq_ok_iff.1 h
  refine ⟨delimiter, by rw [toList_enclose]; rfl, ?_⟩
  rw [utf8ByteSize_enclose]
  exact Nat.add_le_add_right (Text.width_le_of_sublist (halve_sublist delimiter inner)) _

end SingleQuoted

/-! ### Between double quotes -/

namespace DoubleQuoted

/-- The characters take at least as many bytes as they stand for, and exactly as many if there is
no backslash among them. -/
structure Shrinks (chars : List Char) (bytes : List UInt8) : Prop where
  /-- They stand for no more bytes than they take. -/
  length_le : bytes.length ≤ Text.width chars
  /-- They stand for as many exactly if none of them is a backslash. -/
  length_eq_iff : bytes.length = Text.width chars ↔ '\\' ∉ chars

section Items

variable {chars front back : List Char} {bytes more : List UInt8}

/-- An escape shrinks: each character of it takes a byte at least, the backslash another one. -/
theorem Shrinks.escape (h : bytes.length ≤ chars.length) : Shrinks ('\\' :: chars) bytes := by
  have hle := Text.length_le_width chars
  have hpos := Char.utf8Size_pos '\\'
  have hlt : bytes.length < Text.width ('\\' :: chars) := by
    rw [Text.width_cons]
    omega
  exact ⟨hlt.le, iff_of_false hlt.ne (by simp)⟩

theorem Shrinks.append (hfront : Shrinks front bytes) (hback : Shrinks back more) :
    Shrinks (front ++ back) (bytes ++ more) where
  length_le := by
    rw [List.length_append, Text.width_append]
    exact Nat.add_le_add hfront.length_le hback.length_le
  length_eq_iff := by
    have hle := hfront.length_le
    have hle' := hback.length_le
    rw [List.mem_append, not_or, ← hfront.length_eq_iff, ← hback.length_eq_iff,
      List.length_append, Text.width_append]
    omega

/-- An item shrinks: a character stands for itself, or an escape for less than it takes. -/
theorem Spells.shrinks (h : Spells chars bytes) : Shrinks chars bytes := by
  rcases h with @⟨c, hslash, -, -⟩ | - | @⟨digits, byte, hdigits⟩ | @⟨digits, byte, hdigits⟩ |
    @⟨letter, c, count, digits, hletter, hdigits⟩
  · have hlength : (String.utf8EncodeChar c).length = Text.width [c] := by simp
    exact ⟨hlength.le, iff_of_true hlength (by simpa using hslash.symm)⟩
  · exact .escape (by simp)
  · exact .escape (by simp)
  · exact .escape (by simp [hdigits.length_eq])
  · have hcount : ∀ entry ∈ codePointDigits, 4 ≤ entry.2 := by decide
    have hle : 4 ≤ count := hcount _ hletter
    have hsize := c.utf8Size_le_four
    refine .escape ?_
    rw [String.length_utf8EncodeChar, List.length_cons, hdigits.length_eq]
    omega

theorem Reads.shrinks (h : Reads chars bytes) : Shrinks chars bytes := by
  induction h with
  | nil => exact ⟨Nat.le_refl _, by simp⟩
  | next hitem _ ih => exact hitem.shrinks.append ih

end Items

/-- Decoding drops the two quotes, and something else only where there is an escape. -/
theorem decode_shrinks {raw text : String} (h : decode raw = .ok text) :
    text.utf8ByteSize + 2 ≤ raw.utf8ByteSize ∧
      (text.utf8ByteSize + 2 = raw.utf8ByteSize ↔ '\\' ∉ raw.toList) := by
  obtain ⟨inner, bytes, rfl, hreads, htext⟩ := exists_reads_of_decode h
  obtain ⟨hle, heq⟩ := hreads.shrinks
  have hsize : text.utf8ByteSize = bytes.length := by
    rw [← String.size_toByteArray, ← String.toUTF8_eq_toByteArray, htext]
    simp
  have hquote : Char.utf8Size '"' = 1 := by decide
  have hslash : '\\' ∉ (enclose '"' inner).toList ↔ '\\' ∉ inner := by simp
  rw [utf8ByteSize_enclose, hsize, hquote, hslash, ← heq]
  exact ⟨by omega, by omega⟩

end DoubleQuoted

end Literal

/-! ### Quoting in trees -/

section Tokens

variable {token : Token} {text : String}

/-- A literal is a bare word, which stands for itself, or it is quoted and shrinks. -/
theorem Token.decode_shrinks (h : token.decode = .ok text) :
    token.kind = .bare ∧ token.text = text ∨
      token.kind ≠ .bare ∧ text.utf8ByteSize + 2 ≤ token.text.utf8ByteSize := by
  rw [decode] at h
  split at h
  case h_1 hkind => exact .inl ⟨hkind, Except.ok.inj h⟩
  case h_2 hkind =>
    obtain ⟨delimiter, -, hle⟩ := Literal.SingleQuoted.decode_shrinks h
    have hpos := delimiter.utf8Size_pos
    exact .inr ⟨by simp [hkind], by omega⟩
  case h_3 hkind => exact .inr ⟨by simp [hkind], (Literal.DoubleQuoted.decode_shrinks h).1⟩
  case h_4 => cases h

/-- Only a bare word is spelled as the text it stands for. -/
theorem Token.text_eq_iff_of_decode (h : token.decode = .ok text) :
    token.text = text ↔ token.kind = .bare := by
  rcases decode_shrinks h with ⟨hkind, htext⟩ | ⟨hkind, hle⟩
  · exact iff_of_true htext hkind
  · refine iff_of_false ?_ hkind
    rintro rfl
    omega

/-- A literal that is spelled `=` is the bare word. -/
theorem Token.isEquals_of_decode (h : token.decode = .ok text) (hequals : token.text = "=") :
    token.isEquals = true := by
  rcases decode_shrinks h with ⟨hkind, -⟩ | ⟨-, hle⟩
  · simp [isEquals, hkind, hequals]
  · have hwidth : token.text.utf8ByteSize = 1 := by rw [hequals]; decide
    omega

end Tokens

namespace Parser

open Grammar (Line)
open Literal

/-- **Decoding a quoted literal shrinks it, so quoting stays visible in the tree.** Between single
quotes at least the two delimiters are saved, however wide; between double quotes at least the two
quotes, and nothing else exactly if there is no escape. So in the tree of a line, where the string
with a given number is spelled by the token with that number, a string has its text for its
spelling exactly if the token is a bare word, and `=` only if it is the bare `=`. -/
theorem quoting_stays_visible :
    (∀ raw text, SingleQuoted.decode raw = .ok text → ∃ delimiter,
      raw.toList.head? = some delimiter ∧
        text.utf8ByteSize + 2 * delimiter.utf8Size ≤ raw.utf8ByteSize) ∧
    (∀ raw text, DoubleQuoted.decode raw = .ok text →
      text.utf8ByteSize + 2 ≤ raw.utf8ByteSize ∧
        (text.utf8ByteSize + 2 = raw.utf8ByteSize ↔ '\\' ∉ raw.toList)) ∧
    ∀ limit stream parsed, (readLine limit stream).1 = .ok parsed →
      ∃ tree, Line limit (numberFrom 0 (pulled limit stream)) tree ∧
        parsed.root = tree.relocate (Layout.ofRow (pulled limit stream)).offset ∧
        ∀ index raw text, .string index raw text ∈ tree.all →
          ∃ token, (pulled limit stream)[index]? = some token ∧ token.text = raw ∧
            token.decode = .ok text ∧ (raw = text ↔ token.kind = .bare) ∧
            (raw = "=" → token.isEquals = true) := by
  refine ⟨fun _ _ ↦ SingleQuoted.decode_shrinks, fun _ _ ↦ DoubleQuoted.decode_shrinks,
    fun limit stream parsed h ↦ ?_⟩
  obtain ⟨result, hnumbered, rfl⟩ := exists_numbered_of_readLine h
  have hline : Line limit (numberFrom 0 (pulled limit stream)) result.root :=
    Reads.derives (by rwa [origin_numberFrom])
  refine ⟨result.root, hline, rfl, fun index raw text hmem ↦ ?_⟩
  obtain ⟨number, token, hoffset, htoken, -, rfl, hdecode⟩ :=
    hnumbered.spelledIn (Sequence.mem_strings.2 hmem)
  obtain rfl : index = number := hoffset.trans (zero_add number)
  exact ⟨token, htoken, rfl, hdecode, Token.text_eq_iff_of_decode hdecode,
    Token.isEquals_of_decode hdecode⟩

/-- The text `=`, as a word and between quotes of both kinds: `= '=' "="`. -/
def threeEquals : TokenStream where
  tokens := [⟨.bare, "=", 0, false⟩, ⟨.space, " ", 1, false⟩, ⟨.singleQuoted, "'='", 2, false⟩,
    ⟨.space, " ", 5, false⟩, ⟨.doubleQuoted, "\"=\"", 6, false⟩]
  endOffset := 9

/-- What the three are read as, once the tokens are numbered. -/
def threeEqualsTree : Sequence Node :=
  let word (pos : Nat) (raw : String) : Node :=
    .list ⟨pos, .term, [.factor pos 0 .start (.string pos raw "=")]⟩
  let args : List Node := [word 0 "=", word 2 "'='", word 4 "\"=\""]
  ⟨0, .pipeline, [.command 0 ⟨0, .termList, args⟩ []]⟩

/-- Of three strings with one text, one is spelled as it; an escape would have made the last one
longer still. -/
theorem quoting_stays_visible_threeEquals :
    3 ≤ "'='".utf8ByteSize ∧ 3 = "\"=\"".utf8ByteSize ∧ 3 ≠ "\"\\x3D\"".utf8ByteSize ∧
      Line 0 (numberFrom 0 (pulled 0 threeEquals)) threeEqualsTree ∧
      ∀ index raw text, .string index raw text ∈ threeEqualsTree.all →
        (raw = text ↔ index = 0) := by
  obtain ⟨hsingle, hdouble, htrees⟩ := quoting_stays_visible
  obtain ⟨delimiter, hdelimiter, hle⟩ := hsingle "'='" "=" rfl
  obtain rfl : '\'' = delimiter := Option.some.inj hdelimiter
  have hplain := (hdouble "\"=\"" "=" rfl).2.2 (by decide)
  have hescape := mt (hdouble "\"\\x3D\"" "=" (by decide +kernel)).2.1 (by decide)
  have hline : Line 0 (numberFrom 0 (pulled 0 threeEquals)) threeEqualsTree :=
    (Grammar.readLine_ok_iff 0 ⟨numberFrom 0 (pulled 0 threeEquals), 0⟩ _).1 ⟨_, rfl⟩
  obtain ⟨tree, hline', -, hspelled⟩ := htrees 0 threeEquals _ rfl
  obtain rfl := hline'.unique hline
  have hbare : ∀ index token, (pulled 0 threeEquals)[index]? = some token →
      (token.kind = .bare ↔ index = 0) := by
    have hpulled : pulled 0 threeEquals = threeEquals.tokens ++ [.endOfInput 9] := rfl
    rw [hpulled]
    rintro (_ | _ | _ | _ | _ | _ | _) token ⟨⟩ <;> decide
  refine ⟨hle, hplain, hescape, hline, fun index raw text hmem ↦ ?_⟩
  obtain ⟨token, htoken, -, -, hkind, -⟩ := hspelled index raw text hmem
  rw [hkind, hbare index token htoken]

end Parser

end PipelineSyntax
