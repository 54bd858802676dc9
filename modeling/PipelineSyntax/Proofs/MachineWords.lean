import PipelineSyntax.Literal.MachineWords
import PipelineSyntax.Proofs.Escapes

/-!
# Machine words are wide enough

An escape has at most eight digits, so its value fits into 32 bits: in front of the eighth
hexadecimal digit the value is below `16 ^ 7`, and behind it below `16 ^ 8`, which is the number of
words. That is the invariant of the reading in words. No checked operation fails, no sum wraps
around, and the bits that are cut off a byte are zeros.

So the reading in words is the reading of numbers (`readEscape_eq`), and what a refused literal is
blamed for is the value that it spells.
-/

namespace PipelineSyntax

namespace Literal

namespace DoubleQuoted

namespace InWords

variable {base count value digit read : Nat} {chars front rest : List Char}

/-! ### Words -/

theorem checkedMul?_ofNat {a b : Nat} (ha : a < UInt32.size) (hb : b < UInt32.size)
    (h : a * b < UInt32.size) :
    checkedMul? (.ofNat a) (.ofNat b) = some (.ofNat (a * b)) := by
  rw [checkedMul?, UInt32.toNat_ofNat_of_lt' ha, UInt32.toNat_ofNat_of_lt' hb, if_pos h,
    UInt32.ofNat_mul]

theorem checkedAdd?_ofNat {a b : Nat} (h : a + b < UInt32.size) :
    checkedAdd? (.ofNat a) (.ofNat b) = some (.ofNat (a + b)) := by
  rw [checkedAdd?, UInt32.toNat_ofNat_of_lt' (show a < UInt32.size by omega),
    UInt32.toNat_ofNat_of_lt' (show b < UInt32.size by omega), if_pos h, UInt32.ofNat_add]

/-- The digit can be put in behind the value: neither of the two checked operations fails, and
what they give is the value of the digits together. -/
structure PutsIn (value digit : Nat) : Prop where
  /-- The multiplication does not fail. -/
  mul : checkedMul? (.ofNat value) 16 = some (.ofNat (value * 16))
  /-- The addition does not fail. -/
  add : checkedAdd? (.ofNat (value * 16)) (.ofNat digit) = some (.ofNat (value * 16 + digit))
  /-- The sum is a word. -/
  lt : value * 16 + digit < UInt32.size

/-- Behind fewer than eight digits there is room for another one. -/
theorem putsIn (hvalue : value < 16 ^ read) (hread : read < 8) (hdigit : digit < 16) :
    PutsIn value digit := by
  have hle : 16 ^ read ≤ 16 ^ 7 := Nat.pow_le_pow_right (by decide) (by omega)
  have hlt : value * 16 + digit < UInt32.size := by
    have hseven : 16 ^ 7 * 16 = UInt32.size := by decide
    omega
  have hmul := @checkedMul?_ofNat value 16 (by omega) (by decide) (by omega)
  exact ⟨hmul, checkedAdd?_ofNat hlt, hlt⟩

/-! ### Digits -/

/-- What reading digits in words gives, given what reading them as numbers gives. -/
def ofDigits? : Option (Nat × List Char) → Except Reason (UInt32 × List Char)
  | none => .error .truncatedEscape
  | some (value, rest) => .ok (.ofNat value, rest)

theorem hexDigitsFrom_eq (hvalue : value < 16 ^ read) (hcount : read + count ≤ 8) :
    hexDigitsFrom count (.ofNat value) chars = ofDigits? (readDigits? 16 count value chars) := by
  induction count generalizing read value chars with
  | zero => rfl
  | succ count ih =>
    rcases chars with _ | ⟨c, chars⟩
    · rfl
    · rw [hexDigitsFrom, readDigits?, digit?]
      cases hdigit : digitValue? 16 c with
      | none => rfl
      | some digit =>
        have hlt : digit < 16 := ((digitValue?_eq_some_iff (by decide)).1 hdigit).1
        obtain ⟨hmul, hadd, -⟩ := putsIn hvalue (by omega) hlt
        have hnext : value * 16 + digit < 16 ^ (read + 1) := by
          rw [pow_succ]
          omega
        simp only [Option.map_some, hmul, Option.bind_some, hadd]
        exact ih hnext (by omega)

theorem hexDigits_eq (hcount : count ≤ 8) :
    hexDigits count chars = ofDigits? (readDigits? 16 count 0 chars) :=
  hexDigitsFrom_eq (show 0 < 16 ^ 0 by decide) (by omega)

/-- Without checks the sum is right as far as a word goes. -/
theorem octalDigitsFrom_eq :
    octalDigitsFrom count (.ofNat value) chars = ofDigits? (readDigits? 8 count value chars) := by
  induction count generalizing value chars with
  | zero => rfl
  | succ count ih =>
    rcases chars with _ | ⟨c, chars⟩
    · rfl
    · rw [octalDigitsFrom, readDigits?, digit?]
      cases hdigit : digitValue? 8 c with
      | none => rfl
      | some digit =>
        have hnext : UInt32.ofNat value * 8 + .ofNat digit = .ofNat (value * 8 + digit) := by
          rw [UInt32.ofNat_add, UInt32.ofNat_mul]
          rfl
        simp only [Option.map_some, hnext]
        exact ih

/-- As long as all values are words, digits are read as the numeral that the text begins with. -/
theorem ofDigits?_eq_ok_iff (hbase : base ≤ 16) (hone : 1 < base)
    (hwidth : base ^ count ≤ UInt32.size) {word : UInt32} :
    ofDigits? (readDigits? base count 0 chars) = .ok (word, rest) ↔
      ∃ digits, chars = digits ++ rest ∧ Numeral base count digits word.toNat := by
  rw [← readDigits?_zero_eq_some_iff hbase]
  cases hdigits : readDigits? base count 0 chars with
  | none => simp [ofDigits?]
  | some result =>
    obtain ⟨value, rest'⟩ := result
    obtain ⟨front, rfl, hnumeral⟩ := (readDigits?_zero_eq_some_iff hbase).1 hdigits
    have hvalue : (UInt32.ofNat value).toNat = value :=
      UInt32.toNat_ofNat_of_lt' (Nat.lt_of_lt_of_le (hnumeral.lt hone) hwidth)
    rw [ofDigits?, Except.ok.injEq, Prod.mk.injEq, Option.some.injEq, Prod.mk.injEq,
      ← UInt32.toNat_inj, hvalue]

theorem pow_le_size (hcount : count ≤ 8) : 16 ^ count ≤ UInt32.size :=
  Nat.pow_le_pow_right (show 0 < 16 by decide) hcount

theorem hexDigits_eq_ok_iff (hcount : count ≤ 8) {word : UInt32} :
    hexDigits count chars = .ok (word, rest) ↔
      ∃ digits, chars = digits ++ rest ∧ Numeral 16 count digits word.toNat := by
  rw [hexDigits_eq hcount]
  exact ofDigits?_eq_ok_iff (by decide) (by decide) (pow_le_size hcount)

theorem lt_of_hexDigits_eq_ok (hcount : count ≤ 8) {word : UInt32}
    (h : hexDigits count chars = .ok (word, rest)) : word.toNat < 16 ^ count := by
  obtain ⟨digits, -, hdigits⟩ := (hexDigits_eq_ok_iff hcount).1 h
  exact hdigits.lt (by decide)

/-- A word below 256 is the byte that is cut out of it. -/
theorem toNat_toUInt8 {word : UInt32} (h : word.toNat < 256) :
    word.toUInt8.toNat = word.toNat := by
  rw [UInt32.toNat_toUInt8]
  exact Nat.mod_eq_of_lt h

/-- There is one fault in hexadecimal digits, which is that one of them is missing. -/
theorem hexDigits_eq_error_iff (hcount : count ≤ 8) {reason : Reason} :
    hexDigits count chars = .error reason ↔ reason = .truncatedEscape ∧
      (chars.length < count ∨ ∃ c ∈ chars.take count, ∀ digit, ¬ IsDigit 16 c digit) := by
  rw [hexDigits_eq hcount, ← readDigits?_eq_none_iff (by decide)]
  cases readDigits? 16 count 0 chars <;> simp [ofDigits?, eq_comm]

/-- Where the reading of hexadecimal digits stands behind some of them. -/
theorem hexDigits_append (hcount : read + count ≤ 8) (hfront : Numeral 16 read front value) :
    hexDigits (read + count) (front ++ rest) = hexDigitsFrom count (.ofNat value) rest := by
  have hvalue := hfront.lt (by decide)
  obtain ⟨digits, hdigits, rfl, rfl⟩ := hfront
  rw [hexDigits_eq hcount, hexDigitsFrom_eq hvalue hcount, ← foldl_eq_ofDigits,
    readDigits?_append (by decide) hdigits]

/-- Octal digits are read behind the first one, with its value. -/
theorem octalDigits_eq {c : Char} {first : UInt32} (hfirst : digit? 8 c = some first) :
    octalDigitsFrom 2 first rest = ofDigits? (readDigits? 8 3 0 (c :: rest)) := by
  obtain ⟨digit, hdigit, rfl⟩ := Option.map_eq_some_iff.1 hfirst
  rw [octalDigitsFrom_eq]
  simp [readDigits?, hdigit]

theorem octalDigits_eq_ok_iff {c : Char} {first word : UInt32} (hfirst : digit? 8 c = some first) :
    octalDigitsFrom 2 first chars = .ok (word, rest) ↔
      ∃ digits, c :: chars = digits ++ rest ∧ Numeral 8 3 digits word.toNat := by
  rw [octalDigits_eq hfirst]
  exact ofDigits?_eq_ok_iff (by decide) (by decide) (by decide)

/-! ### Escapes -/

theorem hexItem_ofNat (hvalue : value < 256) : hexItem (.ofNat value) = byteItem value := by
  rw [hexItem, byteItem, if_pos hvalue, UInt32.toUInt8_ofNat']

theorem octalItem_ofNat (hvalue : value < UInt32.size) :
    octalItem (.ofNat value) = byteItem value := by
  have hword : (UInt32.ofNat value).toNat = value := UInt32.toNat_ofNat_of_lt' hvalue
  have hrange : 0o377 < UInt32.ofNat value ↔ 255 < value := by
    rw [UInt32.lt_iff_toNat_lt, hword]
    rfl
  rw [octalItem, byteItem, hword, UInt32.toUInt8_ofNat']
  by_cases hlt : value < 256
  · rw [if_neg (by rw [hrange]; omega), if_pos hlt]
  · rw [if_pos (by rw [hrange]; omega), if_neg hlt]

theorem charItem_ofNat (hvalue : value < UInt32.size) :
    charItem (.ofNat value) = codePointItem value := by
  have hword : (UInt32.ofNat value).toNat = value := UInt32.toNat_ofNat_of_lt' hvalue
  have hvalid : (UInt32.ofNat value).isValidChar ↔ value.isValidChar := by
    rw [UInt32.isValidChar, hword]
  by_cases h : value.isValidChar
  · have hchar : (⟨.ofNat value, hvalid.2 h⟩ : Char).toNat = value := hword
    rw [charItem, dif_pos (hvalid.2 h), ← codePointItem_toNat, hchar]
  · rw [charItem, dif_neg (mt hvalid.1 h), codePointItem, if_neg h, hword]

/-- Items that are the same for the values of the digits are the same for what is read. -/
theorem makeItem_ofDigits? {item : UInt32 → Except Reason Item} {make : Nat → Except Reason Item}
    (hbase : base ≤ 16) (hone : 1 < base)
    (hitem : ∀ value < base ^ count, item (.ofNat value) = make value) :
    makeItem item (ofDigits? (readDigits? base count 0 chars)) =
      readNumeric base count make chars := by
  rw [readNumeric]
  cases hdigits : readDigits? base count 0 chars with
  | none => rfl
  | some result =>
    obtain ⟨value, rest⟩ := result
    obtain ⟨front, rfl, hnumeral⟩ := (readDigits?_zero_eq_some_iff hbase).1 hdigits
    show (item (.ofNat value) >>= fun item ↦ return (item, rest)) =
      (make value).map fun item ↦ (item, rest)
    rw [hitem value (hnumeral.lt hone)]
    cases make value <;> rfl

theorem makeItem_hexDigits {item : UInt32 → Except Reason Item}
    {make : Nat → Except Reason Item} (hcount : count ≤ 8)
    (hitem : ∀ value < 16 ^ count, item (.ofNat value) = make value) :
    makeItem item (hexDigits count chars) = readNumeric 16 count make chars := by
  rw [hexDigits_eq hcount]
  exact makeItem_ofDigits? (by decide) (by decide) hitem

theorem makeItem_octalDigits {c : Char} {first : UInt32} (hfirst : digit? 8 c = some first) :
    makeItem octalItem (octalDigitsFrom 2 first rest) =
      readNumeric 8 3 byteItem (c :: rest) := by
  rw [octalDigits_eq hfirst]
  refine makeItem_ofDigits? (by decide) (by decide) fun value hlt ↦ octalItem_ofNat ?_
  exact Nat.lt_trans hlt (by decide)

/-- Escapes are read in words as they are read in numbers. -/
theorem readEscape_eq (chars : List Char) : readEscape chars = DoubleQuoted.readEscape chars := by
  have hcodePoint (count : Nat) (hcount : count ≤ 8) (rest : List Char) :
      makeItem charItem (hexDigits count rest) = readNumeric 16 count codePointItem rest := by
    refine makeItem_hexDigits hcount fun value hlt ↦ charItem_ofNat ?_
    exact Nat.lt_of_lt_of_le hlt (pow_le_size hcount)
  rcases chars with _ | ⟨c, rest⟩
  · rfl
  · rw [readEscape, DoubleQuoted.readEscape]
    cases namedChar? c with
    | some named => rfl
    | none =>
      by_cases hx : c = 'x'
      · simp only [hx, if_true]
        exact makeItem_hexDigits (by decide) fun value hlt ↦ hexItem_ofNat hlt
      by_cases hu : c = 'u'
      · simp only [hu, if_true, true_or]
        exact hcodePoint 4 (by decide) rest
      by_cases hU : c = 'U'
      · simp only [hU, if_true, or_true]
        exact hcodePoint 8 (by decide) rest
      simp only [hx, hu, hU, if_false, or_self]
      cases hdigit : digit? 8 c with
      | none =>
        have hnone : digitValue? 8 c = none := Option.map_eq_none_iff.1 hdigit
        simp [hnone]
      | some first =>
        obtain ⟨digit, hsome, -⟩ := Option.map_eq_some_iff.1 hdigit
        rw [hsome, Option.isSome_some, if_pos rfl]
        exact makeItem_octalDigits hdigit

end InWords

/-! ### What literals are blamed for -/

/-- The items in front of the escape read, and it names a code point by the given value. -/
def NamesCodePoint (raw : String) (value : Nat) : Prop :=
  ∃ front bytes letter count digits rest,
    raw = enclose '"' (front ++ '\\' :: letter :: (digits ++ rest)) ∧ Reads front bytes ∧
      (letter, count) ∈ codePointDigits ∧ Numeral 16 count digits value

/-- The items in front of the escape read, and it is three octal digits of the given value. -/
def NamesOctal (raw : String) (value : Nat) : Prop :=
  ∃ front bytes digits rest, raw = enclose '"' (front ++ '\\' :: (digits ++ rest)) ∧
    Reads front bytes ∧ Numeral 8 3 digits value

section Blame

variable {raw literal : String} {value : Nat}

/-- No character has the value if it is that of a surrogate or above all of them. -/
theorem forall_toNat_ne_iff : (∀ c : Char, c.toNat ≠ value) ↔
    (0xD800 ≤ value ∧ value ≤ 0xDFFF) ∨ 0x10FFFF < value := by
  have hvalid : (∀ c : Char, c.toNat ≠ value) ↔ ¬ value.isValidChar := by
    constructor
    · intro h hvalid
      exact h (Char.ofNatAux value hvalid) rfl
    · rintro h c rfl
      exact h c.valid
  rw [hvalid, Nat.isValidChar]
  omega

theorem decode_eq_invalidCodePoint_iff :
    decode raw = .error ⟨literal, .invalidCodePoint value⟩ ↔ literal = raw ∧
      NamesCodePoint raw value ∧ ((0xD800 ≤ value ∧ value ≤ 0xDFFF) ∨ 0x10FFFF < value) := by
  rw [decode_eq_error_iff, ← forall_toNat_ne_iff]
  refine and_congr_right fun _ ↦ ⟨?_, ?_⟩
  · rintro (_ | @⟨front, _, bytes, _, hraw, hfront, hback⟩ | _)
    rcases hback with _ | _ | _ | _ | _ | _ | _ |
      @⟨letter, count, _, digits, rest, hletter, hdigits, hvalue⟩
    exact ⟨⟨front, bytes, letter, count, digits, rest, hraw, hfront, hletter, hdigits⟩, hvalue⟩
  · rintro ⟨⟨front, bytes, letter, count, digits, rest, hraw, hfront, hletter, hdigits⟩, hvalue⟩
    exact .misfit hraw hfront (.invalid hletter hdigits hvalue)

theorem decode_eq_octalOutOfRange_iff :
    decode raw = .error ⟨literal, .octalOutOfRange value⟩ ↔ literal = raw ∧
      NamesOctal raw value ∧ 256 ≤ value ∧ value ≤ 511 := by
  rw [decode_eq_error_iff]
  refine and_congr_right fun _ ↦ ⟨?_, ?_⟩
  · rintro (_ | @⟨front, _, bytes, _, hraw, hfront, hback⟩ | _)
    rcases hback with _ | _ | _ | _ | _ | @⟨digits, rest, _, hdigits, hlt⟩ | _ | _
    have hle : value < 512 := hdigits.lt (by decide)
    exact ⟨⟨front, bytes, digits, rest, hraw, hfront, hdigits⟩, hlt, by omega⟩
  · rintro ⟨⟨front, bytes, digits, rest, hraw, hfront, hdigits⟩, hlt, -⟩
    exact .misfit hraw hfront (.outOfRange hdigits hlt)

end Blame

/-! ### The theorem -/

open InWords

/-- **Escapes by value are computed exactly, and what they are blamed for is true.** Up to eight
hexadecimal digits are read in machine words as the numeral that the text begins with; the only
fault is that one of them is missing, for no operation on the way fails. A byte is cut out of a
word without dropping a bit. So reading escapes in words is reading them in numbers, and a literal
is refused for a code point or for an octal value exactly if it spells that value where the items
end, and the value is out of range. -/
theorem numeric_escapes_are_exact :
    (∀ count ≤ 8, ∀ chars,
      (∀ value rest, hexDigits count chars = .ok (value, rest) ↔
        ∃ digits, chars = digits ++ rest ∧ Numeral 16 count digits value.toNat) ∧
      (∀ value rest, hexDigits count chars = .ok (value, rest) → value.toNat < 16 ^ count) ∧
      (∀ reason, hexDigits count chars = .error reason ↔ reason = .truncatedEscape ∧
        (chars.length < count ∨ ∃ c ∈ chars.take count, ∀ digit, ¬ IsDigit 16 c digit))) ∧
    (∀ read count front value c digit rest, read + (count + 1) ≤ 8 →
      Numeral 16 read front value → IsDigit 16 c digit →
        hexDigits (read + (count + 1)) (front ++ c :: rest) =
          hexDigitsFrom (count + 1) (.ofNat value) (c :: rest) ∧ PutsIn value digit) ∧
    (∀ chars, InWords.readEscape chars = readEscape chars) ∧
    (∀ chars value rest, hexDigits 2 chars = .ok (value, rest) →
      value.toUInt8.toNat = value.toNat) ∧
    (∀ c first chars value rest, digit? 8 c = some first →
      octalDigitsFrom 2 first chars = .ok (value, rest) →
        (∃ digits, c :: chars = digits ++ rest ∧ Numeral 8 3 digits value.toNat) ∧
          (¬ 0o377 < value → value.toUInt8.toNat = value.toNat)) ∧
    ∀ raw literal value,
      (decode raw = .error ⟨literal, .invalidCodePoint value⟩ ↔ literal = raw ∧
        NamesCodePoint raw value ∧ ((0xD800 ≤ value ∧ value ≤ 0xDFFF) ∨ 0x10FFFF < value)) ∧
      (decode raw = .error ⟨literal, .octalOutOfRange value⟩ ↔ literal = raw ∧
        NamesOctal raw value ∧ 256 ≤ value ∧ value ≤ 511) := by
  refine ⟨fun count hcount chars ↦ ⟨fun _ _ ↦ hexDigits_eq_ok_iff hcount,
    fun _ _ ↦ lt_of_hexDigits_eq_ok hcount, fun _ ↦ hexDigits_eq_error_iff hcount⟩,
    fun read count front value c digit rest hcount hfront hdigit ↦ ?_, readEscape_eq,
    fun chars value rest h ↦ toNat_toUInt8 (lt_of_hexDigits_eq_ok (by decide) h),
    fun c first chars value rest hfirst h ↦ ⟨(octalDigits_eq_ok_iff hfirst).1 h, fun hle ↦ ?_⟩,
    fun _ _ _ ↦ ⟨decode_eq_invalidCodePoint_iff, decode_eq_octalOutOfRange_iff⟩⟩
  · exact ⟨hexDigits_append hcount hfront,
      putsIn (hfront.lt (by decide)) (by omega) hdigit.1⟩
  · refine toNat_toUInt8 ?_
    rw [UInt32.lt_iff_toNat_lt, not_lt] at hle
    exact Nat.lt_succ_of_le hle

/-- Eight times the greatest digit fills a word, three times the greatest octal digit does not fit
into a byte, and a surrogate is spelled by digits like any other number. -/
theorem numeric_escapes_are_exact_fullWord :
    hexDigits 8 "FFFFFFFF".toList = .ok (0xFFFFFFFF, []) ∧ (0xFFFFFFFF : UInt32).toNat < 16 ^ 8 ∧
      PutsIn 0xFFFFFFF 0xF ∧
      octalDigitsFrom 2 3 ['7', '7'] = .ok (255, []) ∧ (255 : UInt32).toUInt8.toNat = 255 ∧
      NamesCodePoint "\"\\uD800\"" 0xD800 ∧ NamesOctal "\"\\777\"" 511 := by
  obtain ⟨hhex, happend, -, -, hoctal, hblame⟩ := numeric_escapes_are_exact
  have hword : hexDigits 8 "FFFFFFFF".toList = .ok (0xFFFFFFFF, []) := by decide
  have hlt := (hhex 8 (by decide) "FFFFFFFF".toList).2.1 0xFFFFFFFF [] hword
  have hseven : Numeral 16 7 (List.replicate 7 'F') 0xFFFFFFF :=
    (numeral_iff (by decide)).2 (by decide)
  have hlast : IsDigit 16 'F' 0xF := (digitValue?_eq_some_iff (by decide)).1 (by decide)
  have hputs := (happend 7 0 (List.replicate 7 'F') 0xFFFFFFF 'F' 0xF [] (by decide) hseven hlast).2
  have hbyte : octalDigitsFrom 2 3 ['7', '7'] = .ok (255, []) := by decide
  have hcast := (hoctal '3' 3 ['7', '7'] 255 [] (by decide) hbyte).2 (by decide)
  have hsurrogate := ((hblame "\"\\uD800\"" "\"\\uD800\"" 0xD800).1.1 (by decide +kernel)).2.1
  have hrange := ((hblame "\"\\777\"" "\"\\777\"" 511).2.1 (by decide +kernel)).2.1
  exact ⟨hword, hlt, hputs, hbyte, hcast, hsurrogate, hrange⟩

end DoubleQuoted

end Literal

end PipelineSyntax
