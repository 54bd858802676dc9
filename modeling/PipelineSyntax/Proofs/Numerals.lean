import Mathlib.Data.Nat.Digits.Lemmas
import PipelineSyntax.Literal.DoubleQuoted

/-!
# Numerals in escapes

An escape by value takes a fixed number of digits. What they are is said here without the reader:
a digit is a character that core prints for a value, in either case (`IsDigit`), and the value of a
row of digits is `Nat.ofDigits` (`Numeral`).

Reading digits takes the numeral that the text begins with, digits behind it or not
(`readDigits?_zero_eq_some_iff`), and an escape is truncated exactly if the text lacks one.
-/

namespace PipelineSyntax

namespace Literal

namespace DoubleQuoted

/-! ### Digits and numerals -/

/-- The character is the digit of the given value; letters count in either case. -/
def IsDigit (base : Nat) (c : Char) (value : Nat) : Prop :=
  value < base ∧ (c = Nat.digitChar value ∨ c = (Nat.digitChar value).toUpper)

/-- The characters are exactly `count` digits, and the value is the number they write, with the
highest digit first. -/
def Numeral (base count : Nat) (chars : List Char) (value : Nat) : Prop :=
  ∃ digits, List.Forall₂ (IsDigit base) chars digits ∧ digits.length = count ∧
    Nat.ofDigits base digits.reverse = value

/-- No numeral of `count` digits begins the text: one of them is missing or is no digit. -/
def LacksNumeral (base count : Nat) (chars : List Char) : Prop :=
  ∀ front back value, chars = front ++ back → ¬ Numeral base count front value

variable {base count value : Nat} {c : Char} {chars front rest : List Char}

theorem digitValue?_sixteen :
    digitValue? 16 c = some value ↔ value < 16 ∧
      (c = Nat.digitChar value ∨ c = (Nat.digitChar value).toUpper) := by
  constructor
  · intro h
    obtain ⟨h, hlt⟩ := Option.filter_eq_some_iff.1 h
    have hlt : value < 16 := by simpa using hlt
    have hdecimal : ∀ v < 10, Nat.digitChar v = Char.ofNat (v + 48) := by decide
    have hlower : ∀ v < 16, 10 ≤ v → Nat.digitChar v = Char.ofNat (v + 87) := by decide
    have hupper : ∀ v < 16, 10 ≤ v → (Nat.digitChar v).toUpper = Char.ofNat (v + 55) := by decide
    refine ⟨hlt, ?_⟩
    rw [← Char.ofNat_toNat c]
    split at h
    · rename_i hrange
      have hfrom : 48 ≤ c.toNat := hrange.1
      have hto : c.toNat ≤ 57 := hrange.2
      have hvalue : c.toNat - 48 = value := by simpa using h
      left
      rw [hdecimal value (by omega), ← hvalue, Nat.sub_add_cancel hfrom]
    · split at h
      · rename_i hrange
        have hfrom : 97 ≤ c.toNat := hrange.1
        have hvalue : c.toNat - 97 + 10 = value := by simpa using h
        have hsum : c.toNat - 97 + 10 + 87 = c.toNat := by omega
        left
        rw [hlower value hlt (by omega), ← hvalue, hsum]
      · split at h
        · rename_i hrange
          have hfrom : 65 ≤ c.toNat := hrange.1
          have hvalue : c.toNat - 65 + 10 = value := by simpa using h
          have hsum : c.toNat - 65 + 10 + 55 = c.toNat := by omega
          right
          rw [hupper value hlt (by omega), ← hvalue, hsum]
        · cases h
  · have hvalues : ∀ v < 16, digitValue? 16 (Nat.digitChar v) = some v ∧
        digitValue? 16 (Nat.digitChar v).toUpper = some v := by decide
    rintro ⟨hlt, rfl | rfl⟩
    · exact (hvalues value hlt).1
    · exact (hvalues value hlt).2

theorem digitValue?_eq_some_iff (hbase : base ≤ 16) :
    digitValue? base c = some value ↔ IsDigit base c value := by
  have hsixteen : digitValue? base c = some value ↔
      value < base ∧ digitValue? 16 c = some value := by
    simp only [digitValue?, Option.filter_eq_some_iff, decide_eq_true_eq]
    constructor
    · rintro ⟨h, hlt⟩
      exact ⟨hlt, h, by omega⟩
    · rintro ⟨hlt, h, -⟩
      exact ⟨h, hlt⟩
  rw [hsixteen, digitValue?_sixteen, IsDigit]
  constructor
  · rintro ⟨hlt, -, h⟩
    exact ⟨hlt, h⟩
  · rintro ⟨hlt, h⟩
    exact ⟨hlt, by omega, h⟩

/-- Reading digits takes as many as it was asked for, and goes on from the value it was given. -/
theorem readDigits?_eq_some_iff (hbase : base ≤ 16) {start : Nat} :
    readDigits? base count start chars = some (value, rest) ↔
      ∃ front digits, chars = front ++ rest ∧ List.Forall₂ (IsDigit base) front digits ∧
        digits.length = count ∧ digits.foldl (fun v d ↦ v * base + d) start = value := by
  induction count generalizing start chars with
  | zero =>
    constructor
    · rintro ⟨⟩
      exact ⟨[], [], rfl, .nil, rfl, rfl⟩
    · rintro ⟨front, digits, rfl, hdigits, hlength, rfl⟩
      obtain rfl := List.length_eq_zero_iff.1 hlength
      obtain rfl := List.forall₂_nil_right_iff.1 hdigits
      rfl
  | succ count ih =>
    constructor
    · intro h
      rcases chars with _ | ⟨c, chars⟩
      · cases h
      · rw [readDigits?] at h
        split at h
        · cases h
        · rename_i digit hdigit
          obtain ⟨front, digits, rfl, hdigits, rfl, hvalue⟩ := ih.1 h
          have hfirst := (digitValue?_eq_some_iff hbase).1 hdigit
          exact ⟨c :: front, digit :: digits, rfl, .cons hfirst hdigits, rfl, hvalue⟩
    · rintro ⟨front, digits, rfl, hdigits, hlength, hvalue⟩
      rcases hdigits with _ | @⟨c, digit, front, digits, hfirst, hdigits⟩
      · cases hlength
      · rw [List.cons_append, readDigits?, (digitValue?_eq_some_iff hbase).2 hfirst]
        exact ih.2 ⟨front, digits, rfl, hdigits, Nat.succ.inj hlength, hvalue⟩

/-- Digits are missing where the text is too short, or where something else stands in their
place. -/
theorem readDigits?_eq_none_iff (hbase : base ≤ 16) {start : Nat} :
    readDigits? base count start chars = none ↔
      chars.length < count ∨ ∃ c ∈ chars.take count, ∀ digit, ¬ IsDigit base c digit := by
  induction count generalizing start chars with
  | zero => simp [readDigits?]
  | succ count ih =>
    rcases chars with _ | ⟨c, chars⟩
    · simp [readDigits?]
    · have hdigit (digit : Nat) := @digitValue?_eq_some_iff base digit c hbase
      cases hvalue : digitValue? base c with
      | none => simp [readDigits?, hvalue, ← hdigit]
      | some digit =>
        have hfirst : ¬ ∀ digit, ¬ IsDigit base c digit :=
          not_forall_not.2 ⟨digit, (hdigit digit).1 hvalue⟩
        simp [readDigits?, hvalue, ih, hfirst]

/-- Reading digits can be interrupted behind any of them. -/
theorem readDigits?_append (hbase : base ≤ 16) {digits : List Nat}
    (h : List.Forall₂ (IsDigit base) front digits) {start : Nat} :
    readDigits? base (digits.length + count) start (front ++ rest) =
      readDigits? base count (digits.foldl (fun v d ↦ v * base + d) start) rest := by
  induction h generalizing start with
  | nil => simp
  | @cons c digit front digits hfirst _ ih =>
    rw [List.length_cons, Nat.add_right_comm, List.cons_append, readDigits?,
      (digitValue?_eq_some_iff hbase).2 hfirst]
    exact ih

/-- Digits are worth what they come to when they are read one after the other. -/
theorem foldl_eq_ofDigits (base : Nat) (digits : List Nat) :
    digits.foldl (fun v d ↦ v * base + d) 0 = Nat.ofDigits base digits.reverse := by
  rw [Nat.ofDigits_eq_foldr, List.foldr_reverse]
  simp only [Nat.cast_id, Nat.mul_comm base, Nat.add_comm]

theorem readDigits?_zero_eq_some_iff (hbase : base ≤ 16) :
    readDigits? base count 0 chars = some (value, rest) ↔
      ∃ front, chars = front ++ rest ∧ Numeral base count front value := by
  rw [readDigits?_eq_some_iff hbase]
  constructor
  · rintro ⟨front, digits, rfl, hdigits, hlength, hvalue⟩
    exact ⟨front, rfl, digits, hdigits, hlength, by rw [← foldl_eq_ofDigits, hvalue]⟩
  · rintro ⟨front, rfl, digits, hdigits, hlength, hvalue⟩
    exact ⟨front, digits, rfl, hdigits, hlength, by rw [foldl_eq_ofDigits, hvalue]⟩

/-- Whether characters are a numeral can be found out by reading them. -/
theorem numeral_iff (hbase : base ≤ 16) :
    Numeral base count chars value ↔ readDigits? base count 0 chars = some (value, []) := by
  simp [readDigits?_zero_eq_some_iff hbase]

/-! ### Escapes of digits -/

theorem readNumeric_of_numeral {make : Nat → Except Reason Item} (hbase : base ≤ 16)
    (h : Numeral base count front value) :
    readNumeric base count make (front ++ rest) = (make value).map fun item ↦ (item, rest) := by
  rw [readNumeric, (readDigits?_zero_eq_some_iff hbase).2 ⟨front, rfl, h⟩]

theorem readNumeric_of_lacksNumeral {make : Nat → Except Reason Item} (hbase : base ≤ 16)
    (h : LacksNumeral base count chars) :
    readNumeric base count make chars = .error .truncatedEscape := by
  have hnone : readDigits? base count 0 chars = none := by
    rw [Option.eq_none_iff_forall_ne_some]
    rintro ⟨value, rest⟩ heq
    obtain ⟨front, rfl, hnumeral⟩ := (readDigits?_zero_eq_some_iff hbase).1 heq
    exact h front rest value rfl hnumeral
  rw [readNumeric, hnone]

/-- A text begins with a numeral or lacks one. -/
theorem numeral_or_lacksNumeral (base count : Nat) (chars : List Char) :
    (∃ front rest value, chars = front ++ rest ∧ Numeral base count front value) ∨
      LacksNumeral base count chars := by
  by_cases h : ∃ front rest value, chars = front ++ rest ∧ Numeral base count front value
  · exact .inl h
  · exact .inr fun front rest value hchars hnumeral ↦ h ⟨front, rest, value, hchars, hnumeral⟩

theorem lt_of_forall₂_isDigit {digits : List Nat} (h : List.Forall₂ (IsDigit base) chars digits) :
    ∀ digit ∈ digits, digit < base := by
  induction h with
  | nil => exact fun _ hmem ↦ absurd hmem List.not_mem_nil
  | cons hfirst _ ih => exact List.forall_mem_cons.2 ⟨hfirst.1, ih⟩

/-- A numeral of more than no digits begins with a digit. -/
theorem Numeral.exists_first (h : Numeral base (count + 1) chars value) :
    ∃ c rest digit, chars = c :: rest ∧ IsDigit base c digit := by
  obtain ⟨digits, hdigits, hlength, -⟩ := h
  rcases hdigits with _ | @⟨c, digit, rest, _, hfirst, -⟩
  · cases hlength
  · exact ⟨c, rest, digit, rfl, hfirst⟩

theorem Numeral.length_eq (h : Numeral base count chars value) : chars.length = count := by
  obtain ⟨digits, hdigits, rfl, -⟩ := h
  exact hdigits.length_eq

theorem Numeral.lt (h : Numeral base count chars value) (hbase : 1 < base) :
    value < base ^ count := by
  obtain ⟨digits, hdigits, rfl, rfl⟩ := h
  rw [← List.length_reverse]
  refine Nat.ofDigits_lt_base_pow_length hbase fun digit hmem ↦ ?_
  exact lt_of_forall₂_isDigit hdigits digit (List.mem_reverse.1 hmem)

end DoubleQuoted

end Literal

end PipelineSyntax
