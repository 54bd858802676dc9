import PipelineSyntax.Literal.Basic

/-!
# Double-quoted literals

The text between two double quotes is a row of items, read from left to right: a character
that stands for itself, or a backslash escape. An escape may name a character or a single
byte, so what a literal spells is at first only a row of bytes; whether they are UTF-8 is
asked once, when all items have been read. All other faults are local to an item, and the
leftmost one is reported.

* `\a \b \f \n \r \t \v \\ \"` name one character each;
* `\xHH` and `\ooo` name a byte, by two hexadecimal or three octal digits;
* `\uHHHH` and `\UHHHHHHHH` name a character by its code point.
-/

namespace PipelineSyntax

namespace Literal

namespace DoubleQuoted

/-! ### Items -/

/-- What one item of a literal stands for. -/
inductive Item where
  /-- A byte spelled by its value. -/
  | byte (value : UInt8)
  /-- A character, written as it is or named by an escape. -/
  | char (c : Char)
  deriving DecidableEq, Repr

/-- The bytes that an item adds to the text. -/
def Item.bytes : Item → ByteArray
  | byte value => [value].toByteArray
  | char c => (String.singleton c).toByteArray

/-- The value of a digit in a base of at most sixteen; letters count in either case. -/
def digitValue? (base : Nat) (c : Char) : Option Nat :=
  let value? :=
    if '0' ≤ c ∧ c ≤ '9' then some (c.toNat - '0'.toNat)
    else if 'a' ≤ c ∧ c ≤ 'f' then some (c.toNat - 'a'.toNat + 10)
    else if 'A' ≤ c ∧ c ≤ 'F' then some (c.toNat - 'A'.toNat + 10)
    else none
  value?.filter fun value ↦ value < base

/-- Reads exactly `count` digits and goes on from `value`; `none` where one of them is
missing. -/
def readDigits? (base : Nat) : (count value : Nat) → List Char → Option (Nat × List Char)
  | 0, value, rest => some (value, rest)
  | _ + 1, _, [] => none
  | count + 1, value, c :: rest =>
    match digitValue? base c with
    | none => none
    | some digit => readDigits? base count (value * base + digit) rest

/-- The character that a one-letter escape names. -/
def namedChar? : Char → Option Char
  | 'a' => some '\x07'
  | 'b' => some '\x08'
  | 'f' => some '\x0c'
  | 'n' => some '\n'
  | 'r' => some '\r'
  | 't' => some '\t'
  | 'v' => some '\x0b'
  | '\\' => some '\\'
  | '"' => some '"'
  | _ => none

/-- The item of a byte escape whose value has been read. Two hexadecimal digits always fit
into a byte, three octal ones may not. -/
def byteItem (value : Nat) : Except Reason Item :=
  if value < 256 then .ok (.byte (UInt8.ofNat value)) else .error (.octalOutOfRange value)

/-- The item of a code-point escape whose value has been read. -/
def codePointItem (value : Nat) : Except Reason Item :=
  if value.isValidChar then .ok (.char (Char.ofNat value)) else .error (.invalidCodePoint value)

/-- Reads the digits of an escape and makes its item of their value. -/
def readNumeric (base count : Nat) (item : Nat → Except Reason Item) (chars : List Char) :
    Except Reason (Item × List Char) :=
  match readDigits? base count 0 chars with
  | none => .error .truncatedEscape
  | some (value, rest) => (item value).map fun item ↦ (item, rest)

/-- Reads an escape behind its backslash: its item, and the characters after it. The first
digit of an octal escape is also what tells that it is one. -/
def readEscape : List Char → Except Reason (Item × List Char)
  | [] => .error .truncatedEscape
  | c :: rest =>
    match namedChar? c with
    | some named => .ok (.char named, rest)
    | none =>
      if c = 'x' then readNumeric 16 2 byteItem rest
      else if c = 'u' then readNumeric 16 4 codePointItem rest
      else if c = 'U' then readNumeric 16 8 codePointItem rest
      else if (digitValue? 8 c).isSome then readNumeric 8 3 byteItem (c :: rest)
      else .error (.unknownEscape c)

/-! ### An item uses up what it spells -/

theorem length_of_readDigits? {base count value result : Nat} {chars rest : List Char}
    (h : readDigits? base count value chars = some (result, rest)) :
    chars.length = count + rest.length := by
  fun_induction readDigits? base count value chars with
  | case1 => simp_all
  | case2 => simp at h
  | case3 => simp at h
  | case4 count value c chars digit _ ih => have := ih h; simp; omega

theorem length_of_readNumeric {base count : Nat} {make : Nat → Except Reason Item}
    {chars rest : List Char} {item : Item}
    (h : readNumeric base count make chars = .ok (item, rest)) :
    chars.length = count + rest.length := by
  unfold readNumeric at h
  split at h
  · cases h
  · rename_i value tail heq
    cases hv : make value with
    | error _ => simp [hv, Except.map] at h
    | ok _ =>
      simp only [hv, Except.map, Except.ok.injEq, Prod.mk.injEq] at h
      rw [← h.2]
      exact length_of_readDigits? heq

/-- Reading an escape leaves less than it was given. -/
theorem length_lt_of_readEscape {chars rest : List Char} {item : Item}
    (h : readEscape chars = .ok (item, rest)) : rest.length < chars.length := by
  unfold readEscape at h
  split at h
  · cases h
  · rename_i c tail
    split at h
    · simp only [Except.ok.injEq, Prod.mk.injEq] at h
      simp [h.2]
    · have hc : (c :: tail).length = tail.length + 1 := rfl
      split at h
      · have := length_of_readNumeric h; omega
      · split at h
        · have := length_of_readNumeric h; omega
        · split at h
          · have := length_of_readNumeric h; omega
          · split at h
            · have := length_of_readNumeric h; omega
            · cases h

/-! ### The whole literal -/

/-- Reads the items of a literal and appends their bytes to `out`. -/
def readItems (out : ByteArray) : List Char → Except Reason ByteArray
  | [] => .ok out
  | c :: rest =>
    if c = '\\' then
      match _h : readEscape rest with
      | .error reason => .error reason
      | .ok (item, rest) => readItems (out ++ item.bytes) rest
    else if c = '"' ∨ c = '\n' then .error (.unescaped c)
    else readItems (out ++ (Item.char c).bytes) rest
  termination_by chars => chars.length
  decreasing_by
    · have := length_lt_of_readEscape _h
      simp only [List.length_cons]
      omega
    · simp

/-- The characters between the two quotes, unless one of them is missing. One character
cannot be both of them. -/
def inner? (raw : String) : Option (List Char) :=
  match raw.toList with
  | '"' :: rest => if rest.getLast? = some '"' then some rest.dropLast else none
  | _ => none

/-- The text that the items between the quotes spell. -/
def decodeItems (inner : List Char) : Except Reason String :=
  match readItems .empty inner with
  | .error reason => .error reason
  | .ok bytes =>
    match String.fromUTF8? bytes with
    | none => .error .invalidUtf8
    | some text => .ok text

/-- Whether a character stands for itself between the quotes. -/
def isPlain (c : Char) : Bool :=
  c ≠ '\\' && c ≠ '"' && c ≠ '\n'

/-- The text that the characters between the quotes stand for. Where all of them stand for
themselves there is nothing to read. -/
def decodeInner (inner : List Char) : Except Reason String :=
  if inner.all isPlain then .ok (String.ofList inner) else decodeItems inner

/-- The text that a double-quoted literal stands for. -/
def decode (raw : String) : Except Fault String :=
  match inner? raw with
  | none => .error ⟨raw, .missingDelimiters⟩
  | some inner => (decodeInner inner).mapError fun reason ↦ ⟨raw, reason⟩

end DoubleQuoted

end Literal

end PipelineSyntax
