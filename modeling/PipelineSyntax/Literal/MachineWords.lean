import PipelineSyntax.Literal.DoubleQuoted

/-!
# Escapes by value in machine words

The values of escapes fit into words of 32 bits, and can be put together in them digit by digit.
This is the reading of escapes with nothing but such words, where every operation may come to more
than a word holds:

* hexadecimal digits are put in by checked operations. If one of them failed, the value in front
  of it would be blamed for being no character;
* octal digits are put in without a check, and a sum that is too great would wrap around;
* a byte is what the lowest eight bits of a word are, whatever the others are.
-/

namespace PipelineSyntax

namespace Literal

namespace DoubleQuoted

namespace InWords

/-! ### Words -/

/-- The product of two words, if it is a word. -/
def checkedMul? (a b : UInt32) : Option UInt32 :=
  if a.toNat * b.toNat < UInt32.size then some (a * b) else none

/-- The sum of two words, if it is a word. -/
def checkedAdd? (a b : UInt32) : Option UInt32 :=
  if a.toNat + b.toNat < UInt32.size then some (a + b) else none

/-- The value of a digit as a word. -/
def digit? (base : Nat) (c : Char) : Option UInt32 :=
  (digitValue? base c).map UInt32.ofNat

/-! ### Digits -/

/-- Reads exactly `count` hexadecimal digits and goes on from `value`. -/
def hexDigitsFrom : (count : Nat) → (value : UInt32) → List Char →
    Except Reason (UInt32 × List Char)
  | 0, value, rest => .ok (value, rest)
  | _ + 1, _, [] => .error .truncatedEscape
  | count + 1, value, c :: rest =>
    match digit? 16 c with
    | none => .error .truncatedEscape
    | some digit =>
      match (checkedMul? value 16).bind fun shifted ↦ checkedAdd? shifted digit with
      | none => .error (.invalidCodePoint value.toNat)
      | some value => hexDigitsFrom count value rest

/-- Reads exactly `count` hexadecimal digits. -/
def hexDigits (count : Nat) (chars : List Char) : Except Reason (UInt32 × List Char) :=
  hexDigitsFrom count 0 chars

/-- Reads exactly `count` octal digits and goes on from `value`. -/
def octalDigitsFrom : (count : Nat) → (value : UInt32) → List Char →
    Except Reason (UInt32 × List Char)
  | 0, value, rest => .ok (value, rest)
  | _ + 1, _, [] => .error .truncatedEscape
  | count + 1, value, c :: rest =>
    match digit? 8 c with
    | none => .error .truncatedEscape
    | some digit => octalDigitsFrom count (value * 8 + digit) rest

/-! ### Escapes -/

/-- The item of two hexadecimal digits, which are taken to make a byte. -/
def hexItem (value : UInt32) : Except Reason Item :=
  .ok (.byte value.toUInt8)

/-- The item of three octal digits, if they make a byte. -/
def octalItem (value : UInt32) : Except Reason Item :=
  if 0o377 < value then .error (.octalOutOfRange value.toNat) else .ok (.byte value.toUInt8)

/-- The item of a code point, if it is that of a character. -/
def charItem (value : UInt32) : Except Reason Item :=
  if h : value.isValidChar then .ok (.char ⟨value, h⟩) else .error (.invalidCodePoint value.toNat)

/-- Makes an item of the value that has been read. -/
def makeItem (item : UInt32 → Except Reason Item) (digits : Except Reason (UInt32 × List Char)) :
    Except Reason (Item × List Char) := do
  let (value, rest) ← digits
  let item ← item value
  return (item, rest)

/-- Reads an escape behind its backslash: its item, and the characters after it. -/
def readEscape : List Char → Except Reason (Item × List Char)
  | [] => .error .truncatedEscape
  | c :: rest =>
    match namedChar? c with
    | some named => .ok (.char named, rest)
    | none =>
      if c = 'x' then makeItem hexItem (hexDigits 2 rest)
      else if c = 'u' ∨ c = 'U' then
        makeItem charItem (hexDigits (if c = 'u' then 4 else 8) rest)
      else
        match digit? 8 c with
        | none => .error (.unknownEscape c)
        | some first => makeItem octalItem (octalDigitsFrom 2 first rest)

end InWords

end DoubleQuoted

end Literal

end PipelineSyntax
