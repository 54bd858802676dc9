import PipelineSyntax.Text.Hidden

/-!
# Quoted text

How a message shows a text that it cannot trust to be readable: in double quotes, with
everything that would be misread written as an escape. A single quote needs none.
-/

namespace PipelineSyntax

namespace Text

/-- A number in lower-case hexadecimal digits, without leading zeros. -/
def hexadecimal (n : Nat) : String :=
  String.ofList (Nat.toDigits 16 n)

/-- A number in octal digits, without leading zeros. -/
def octal (n : Nat) : String :=
  String.ofList (Nat.toDigits 8 n)

/-- One character as it stands between the quotes. -/
def quotedChar (c : Char) : String :=
  match c with
  | '\x00' => "\\0"
  | '\t' => "\\t"
  | '\r' => "\\r"
  | '\n' => "\\n"
  | '"' => "\\\""
  | '\\' => "\\\\"
  | c =>
    if isHidden c then "\\u\x7b" ++ hexadecimal c.toNat ++ "\x7d" else String.singleton c

/-- A text in double quotes, in which every character can be told from its escape. -/
def quoted (text : String) : String :=
  "\"" ++ String.join (text.toList.map quotedChar) ++ "\""

end Text

end PipelineSyntax
