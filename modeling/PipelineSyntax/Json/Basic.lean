/-!
# JSON texts

The values of JSON that trees are written in, and their compact text: no blanks, fields
in the order they are given, numbers in decimal.

Between quotes only what JSON requires is escaped: the quote, the backslash and the
controls below the blank, five of which have an escape of their own. Every other
character stands as it is.
-/

namespace PipelineSyntax

/-- A JSON value. Numbers are natural numbers, and the order of an object's fields is part
of the value. -/
inductive Json where
  | null
  | bool (value : Bool)
  | number (value : Nat)
  | string (value : String)
  | array (items : List Json)
  | object (fields : List (String × Json))

namespace Json

/-- One character as it stands in a JSON string. -/
def escapedChar (c : Char) : List Char :=
  match c with
  | '"' => ['\\', '"']
  | '\\' => ['\\', '\\']
  | '\x08' => ['\\', 'b']
  | '\x0c' => ['\\', 'f']
  | '\n' => ['\\', 'n']
  | '\r' => ['\\', 'r']
  | '\t' => ['\\', 't']
  | c =>
    if c.toNat < 0x20 then
      ['\\', 'u', '0', '0', Nat.digitChar (c.toNat / 16), Nat.digitChar (c.toNat % 16)]
    else [c]

/-- A text as a JSON string, quotes included. -/
def quote (text : String) : String :=
  "\"" ++ String.ofList (text.toList.flatMap escapedChar) ++ "\""

mutual

/-- The compact text of a value. -/
def text : Json → String
  | .null => "null"
  | .bool value => if value then "true" else "false"
  | .number value => toString value
  | .string value => quote value
  | .array items => "[" ++ ",".intercalate (texts items) ++ "]"
  | .object fields => "\x7b" ++ ",".intercalate (fieldTexts fields) ++ "\x7d"
termination_by structural value => value

/-- The compact texts of the items of an array. -/
def texts : List Json → List String
  | [] => []
  | item :: items => item.text :: texts items

/-- The compact texts of the fields of an object. -/
def fieldTexts : List (String × Json) → List String
  | [] => []
  | (key, value) :: fields => (quote key ++ ":" ++ value.text) :: fieldTexts fields

end

/-- A value under a tag, which is how one of several forms is written. -/
def tagged (tag : String) (value : Json) : Json :=
  .object [(tag, value)]

end Json

end PipelineSyntax
