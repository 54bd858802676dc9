import PipelineSyntax.Tree.Json

/-!
# What reading a line gives

The tree of the line, and a hint for whoever completes it: the last literal that entered
the tree, if the lexer could not tell whether it was complete.
-/

namespace PipelineSyntax

/-- A literal that more input could lengthen. -/
structure Hint where
  /-- Where the literal begins. -/
  offset : Nat
  /-- The literal as it is spelled. -/
  raw : String
  /-- The text it stands for so far. -/
  text : String
  deriving DecidableEq, Repr

/-- A line that has been read. -/
structure Parsed where
  /-- The pipeline; its nodes are commands. -/
  root : Sequence Node
  /-- The hint that the line ends with. -/
  hint : Option Hint

/-- A hint as a JSON object. -/
def Hint.toJson (hint : Hint) : Json :=
  .object [("offset", .number hint.offset), ("raw", .string hint.raw),
    ("text", .string hint.text)]

/-- A line that has been read as a JSON object; a missing hint is null. -/
def Parsed.toJson (parsed : Parsed) : Json :=
  .object [("root", parsed.root.toJson),
    ("context", match parsed.hint with
      | none => .null
      | some hint => hint.toJson)]

end PipelineSyntax
