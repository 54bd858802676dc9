import PipelineSyntax.Json.Basic
import PipelineSyntax.Token.Basic

/-!
# Tokens as JSON
-/

namespace PipelineSyntax

/-- A token as a JSON object. -/
def Token.toJson (token : Token) : Json :=
  .object [("kind", .string token.kind.name), ("text", .string token.text),
    ("offset", .number token.offset), ("may_continue", .bool token.mayContinue)]

end PipelineSyntax
