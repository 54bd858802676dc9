import PipelineSyntax.Literal.SingleQuoted
import PipelineSyntax.Literal.DoubleQuoted

/-!
# Literals

The text that a token stands for. A bare word stands for itself; the two quoted kinds are
decoded by their own rules; a token of any other kind is no literal.
-/

namespace PipelineSyntax

/-- The text that a token stands for as a literal. -/
def Token.decode (token : Token) : Except Literal.Fault String :=
  match token.kind with
  | .bare => .ok token.text
  | .singleQuoted => Literal.SingleQuoted.decode token.text
  | .doubleQuoted => Literal.DoubleQuoted.decode token.text
  | kind => .error ⟨token.text, .notALiteral kind⟩

end PipelineSyntax
