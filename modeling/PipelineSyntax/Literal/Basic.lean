import PipelineSyntax.Token.Basic
import PipelineSyntax.Text.Quoted

/-!
# Faults in literals

What can be wrong with a literal, as causes: each reason names the fault and carries what
a reader needs to find it, and the wording is one function of the reason. A fault names
the literal as it is spelled.
-/

namespace PipelineSyntax

namespace Literal

/-- Why a literal stands for no text. -/
inductive Reason where
  /-- The literal does not begin and end with its delimiter. -/
  | missingDelimiters
  /-- The character after a backslash begins no escape. -/
  | unknownEscape (escape : Char)
  /-- An escape lacks a character, or has another one where a digit belongs. -/
  | truncatedEscape
  /-- The spelled value is not that of a character. -/
  | invalidCodePoint (value : Nat)
  /-- The spelled value does not fit into a byte. -/
  | octalOutOfRange (value : Nat)
  /-- A character that only an escape can bring into a literal. -/
  | unescaped (c : Char)
  /-- The bytes that the literal spells are no UTF-8. -/
  | invalidUtf8
  /-- A token of this kind is no literal. -/
  | notALiteral (kind : Token.Kind)
  deriving DecidableEq, Repr

/-- The wording of a reason. Characters are shown as they are. -/
def Reason.message : Reason → String
  | missingDelimiters => "missing delimiters"
  | unknownEscape escape => "unknown escape sequence `\\" ++ escape.toString ++ "`"
  | truncatedEscape => "truncated escape sequence"
  | invalidCodePoint value =>
    "escaped value 0x" ++ Text.hexadecimal value ++ " is not a valid character"
  | octalOutOfRange value =>
    "octal escape value 0o" ++ Text.octal value ++ " is out of range"
  | unescaped c => "unescaped `" ++ c.toString ++ "` inside literal"
  | invalidUtf8 => "escaped bytes are not valid UTF-8"
  | notALiteral kind => "token kind " ++ kind.name ++ " is not a literal"

/-- A literal that stands for no text, and why. -/
structure Fault where
  /-- The literal as it is spelled. -/
  literal : String
  /-- What is wrong with it. -/
  reason : Reason
  deriving DecidableEq, Repr

/-- The wording of a fault. -/
def Fault.message (fault : Fault) : String :=
  "invalid literal " ++ fault.literal ++ ": " ++ fault.reason.message

end Literal

end PipelineSyntax
