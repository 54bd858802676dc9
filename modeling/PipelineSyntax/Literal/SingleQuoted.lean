import PipelineSyntax.Literal.Basic

/-!
# Single-quoted literals

The first character of such a literal is its delimiter, whatever it is, and the last one
must be the same. Between them a pair of delimiters stands for one delimiter; nothing else
is special, and a delimiter without a partner stands for itself.
-/

namespace PipelineSyntax

namespace Literal

namespace SingleQuoted

/-- Appends to `out` what the inner characters stand for. Pairs are formed from the left,
so of an odd run of delimiters the last one stays alone. -/
def collapse (delimiter : Char) (out : String) : List Char → String
  | [] => out
  | [c] => out.push c
  | c :: d :: rest =>
    if c = delimiter ∧ d = delimiter then collapse delimiter (out.push delimiter) rest
    else collapse delimiter (out.push c) (d :: rest)

/-- The delimiter of a literal and the characters between its two delimiters, unless one of
the two is missing. One character cannot be both of them. -/
def split? (raw : String) : Option (Char × List Char) :=
  match raw.toList with
  | [] => none
  | delimiter :: rest =>
    if rest.getLast? = some delimiter then some (delimiter, rest.dropLast) else none

/-- The text that a single-quoted literal stands for. -/
def decode (raw : String) : Except Fault String :=
  match split? raw with
  | none => .error ⟨raw, .missingDelimiters⟩
  | some (delimiter, inner) => .ok (collapse delimiter "" inner)

end SingleQuoted

end Literal

end PipelineSyntax
