import PipelineSyntax.Parser.Step

/-!
# Reading from any source

What a line is read as depends on nothing but the tokens that come, and those need not be known
beforehand. Here they are given by their indices, so a line may go on for ever, and then nothing
is made of it.
-/

namespace PipelineSyntax

namespace Parser

/-- Reads the tokens from the given index on until one of them ends the line or violates the
grammar. Gives the outcome and the index behind that token. -/
def State.readOn (limit : Nat) (tokens : Nat → Token) (state : State) (index : Nat) :
    Option (Except Abort Parsed × Nat) :=
  match state.step limit (tokens index) with
  | .error abort => some (.error abort, index + 1)
  | .ok (.done parsed) => some (.ok parsed, index + 1)
  | .ok (.more next) => next |>.readOn limit tokens (index + 1)
partial_fixpoint

/-- Reads one line. Gives the outcome and how many tokens it has taken. -/
def readFrom (limit : Nat) (tokens : Nat → Token) : Option (Except Abort Parsed × Nat) :=
  (State.start (tokens 0).offset).readOn limit tokens 0

end Parser

end PipelineSyntax
