import PipelineSyntax.Diagnostic
import PipelineSyntax.Parser.Step
import PipelineSyntax.Token.Cursor

/-!
# Parsers

A parser reads one line of a stream: the tokens up to the first one that ends the line, or
up to the first violation, and no token more. It gives the tree of the line or a single
diagnostic, never a part of a tree, and the stream behind the tokens it has taken, from
which the next line can be read.

The grammar sees nothing but the tokens; the text serves diagnostics alone.
-/

namespace PipelineSyntax

/-- A parser for lines of one script. -/
structure Parser where
  /-- The name of the script, for diagnostics. -/
  name : String
  /-- How deep groups and tables may be nested. -/
  maxDepth : Nat := 256
  deriving DecidableEq, Repr

namespace Parser

/-- Reads tokens from a cursor until one of them ends the line or violates the grammar. At
most `fuel` of them may leave the line open; as many as remain in front of the end of the
input are enough, because that end always ends a line. -/
def State.run (limit : Nat) :
    (fuel : Nat) → State → Cursor → Except Abort Parsed × Cursor
  | fuel, state, cursor =>
    let (token, cursor) := cursor.next
    match state.step limit token with
    | .error abort => (.error abort, cursor)
    | .ok (.done parsed) => (.ok parsed, cursor)
    | .ok (.more state) =>
      match fuel with
      | 0 => (.error ⟨token.offset, .internal "the input ends inside a line"⟩, cursor)
      | fuel + 1 => state.run limit fuel cursor

/-- Reads one line of a stream under the given limit. -/
def readLine (limit : Nat) (stream : TokenStream) : Except Abort Parsed × TokenStream :=
  let (first, cursor) := (Cursor.ofStream stream).peek
  let (outcome, cursor) := (State.start first.offset).run limit cursor.remaining cursor
  (outcome, cursor.stream)

/-- Reads one line of a stream that was cut from the given text. -/
def parse (parser : Parser) (text : String) (stream : TokenStream) :
    Except Diagnostic Parsed × TokenStream :=
  let (outcome, stream) := readLine parser.maxDepth stream
  (outcome.mapError (Diagnostic.ofAbort parser.name text), stream)

/-- Reads the given number of lines one after the other, whatever the outcome of each. -/
def parseLines (parser : Parser) (text : String) :
    Nat → TokenStream → List (Except Diagnostic Parsed) × TokenStream
  | 0, stream => ([], stream)
  | count + 1, stream =>
    let (outcome, stream) := parser.parse text stream
    let (outcomes, stream) := parser.parseLines text count stream
    (outcome :: outcomes, stream)

end Parser

end PipelineSyntax
