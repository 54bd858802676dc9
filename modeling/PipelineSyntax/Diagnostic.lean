import PipelineSyntax.Abort
import PipelineSyntax.Text.Cut

/-!
# Diagnostics

An abort knows only an offset. A diagnostic sets it into the script: the script's name, the
text cut at the offset, and the cause. Everything that is shown, the offset on a character
boundary, line and column, the line itself and the caret under it, is read off the cut.
-/

namespace PipelineSyntax

/-- The messages of a cause and of the fault behind it. A bad literal and a limit are
faults of their own and speak for their cause, so their message comes twice. -/
def Cause.chain (cause : Cause) : List String :=
  match cause with
  | .literal _ | .depth _ => [cause.message, cause.message]
  | _ => [cause.message]

/-- An abort set into the script it was met in. -/
structure Diagnostic where
  /-- The name of the script. -/
  name : String
  /-- The text of the script, cut where the violation is. -/
  cut : Text.Cut
  /-- What is wrong there. -/
  cause : Cause
  deriving DecidableEq, Repr

namespace Diagnostic

/-- Sets an abort into the script of the given name and text. -/
def ofAbort (name text : String) (abort : Abort) : Diagnostic :=
  ⟨name, .ofOffset text abort.offset, abort.cause⟩

/-- The whole text of the script. -/
def text (diagnostic : Diagnostic) : String :=
  String.ofList (diagnostic.cut.before.reverse ++ diagnostic.cut.after)

/-- Where the violation is: a byte offset on a character boundary of the text. -/
def offset (diagnostic : Diagnostic) : Nat :=
  diagnostic.cut.offset

/-- The line of the violation, counted from one. -/
def line (diagnostic : Diagnostic) : Nat :=
  diagnostic.cut.line

/-- The column of the violation, counted in characters from one. -/
def column (diagnostic : Diagnostic) : Nat :=
  diagnostic.cut.column

/-- What is wrong, without a place. -/
def message (diagnostic : Diagnostic) : String :=
  diagnostic.cause.message

/-- The message behind the name of the script and the place in it. -/
def display (diagnostic : Diagnostic) : String :=
  diagnostic.name ++ ":" ++ toString diagnostic.line ++ ":" ++ toString diagnostic.column ++
    ": " ++ diagnostic.message

/-- The line of the violation, without its line ending. -/
def sourceLine (diagnostic : Diagnostic) : String :=
  String.ofList diagnostic.cut.lineText

/-- What stands to the left of the caret: as many blanks as columns come first, and tabs
under tabs, so that the caret keeps its place however wide a tab is. It ends with the
line, where the column lies behind it. -/
def pad (diagnostic : Diagnostic) : String :=
  let before := diagnostic.cut.lineText.take (diagnostic.column - 1)
  String.ofList (before.map fun c ↦ if c = '\t' then '\t' else ' ')

/-- The message, the line it is about, and a caret under the column. -/
def render (diagnostic : Diagnostic) : String :=
  diagnostic.display ++ "\n  " ++ diagnostic.sourceLine ++ "\n  " ++ diagnostic.pad ++ "^"

/-- A diagnostic keeps the text that it was made from. -/
@[simp]
theorem text_ofAbort (name text : String) (abort : Abort) :
    (ofAbort name text abort).text = text := by
  simp [Diagnostic.text, ofAbort, Text.Cut.ofOffset_text]

end Diagnostic

end PipelineSyntax
