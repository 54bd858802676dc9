import PipelineSyntax.Parser.State
import PipelineSyntax.Redirection.Leader

/-!
# Reading one token

The grammar, as what each token makes of a state:

```text
Line     = [ Command { '|' Command } ] ( end of line | end of input )
Command  = Term { Term } { leader [ Term ] }
Term     = Factor { Factor | '^' Factor }
Factor   = { '$' } ( literal | '(' Term { Term } ')' | '[' { Term [ '=' Term ] } ']' )
```

Blanks may stand before a term, around a caret, around the `=` of a pair, and before or
behind a redirection and its target. They separate terms: a factor that follows another
one without a caret must follow it at once to belong to the same term. None may stand
behind a dollar.

Every token is looked at once. A token that does not continue a term ends it, and is then
read by what the term belongs to: the innermost bracket, or the line.

The first violation ends the reading. It lies at the token that was given, whatever its
cause: a token that does not fit, a literal that does not decode, a leader that says
nothing, or a bracket that would be nested too deep.
-/

namespace PipelineSyntax

namespace Parser

/-- The hint that a literal leaves: none, unless more input could lengthen it. -/
def hintOf (token : Token) (text : String) : Option Hint :=
  if token.mayContinue then some ⟨token.offset, token.text, text⟩ else none

namespace State

/-! ### Beginning a factor -/

/-- Goes inside a bracket, unless as many are open already as the limit allows. Where a
primary stands, every bracket around it lies on the stack. -/
def enter (limit : Nat) (state : State) (token : Token) (inside : State) : Except Abort State :=
  if state.stack.length < limit then .ok inside else .error ⟨token.offset, .depth limit⟩

/-- Reads a token where a primary, or another dollar, must stand. -/
def readPrimary (limit : Nat) (state : State) (place : Place) (token : Token) :
    Except Abort State :=
  match token.kind with
  | .dollar => .ok { state with expect := .primary place.addDollar }
  | .bare | .singleQuoted | .doubleQuoted =>
    match token.decode with
    | .error fault => .error ⟨token.offset, .literal fault⟩
    | .ok text =>
      let literal := Node.string token.offset token.text text
      .ok { state with expect := .more (place.fill literal) false, hint := hintOf token text }
  | .leftParen =>
    state.enter limit token
      { state with stack := ⟨place, .group []⟩ :: state.stack, expect := .term }
  | .leftBracket => state.enter limit token { state with expect := .table place }
  | _ => .error (.unexpected token Production.factor.name)

/-- Reads a token where a term must begin. -/
def readTerm (limit : Nat) (state : State) (token : Token) : Except Abort State :=
  state.readPrimary limit (.start token.offset) token

/-! ### Between terms -/

/-- Reads a token where an element of a table, or its end, must stand. -/
def readElement (limit : Nat) (state : State) (place : Place) (table : OpenTable)
    (token : Token) : Except Abort State :=
  if token.kind.startsFactor then
    { state with stack := ⟨place, .table table none⟩ :: state.stack }.readTerm limit token
  else
    match token.kind with
    | .space => .ok { state with expect := .element place table }
    | .rightBracket => .ok { state with expect := .more (place.fill table.close) false }
    | _ => .error (.unexpected token Production.table.name)

/-- Reads a token where a redirection, or the end of a command, must stand. -/
def readTail (state : State) (token : Token) : Except Abort Progress :=
  match token.kind with
  | .leader =>
    match Leader.ofToken token with
    | .error abort => .error abort
    | .ok (.target fd mode) =>
      .ok (.more { state with
        line := { state.line with target := some (fd, mode) }, expect := .term })
    | .ok (.duplicate fd old) =>
      .ok (.more { state with line := state.line.redirect (.duplicate fd old), expect := .tail })
    | .ok (.close fd) =>
      .ok (.more { state with line := state.line.redirect (.close fd), expect := .tail })
  | .pipe => .ok (.more { state with line := state.line.endCommand, expect := .term })
  | .endOfLine | .endOfInput => .ok (.done ⟨state.line.endCommand.pipeline, state.hint⟩)
  | _ => .error (.unexpected token Production.pipeline.name)

/-- Ends a term that lies in no bracket and reads the token behind it. The term is the
target of a redirection if one has been waiting for it, and an argument otherwise; no
argument can follow a redirection. -/
def endLineTerm (limit : Nat) (state : State) (term : OpenTerm) (token : Token) :
    Except Abort Progress :=
  match state.line.target with
  | some (fd, mode) =>
    { state with line := state.line.redirect (.file fd mode term.sequence) }.readTail token
  | none =>
    let state := { state with line := state.line.addArg term.close }
    if token.kind.startsFactor then (state.readTerm limit token).map .more
    else state.readTail token

/-- Ends a term and reads the token behind it, which is no blank. -/
def endTerm (limit : Nat) (state : State) (term : OpenTerm) (token : Token) :
    Except Abort Progress :=
  match state.stack with
  | [] => state.endLineTerm limit term token
  | ⟨place, .group terms⟩ :: stack =>
    let terms := term.close :: terms
    if token.kind.startsFactor then
      ({ state with stack := ⟨place, .group terms⟩ :: stack }.readTerm limit token).map .more
    else if token.kind = .rightParen then
      .ok (.more { state with
        stack, expect := .more (place.fill (.list (termList terms))) false })
    else .error (.unexpected token Production.group.name)
  | ⟨place, .table table none⟩ :: stack =>
    if token.isEquals then
      .ok (.more { state with
        stack := ⟨place, .table table (some term.close)⟩ :: stack, expect := .term })
    else
      ({ state with stack }.readElement limit place (table.addElement term.close) token).map .more
  | ⟨place, .table table (some key)⟩ :: stack =>
    ({ state with stack }.readElement limit place (table.addPair key term.close) token).map .more

/-- Reads a token behind a factor. A bare `=` does not join a term that could be a key, so
that the two parts of a pair need no blanks between them. -/
def readMore (limit : Nat) (state : State) (term : OpenTerm) (blank : Bool) (token : Token) :
    Except Abort Progress :=
  if token.kind = .space then .ok (.more { state with expect := .more term true })
  else if token.kind = .caret then .ok (.more { state with expect := .joined term })
  else if token.kind.startsFactor && !blank && !(state.atKey && token.isEquals) then
    let place : Place := { term, pos := token.offset, join := .adjacent }
    (state.readPrimary limit place token).map .more
  else state.endTerm limit term token

/-! ### The step -/

/-- Reads one token. -/
def step (limit : Nat) (state : State) (token : Token) : Except Abort Progress :=
  match state.expect with
  | .line =>
    if token.kind = .space then .ok (.more state)
    else if token.kind = .endOfInput then .ok (.done ⟨state.line.pipeline, state.hint⟩)
    else (state.readTerm limit token).map .more
  | .term =>
    if token.kind = .space then .ok (.more state) else (state.readTerm limit token).map .more
  | .primary place => (state.readPrimary limit place token).map .more
  | .joined term =>
    if token.kind = .space then .ok (.more state)
    else
      let place : Place := { term, pos := token.offset, join := .caret }
      (state.readPrimary limit place token).map .more
  | .table place =>
    (state.readElement limit place { pos := token.offset } token).map .more
  | .element place table => (state.readElement limit place table token).map .more
  | .more term blank => state.readMore limit term blank token
  | .tail => if token.kind = .space then .ok (.more state) else state.readTail token

end State

end Parser

end PipelineSyntax
