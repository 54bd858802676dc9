import PipelineSyntax.Parser.Step
import PipelineSyntax.Token.Cursor

/-!
# Reading by descent

The grammar once more, as functions that call each other: one for each production, and one for
each repetition in it. They read through a cursor on which they look ahead, skip blanks and
once, in a table, go back.

```text
pipeline = [ command { '|' command } ]
command  = termList { leader [ term ] }
termList = term { term }
term     = factor { factor | '^' factor }
factor   = { '$' } ( literal | '(' termList ')' | '[' entries ']' )
entries  = { term [ '=' term ] }
```

Shape decisions:

* nothing here says that reading ends. A function that calls itself for ever gives no result at
  all, so that each of them can be unfolded once and for all, and that they end is a theorem;
* a pushback can be refused, and its refusal is passed on as it is;
* the desk keeps account of the most tokens that have been pending on its cursor. No function
  looks at it.
-/

namespace PipelineSyntax

namespace Parser

/-- What reading by descent works with. -/
structure Desk where
  /-- The tokens to come. -/
  cursor : Cursor
  /-- How many groups and tables are open. -/
  depth : Nat := 0
  /-- The hint that the literal read last has left. -/
  hint : Option Hint := none
  /-- The most tokens that have been pending so far. -/
  peak : Nat := 0

/-- Reads something from a desk, unless it is at fault or never comes to an end. -/
abbrev Descent (α : Type) : Type :=
  ExceptT Abort (StateT Desk Option) α

namespace Desk

/-- The desk with its cursor moved. -/
def moved (desk : Desk) (cursor : Cursor) : Desk :=
  { desk with cursor, peak := max desk.peak cursor.pending.length }

/-- The desk inside one more bracket. -/
def inside (desk : Desk) : Desk :=
  { desk with depth := desk.depth + 1 }

/-- The desk behind the innermost bracket. -/
def outside (desk : Desk) : Desk :=
  { desk with depth := desk.depth - 1 }

end Desk

namespace Descent

/-! ### Tokens -/

/-- Takes the next token. -/
def next : Descent Token := do
  let desk ← get
  let (token, cursor) := desk.cursor.next
  set (desk.moved cursor)
  return token

/-- Looks at the next token. -/
def peek : Descent Token := do
  let desk ← get
  let (token, cursor) := desk.cursor.peek
  set (desk.moved cursor)
  return token

/-- Takes the next token that is no blank. -/
def nextNonSpace : Descent Token := do
  let desk ← get
  let (token, cursor) := desk.cursor.nextNonSpace
  set (desk.moved cursor)
  return token

/-- Puts the latest token back. -/
def backup : Descent Unit := do
  let desk ← get
  let (answer, cursor) := desk.cursor.backup
  set (desk.moved cursor)
  match answer with
  | .ok () => return
  | .error abort => throw abort

/-- Skips blanks and looks at the token behind them. -/
def peekNonSpace : Descent Token := do
  let _ ← nextNonSpace
  backup
  peek

/-! ### Brackets -/

/-- Goes inside a bracket, unless as many are open already as the limit allows. -/
def enter (limit : Nat) (token : Token) : Descent Unit := do
  if (← get).depth < limit then modify Desk.inside
  else throw ⟨token.offset, .depth limit⟩

/-- Leaves the innermost bracket. -/
def leave : Descent Unit :=
  modify Desk.outside

/-! ### Literals -/

/-- Decodes a literal and leaves its hint. -/
def string (token : Token) : Descent Node :=
  match token.decode with
  | .error fault => throw ⟨token.offset, .literal fault⟩
  | .ok text => do
    modify fun desk ↦ { desk with hint := hintOf token text }
    return .string token.offset token.text text

end Descent

/-! ### Terms -/

/-- Reads lines by descent, with brackets nested as deep as the limit allows. -/
structure Reader where
  /-- How deep groups and tables may be nested. -/
  limit : Nat

namespace Reader

open Descent

/-- Counts the dollars in front of a primary, of which some have been counted already. -/
def dollars (reader : Reader) (count : Nat) : Descent Nat := do
  if (← peek).kind = .dollar then
    let _ ← next
    reader |>.dollars (count + 1)
  else return count
partial_fixpoint

mutual

/-- Reads a primary and the dollars in front of it. -/
def factor (reader : Reader) (join : Join) : Descent Node := do
  let pos := (← peek).offset
  let count ← reader |>.dollars 0
  let token ← next
  return .factor pos count join (← reader |>.primary token)
partial_fixpoint

/-- Reads the primary that begins with a token which has been taken already. -/
def primary (reader : Reader) (token : Token) : Descent Node := do
  match token.kind with
  | .bare | .singleQuoted | .doubleQuoted => string token
  | .leftParen =>
    enter reader.limit token
    let terms ← reader |>.termList
    let close ← next
    if close.kind = .rightParen then
      leave
      return .list terms
    else throw (.unexpected close Production.group.name)
  | .leftBracket =>
    enter reader.limit token
    let pos := (← peek).offset
    let table ← reader |>.entries { pos }
    leave
    return table
  | _ => throw (.unexpected token Production.factor.name)
partial_fixpoint

/-- Reads a term, which is to be a key if `key` is set. -/
def term (reader : Reader) (key : Bool) : Descent OpenTerm := do
  let pos := (← peek).offset
  let first ← reader |>.factor .start
  reader |>.moreFactors key ⟨pos, [first]⟩
partial_fixpoint

/-- Reads the factors that are joined to a term. A bare `=` is not joined to a key without a
caret. -/
def moreFactors (reader : Reader) (key : Bool) (term : OpenTerm) : Descent OpenTerm := do
  let token ← peek
  if token.kind.startsFactor && !(key && token.isEquals) then
    let factor ← reader |>.factor .adjacent
    reader |>.moreFactors key { term with factors := factor :: term.factors }
  else if (← peekNonSpace).kind = .caret then
    let _ ← next
    let _ ← peekNonSpace
    let factor ← reader |>.factor .caret
    reader |>.moreFactors key { term with factors := factor :: term.factors }
  else return term
partial_fixpoint

/-- Reads terms with blanks between them. -/
def termList (reader : Reader) : Descent (Sequence Node) := do
  let pos := (← peekNonSpace).offset
  let first ← reader |>.term false
  let terms ← reader |>.moreTerms [first.close]
  return ⟨pos, .termList, terms.reverse⟩
partial_fixpoint

/-- Reads the terms that follow some others, given and returned with the latest first. -/
def moreTerms (reader : Reader) (terms : List Node) : Descent (List Node) := do
  if (← peekNonSpace).kind.startsFactor then
    let term ← reader |>.term false
    reader |>.moreTerms (term.close :: terms)
  else return terms
partial_fixpoint

/-- Reads the elements and pairs of a table up to its end. -/
def entries (reader : Reader) (table : OpenTable) : Descent Node := do
  let token ← nextNonSpace
  if token.kind.startsFactor then
    backup
    let key ← reader |>.term true
    if (← peekNonSpace).isEquals then
      let _ ← next
      let _ ← peekNonSpace
      let value ← reader |>.term false
      reader |>.entries (table.addPair key.close value.close)
    else reader |>.entries (table.addElement key.close)
  else if token.kind = .rightBracket then return table.close
  else throw (.unexpected token Production.table.name)
partial_fixpoint

end

/-! ### Commands -/

/-- Reads a redirection: a leader, and its target where it wants one. -/
def redirection (reader : Reader) : Descent (Redirection Node) := do
  let leader ← next
  match Leader.ofToken leader with
  | .error abort => throw abort
  | .ok (.duplicate fd old) => return .duplicate fd old
  | .ok (.close fd) => return .close fd
  | .ok (.target fd mode) =>
    let _ ← peekNonSpace
    let target ← reader |>.term false
    return .file fd mode target.sequence

/-- Reads the redirections that follow some others, given and returned with the latest first. -/
def moreRedirections (reader : Reader) (redirections : List (Redirection Node)) :
    Descent (List (Redirection Node)) := do
  if (← peekNonSpace).kind = .leader then
    let redirection ← reader |>.redirection
    reader |>.moreRedirections (redirection :: redirections)
  else return redirections
partial_fixpoint

/-- Reads a command. -/
def command (reader : Reader) : Descent Node := do
  let pos := (← peekNonSpace).offset
  let args ← reader |>.termList
  let redirections ← reader |>.moreRedirections []
  return .command pos args redirections.reverse

/-- Reads commands up to the end of the line. Those in front of them are given, and all of them
returned, with the latest first. -/
def moreCommands (reader : Reader) (commands : List Node) : Descent (List Node) := do
  let command ← reader |>.command
  let token ← next
  match token.kind with
  | .pipe => reader |>.moreCommands (command :: commands)
  | .endOfLine | .endOfInput => return command :: commands
  | _ => throw (.unexpected token Production.pipeline.name)
partial_fixpoint

/-- Reads the commands of a line. -/
def pipeline (reader : Reader) : Descent (Sequence Node) := do
  let pos := (← peek).offset
  if (← peekNonSpace).kind = .endOfInput then return ⟨pos, .pipeline, []⟩
  else return ⟨pos, .pipeline, (← reader |>.moreCommands []).reverse⟩

/-- Reads a line, and gives its tree and the hint that is left. -/
def line (reader : Reader) : Descent Parsed := do
  let root ← reader |>.pipeline
  return ⟨root, (← get).hint⟩

end Reader

/-- Reads one line of a stream by descent. -/
def descend (limit : Nat) (stream : TokenStream) : Option (Except Abort Parsed × Desk) :=
  (Reader.mk limit).line.run.run { cursor := .ofStream stream }

end Parser

end PipelineSyntax
