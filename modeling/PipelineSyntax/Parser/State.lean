import PipelineSyntax.Literal.Decode
import PipelineSyntax.Parser.Parsed

/-!
# States of reading a line

A line is read by a pushdown machine that takes one token at a time. Between two tokens its
whole knowledge is a `State`: what the line holds already, the brackets that are open, the
piece that is expected next, and the hint so far.

Shape decisions:

* everything that is still being read is a type of its own (`OpenTerm`, `OpenTable`,
  `OpenLine`) that turns into a node when it is complete; what has been collected is kept
  with the latest first and turned round once;
* a bracket remembers its `Place`, the term and the factor it will be the primary of, so
  that closing it needs nothing but the node of its contents;
* a bracket lies on the stack exactly while a term inside it is being read or required.
  Between its elements a table is held by what is expected, and so no function has to ask
  whether the innermost bracket is the table it works on.

Positions are the offsets of the tokens where the pieces begin.
-/

namespace PipelineSyntax

namespace Parser

/-! ### Terms and factors -/

/-- A term that is being read. -/
structure OpenTerm where
  /-- Where its first factor begins. -/
  pos : Nat
  /-- Its factors, the latest first. -/
  factors : List Node := []

/-- The term as it stands. -/
def OpenTerm.sequence (term : OpenTerm) : Sequence Node :=
  ⟨term.pos, .term, term.factors.reverse⟩

/-- The term as a node. -/
def OpenTerm.close (term : OpenTerm) : Node :=
  .list term.sequence

/-- Where a primary will go: the term it belongs to, and what stands in front of it. -/
structure Place where
  /-- The term, without the factor that is being read. -/
  term : OpenTerm
  /-- Where the factor begins. -/
  pos : Nat
  /-- How many dollars have been read. -/
  dollars : Nat := 0
  /-- How the factor is attached to the one before it. -/
  join : Join

namespace Place

/-- The place of the first factor of a new term. -/
def start (pos : Nat) : Place :=
  { term := { pos }, pos, join := .start }

/-- The place behind one more dollar. -/
def addDollar (place : Place) : Place :=
  { place with dollars := place.dollars + 1 }

/-- The term once the primary has been read. -/
def fill (place : Place) (primary : Node) : OpenTerm :=
  let factor := Node.factor place.pos place.dollars place.join primary
  { place.term with factors := factor :: place.term.factors }

end Place

/-- Terms, given with the latest first, as one list. It begins where its first term does. -/
def termList (latest : List Node) : Sequence Node :=
  let terms := latest.reverse
  ⟨(terms.head?.map Node.pos).getD 0, .termList, terms⟩

/-! ### Brackets -/

/-- A table that is being read. -/
structure OpenTable where
  /-- Where the token behind its bracket begins. -/
  pos : Nat
  /-- The elements that stand alone, the latest first. -/
  elements : List Node := []
  /-- The pairs of a key and a value, the latest first. -/
  pairs : List (Node × Node) := []

namespace OpenTable

/-- The table with one more element. -/
def addElement (table : OpenTable) (element : Node) : OpenTable :=
  { table with elements := element :: table.elements }

/-- The table with one more pair. -/
def addPair (table : OpenTable) (key value : Node) : OpenTable :=
  { table with pairs := (key, value) :: table.pairs }

/-- The table as a node. -/
def close (table : OpenTable) : Node :=
  .table table.pos table.elements.reverse table.pairs.reverse

end OpenTable

/-- What an open bracket holds besides the term that is being read. -/
inductive Contents where
  /-- The terms of a group that are complete, the latest first. -/
  | group (terms : List Node)
  /-- A table, and the key whose value is being read. Without one, the term being read is
  an element or a key; which of the two, its end will tell. -/
  | table (table : OpenTable) (key : Option Node)

/-- A bracket that is open. -/
structure Bracket where
  /-- Where the bracket goes once it is closed. -/
  place : Place
  /-- What it holds. -/
  contents : Contents

/-! ### Lines -/

/-- A line that is being read. -/
structure OpenLine where
  /-- Where its first token begins. -/
  pos : Nat
  /-- The commands that are complete, the latest first. -/
  commands : List Node := []
  /-- The arguments of the present command, the latest first. -/
  args : List Node := []
  /-- The redirections of the present command, the latest first. -/
  redirections : List (Redirection Node) := []
  /-- Set while the target of a redirection is read: the descriptor it is to be opened on,
  and how. -/
  target : Option (Fd × OpenMode) := none

namespace OpenLine

/-- The line with one more argument. -/
def addArg (line : OpenLine) (arg : Node) : OpenLine :=
  { line with args := arg :: line.args }

/-- The line with one more redirection, whose target, if it has one, has been read. -/
def redirect (line : OpenLine) (redirection : Redirection Node) : OpenLine :=
  { line with redirections := redirection :: line.redirections, target := none }

/-- The line with its present command complete. A command begins where its first argument
does. -/
def endCommand (line : OpenLine) : OpenLine :=
  let args := termList line.args
  let command := Node.command args.pos args line.redirections.reverse
  { pos := line.pos, commands := command :: line.commands }

/-- The pipeline of the commands that are complete. -/
def pipeline (line : OpenLine) : Sequence Node :=
  ⟨line.pos, .pipeline, line.commands.reverse⟩

end OpenLine

/-! ### States -/

/-- What is to be read next. -/
inductive Expect where
  /-- Anything: so far there have been blanks only. -/
  | line
  /-- A term, behind blanks. -/
  | term
  /-- A primary, at once: a dollar has been read. -/
  | primary (place : Place)
  /-- A factor of the term, behind blanks: a caret has been read. -/
  | joined (term : OpenTerm)
  /-- The contents of a table whose bracket has just been read. -/
  | table (place : Place)
  /-- An element of the table, or its end. -/
  | element (place : Place) (table : OpenTable)
  /-- More of the term, or what follows it. `blank` tells whether a blank has been read
  since its last factor. -/
  | more (term : OpenTerm) (blank : Bool)
  /-- What may follow a redirection. -/
  | tail

/-- All that is known between two tokens of a line. -/
structure State where
  /-- The line so far, the terms that are being read apart. -/
  line : OpenLine
  /-- The brackets around the term that is being read, the innermost first. -/
  stack : List Bracket := []
  /-- What is to be read next. -/
  expect : Expect
  /-- The hint that the literal read last has left. -/
  hint : Option Hint := none

namespace State

/-- The state in front of a line whose first token begins at the given offset. -/
def start (pos : Nat) : State where
  line := { pos }
  expect := .line

/-- Whether the term that is being read could be the key of a pair. -/
def atKey (state : State) : Bool :=
  match state.stack with
  | ⟨_, .table _ none⟩ :: _ => true
  | _ => false

end State

/-- What a token makes of a state. -/
inductive Progress where
  /-- More tokens belong to the line. -/
  | more (state : State)
  /-- The token has ended the line. -/
  | done (parsed : Parsed)

end Parser

end PipelineSyntax
