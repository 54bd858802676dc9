import PipelineSyntax.Redirection.Direction

/-!
# Syntax trees

A tree has five kinds of nodes: lists, commands, factors, strings and tables. The type
allows any node anywhere, because trees are also built and printed by hand; which trees a
line can be read as is a property of reading, not of the type.

Shape decisions:

* a list is one type for pipelines, term lists and terms, told apart by their kind, since
  they differ only in what separates their nodes;
* sequences and redirections take the type of their nodes as a parameter, so that the
  tree is a single inductive type nested through them;
* every node records the byte at which it began.
-/

namespace PipelineSyntax

/-- What a sequence of nodes is. -/
inductive SequenceKind where
  /-- Commands separated by bars. -/
  | pipeline
  /-- Terms separated by blanks; also what a group holds. -/
  | termList
  /-- Factors that are joined to one word. -/
  | term
  deriving DecidableEq, Repr

/-- The name under which a kind of sequence is written in JSON. -/
def SequenceKind.name : SequenceKind → String
  | pipeline => "Pipeline"
  | termList => "TermList"
  | term => "Term"

/-- How a factor is attached to the one before it. -/
inductive Join where
  /-- It is the first of its term. -/
  | start
  /-- It follows without anything between. -/
  | adjacent
  /-- A caret joins it. -/
  | caret
  deriving DecidableEq, Repr

/-- The name under which a join is written in JSON. -/
def Join.name : Join → String
  | start => "Start"
  | adjacent => "Adjacent"
  | caret => "Caret"

/-- Nodes in the order of the source. -/
structure Sequence (α : Type) where
  /-- Where the sequence begins. -/
  pos : Nat
  /-- What the sequence is. -/
  kind : SequenceKind
  /-- Its nodes. -/
  nodes : List α
  deriving DecidableEq, Repr

/-- A redirection whose file descriptor is settled. -/
inductive Redirection (α : Type) where
  /-- Open the target on `fd`. -/
  | file (fd : Fd) (mode : OpenMode) (target : Sequence α)
  /-- Make `fd` a copy of `old`. -/
  | duplicate (fd old : Fd)
  /-- Close `fd`. -/
  | close (fd : Fd)
  deriving DecidableEq, Repr

/-- The file descriptor that a redirection acts on. -/
def Redirection.fd {α : Type} : Redirection α → Fd
  | file fd _ _ => fd
  | duplicate fd _ => fd
  | close fd => fd

/-- A node of a syntax tree. -/
inductive Node where
  /-- A sequence of nodes. -/
  | list (items : Sequence Node)
  /-- Arguments and redirections, each in the order of the source. -/
  | command (pos : Nat) (args : Sequence Node) (redirections : List (Redirection Node))
  /-- A primary behind a number of dollars. -/
  | factor (pos dollars : Nat) (join : Join) (node : Node)
  /-- A literal: as it is spelled, and the text it stands for. -/
  | string (pos : Nat) (raw text : String)
  /-- Elements that stand alone and pairs of a key and a value, each in the order of the
  source. A key may occur more than once. -/
  | table (pos : Nat) (elements : List Node) (pairs : List (Node × Node))

namespace Node

/-- Where a node begins. -/
def pos : Node → Nat
  | list items => items.pos
  | command pos _ _ => pos
  | factor pos _ _ _ => pos
  | string pos _ _ => pos
  | table pos _ _ => pos

/-- Whether a node is a sequence. -/
def isList : Node → Bool
  | list _ => true
  | _ => false

/-- Whether a node is a command. -/
def isCommand : Node → Bool
  | command .. => true
  | _ => false

/-- Whether a node is a factor. -/
def isFactor : Node → Bool
  | factor .. => true
  | _ => false

/-- Whether a node is a literal. -/
def isString : Node → Bool
  | string .. => true
  | _ => false

/-- Whether a node is a table. -/
def isTable : Node → Bool
  | table .. => true
  | _ => false

end Node

namespace Sequence

/-- The commands of a sequence, which in a pipeline are all its nodes. -/
def commands (items : Sequence Node) : List Node :=
  items.nodes.filter Node.isCommand

/-- The factors of a sequence, which in a term are all its nodes. -/
def factors (items : Sequence Node) : List Node :=
  items.nodes.filter Node.isFactor

/-- The terms of a sequence, which in a term list are all its nodes. -/
def terms (items : Sequence Node) : List Node :=
  items.nodes.filter Node.isList

end Sequence

end PipelineSyntax
