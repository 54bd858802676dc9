import PipelineSyntax.Literal.Basic

/-!
# Aborts

Reading stops at the first violation. An abort says where that is and what it is: the
offset is that of the offending token, and the cause is one of six. The wording of a
cause is one function; nothing else in the library builds such a message.

Shape decisions:

* an unexpected token is kept as its kind and its description, not as a whole token:
  neither its offset nor its flag belongs to the cause;
* where it was met is a free text, so that other readers of tokens can report their own
  productions; the grammar here uses the names of `Production`.
-/

namespace PipelineSyntax

/-- What the grammar was reading when a token did not fit. -/
inductive Production where
  /-- A dollar, a literal, a group or a table was required. -/
  | factor
  /-- The terms of a group, or its end. -/
  | group
  /-- The elements of a table, or its end. -/
  | table
  /-- What may follow the arguments of a command. -/
  | pipeline
  deriving DecidableEq, Repr

/-- The name of a production in messages. -/
def Production.name : Production → String
  | factor => "factor"
  | group => "factor of item list"
  | table => "table literal"
  | pipeline => "end of pipeline"

/-- The side of a qualifier that holds a file descriptor. -/
inductive FdRole where
  /-- The descriptor that is redirected. -/
  | new
  /-- The descriptor that is duplicated. -/
  | old
  deriving DecidableEq, Repr

/-- The name of a side in messages. -/
def FdRole.name : FdRole → String
  | new => "new"
  | old => "old"

/-- Why reading stopped. -/
inductive Cause where
  /-- A token that does not fit where it stands. -/
  | unexpected (found : String) (kind : Token.Kind) (context : String)
  /-- A literal that stands for no text. -/
  | literal (fault : Literal.Fault)
  /-- A redirection leader that begins with no direction. -/
  | direction (text : String)
  /-- A qualifier with a text that is no file descriptor. -/
  | fd (role : FdRole) (text : String)
  /-- More nested groups and tables than the limit allows. -/
  | depth (limit : Nat)
  /-- A misuse of the library's own parts, never the fault of an input. -/
  | internal (detail : String)
  deriving DecidableEq, Repr

/-- The wording of a cause. -/
def Cause.message : Cause → String
  | unexpected found _ context => "unexpected " ++ found ++ " in " ++ context
  | literal fault => fault.message
  | direction text => "unexpected redirection direction " ++ Text.quoted text
  | fd role text =>
    "invalid " ++ role.name ++ " fd in qualified redirection " ++ Text.quoted text
  | depth limit => "maximum nesting depth exceeded (" ++ toString limit ++ ")"
  | internal detail => "internal error: " ++ detail

/-- The first violation: where it is, and what it is. -/
structure Abort where
  /-- The byte at which the offending token begins. -/
  offset : Nat
  /-- What is wrong there. -/
  cause : Cause
  deriving DecidableEq, Repr

namespace Abort

/-- The abort at a token that does not fit. -/
def unexpected (token : Token) (context : String) : Abort :=
  ⟨token.offset, .unexpected token.describe token.kind context⟩

end Abort

end PipelineSyntax
