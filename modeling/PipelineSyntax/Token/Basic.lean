/-!
# Tokens

The alphabet of the pipeline language. A lexer that lives elsewhere cuts a text into
pieces and says of each piece what kind it is, where it begins and whether more input
could still change it; everything below works on those pieces alone.

Shape decisions:

* the *kind* and the *text* of a token decide what it means, its offset only where a
  message points, and `mayContinue` only what a completion may propose;
* offsets are natural numbers counted in bytes of the UTF-8 text, and nothing asks them
  to agree with the text;
* a kind knows the two facts the grammar asks of it: whether it is a literal, and whether
  it can open a factor.
-/

namespace PipelineSyntax

namespace Token

/-- What a token is. -/
inductive Kind where
  /-- An unquoted word. -/
  | bare
  /-- A single-quoted literal, delimiters included in its text. -/
  | singleQuoted
  /-- A double-quoted literal, delimiters included in its text. -/
  | doubleQuoted
  /-- The bar between two commands. -/
  | pipe
  /-- The explicit joint between two factors. -/
  | caret
  /-- The sigil in front of a factor. -/
  | dollar
  /-- The opening of a group. -/
  | leftParen
  /-- The end of a group. -/
  | rightParen
  /-- The opening of a table. -/
  | leftBracket
  /-- The end of a table. -/
  | rightBracket
  /-- The leader of a redirection, such as `>`, `<>` or `>>[1=2]`. -/
  | leader
  /-- A run of blanks that does not end the line. -/
  | space
  /-- The end of a line. -/
  | endOfLine
  /-- The end of the whole input. -/
  | endOfInput
  deriving DecidableEq, Repr

namespace Kind

/-- Every kind, each of them once. -/
def all : List Kind :=
  [bare, singleQuoted, doubleQuoted, pipe, caret, dollar, leftParen, rightParen,
    leftBracket, rightBracket, leader, space, endOfLine, endOfInput]

theorem mem_all (kind : Kind) : kind ∈ all := by
  cases kind <;> decide

/-- The name under which a kind is written in messages and in JSON. -/
def name : Kind → String
  | bare => "Bare"
  | singleQuoted => "SingleQuoted"
  | doubleQuoted => "DoubleQuoted"
  | pipe => "Pipe"
  | caret => "Caret"
  | dollar => "Dollar"
  | leftParen => "LParen"
  | rightParen => "RParen"
  | leftBracket => "LBracket"
  | rightBracket => "RBracket"
  | leader => "RedirLeader"
  | space => "Space"
  | endOfLine => "EndOfLine"
  | endOfInput => "EndOfInput"

/-- The kind of the given name, if there is one. -/
def ofName? (text : String) : Option Kind :=
  all.find? fun kind ↦ kind.name = text

/-- Names tell kinds apart: reading a name back gives the kind it was written for. -/
theorem ofName?_name (kind : Kind) : ofName? kind.name = some kind := by
  cases kind <;> decide

/-- A literal carries text that stands for a string. -/
def isLiteral : Kind → Bool
  | bare | singleQuoted | doubleQuoted => true
  | _ => false

/-- Whether a factor can begin with a token of this kind. One token of lookahead decides
by this alone whether another term follows. -/
def startsFactor : Kind → Bool
  | bare | singleQuoted | doubleQuoted | leftParen | leftBracket | dollar => true
  | _ => false

theorem startsFactor_of_isLiteral {kind : Kind} (h : kind.isLiteral) : kind.startsFactor := by
  cases kind <;> simp_all [isLiteral, startsFactor]

end Kind

/-- A token that has one spelling only. -/
inductive Mark where
  | pipe
  | caret
  | dollar
  | leftParen
  | rightParen
  | leftBracket
  | rightBracket
  | endOfLine
  deriving DecidableEq, Repr

namespace Mark

/-- The kind of token that a mark is. -/
def kind : Mark → Kind
  | pipe => .pipe
  | caret => .caret
  | dollar => .dollar
  | leftParen => .leftParen
  | rightParen => .rightParen
  | leftBracket => .leftBracket
  | rightBracket => .rightBracket
  | endOfLine => .endOfLine

/-- The one spelling of a mark. -/
def spelling : Mark → String
  | pipe => "|"
  | caret => "^"
  | dollar => "$"
  | leftParen => "("
  | rightParen => ")"
  | leftBracket => "["
  | rightBracket => "]"
  | endOfLine => "\n"

end Mark

end Token

/-- A token: a piece of the text, what it is, and where it begins. -/
structure Token where
  /-- What the token is. -/
  kind : Token.Kind
  /-- The text it covers, as it is spelled. -/
  text : String
  /-- The byte at which it begins. -/
  offset : Nat
  /-- Set when more input could still lengthen the token. This feeds the completion hint
  and never the grammar. -/
  mayContinue : Bool := false
  deriving DecidableEq, Repr

namespace Token

/-- The token that stands at the end of all input. -/
def endOfInput (offset : Nat) : Token :=
  ⟨.endOfInput, "", offset, false⟩

/-- Whether the token is the bare word `=` that separates a key from its value. -/
def isEquals (token : Token) : Bool :=
  token.kind = .bare && token.text = "="

theorem kind_of_isEquals {token : Token} (h : token.isEquals = true) : token.kind = .bare := by
  simp_all [isEquals]

/-- How a message names the token: the two ends by what they are, any other token by its
text between backquotes, which is not escaped. -/
def describe (token : Token) : String :=
  match token.kind with
  | .endOfInput => "end of input"
  | .endOfLine => "end of line"
  | _ => "`" ++ token.text ++ "`"

end Token

end PipelineSyntax
