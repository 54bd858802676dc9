/-!
# Directions and open modes

A redirection leader begins with one of four directions. A direction decides how a target
is opened and which file descriptor is meant when the leader names none; each open mode
belongs to one direction, so a mode can be written as the direction it came from.

| direction | open mode                    | default descriptor |
|-----------|------------------------------|--------------------|
| `<`       | read                         | 0                  |
| `<>`      | read and write, create       | 0                  |
| `>`       | write, create                | 1                  |
| `>>`      | write, create, append        | 1                  |
-/

namespace PipelineSyntax

/-- A file descriptor. -/
abbrev Fd := UInt32

/-- How the target of a redirection is opened. -/
inductive OpenMode where
  | readOnly
  | readWriteCreate
  | writeCreate
  | writeCreateAppend
  deriving DecidableEq, Repr

/-- The part of a redirection leader that says which way data goes. -/
inductive Direction where
  | read
  | readWrite
  | write
  | append
  deriving DecidableEq, Repr

namespace Direction

/-- Every direction, each of them once. -/
def all : List Direction :=
  [read, readWrite, write, append]

/-- The symbol that a direction is written with. -/
def symbol : Direction → String
  | read => "<"
  | readWrite => "<>"
  | write => ">"
  | append => ">>"

/-- The direction of the given symbol, if there is one. -/
def ofSymbol? (text : String) : Option Direction :=
  all.find? fun direction ↦ direction.symbol = text

/-- The file descriptor that is meant when a leader names none. -/
def defaultFd : Direction → Fd
  | read | readWrite => 0
  | write | append => 1

/-- How a target in this direction is opened. -/
def openMode : Direction → OpenMode
  | read => .readOnly
  | readWrite => .readWriteCreate
  | write => .writeCreate
  | append => .writeCreateAppend

end Direction

namespace OpenMode

/-- The direction that opens a target in this mode. -/
def direction : OpenMode → Direction
  | readOnly => .read
  | readWriteCreate => .readWrite
  | writeCreate => .write
  | writeCreateAppend => .append

/-- The name under which a mode is written in JSON. -/
def name : OpenMode → String
  | readOnly => "ReadOnly"
  | readWriteCreate => "ReadWriteCreate"
  | writeCreate => "WriteCreate"
  | writeCreateAppend => "WriteCreateAppend"

/-- Whether the target is opened for reading. -/
def reads : OpenMode → Bool
  | readOnly | readWriteCreate => true
  | _ => false

/-- Whether the target is opened for writing. -/
def writes : OpenMode → Bool
  | readOnly => false
  | _ => true

/-- Whether a target that does not exist is created: whatever is written to is. -/
def creates (mode : OpenMode) : Bool :=
  mode.writes

/-- Whether writing goes on at the end of the target. -/
def appends : OpenMode → Bool
  | writeCreateAppend => true
  | _ => false

end OpenMode

/-! ### Symbols, directions and modes determine each other -/

@[simp]
theorem Direction.ofSymbol?_symbol (direction : Direction) :
    ofSymbol? direction.symbol = some direction := by
  cases direction <;> decide

theorem Direction.symbol_of_ofSymbol? {text : String} {direction : Direction}
    (h : ofSymbol? text = some direction) : direction.symbol = text := by
  simpa using List.find?_some h

@[simp]
theorem Direction.direction_openMode (direction : Direction) :
    direction.openMode.direction = direction := by
  cases direction <;> rfl

@[simp]
theorem OpenMode.openMode_direction (mode : OpenMode) : mode.direction.openMode = mode := by
  cases mode <;> rfl

end PipelineSyntax
