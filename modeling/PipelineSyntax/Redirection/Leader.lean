import PipelineSyntax.Abort
import PipelineSyntax.Redirection.Direction

/-!
# Redirection leaders

A leader is a direction with an optional qualifier in brackets, such as `>>[1=2]`. What it
says is one of three things:

* a target follows, and is to be opened on a descriptor: no qualifier, or one that holds
  the descriptor alone;
* a descriptor becomes a copy of another one: `[new=old]`, or `[=old]` for the default;
* a descriptor is closed: `[new=]`, or `[=]` for the default.

The direction is tried first, then the text left of the `=`, then the text right of it; the
first of them that is not what it should be is the fault.
-/

namespace PipelineSyntax

/-- What a redirection leader says. -/
inductive Leader where
  /-- A target follows, to be opened on `fd`. -/
  | target (fd : Fd) (mode : OpenMode)
  /-- Make `fd` a copy of `old`. -/
  | duplicate (fd old : Fd)
  /-- Close `fd`. -/
  | close (fd : Fd)
  deriving DecidableEq, Repr

namespace Leader

/-- Whether a target must follow the leader. -/
def needsTarget : Leader → Bool
  | target _ _ => true
  | _ => false

/-! ### The parts of a leader -/

/-- The characters in front of the first `c`, and those behind it if there is one. -/
def splitFirst (c : Char) (chars : List Char) : List Char × Option (List Char) :=
  (chars.takeWhile (· ≠ c), (chars.dropWhile (· ≠ c)).tail?)

/-- The characters without one closing bracket at their end. -/
def dropClosing (chars : List Char) : List Char :=
  if chars.getLast? = some ']' then chars.dropLast else chars

/-- The direction and the qualifier of a leader. The qualifier begins behind the first
opening bracket, and is empty where there is none. -/
def split (text : String) : String × String :=
  match splitFirst '[' text.toList with
  | (_, none) => (text, "")
  | (direction, some qualifier) =>
    (String.ofList direction, String.ofList (dropClosing qualifier))

/-- Reads a file descriptor: one or more decimal digits whose value fits. -/
def readFd? (text : String) : Option Fd :=
  let digits := text.toList
  let value := Nat.ofDigitChars 10 digits 0
  if digits ≠ [] ∧ digits.all Char.isDigit then
    if h : value < UInt32.size then some (UInt32.ofNatLT value h) else none
  else none

/-- Reads the file descriptor on one side of a qualifier. -/
def readSide (role : FdRole) (text : String) : Except Cause Fd :=
  match readFd? text with
  | some fd => .ok fd
  | none => .error (.fd role text)

/-! ### Reading a leader -/

/-- What a qualifier says behind the given direction. -/
def readQualifier (direction : Direction) (qualifier : String) : Except Cause Leader :=
  if qualifier = "" then .ok (.target direction.defaultFd direction.openMode)
  else
    match splitFirst '=' qualifier.toList with
    | (_, none) =>
      (readSide .new qualifier).map fun fd ↦ .target fd direction.openMode
    | (new, some old) => do
      let fd ← if new = [] then .ok direction.defaultFd else readSide .new (String.ofList new)
      if old = [] then .ok (.close fd)
      else (readSide .old (String.ofList old)).map fun old ↦ .duplicate fd old

/-- What a leader says. -/
def read (text : String) : Except Cause Leader :=
  let (direction, qualifier) := split text
  match Direction.ofSymbol? direction with
  | none => .error (.direction direction)
  | some direction => readQualifier direction qualifier

/-- What a token says as a leader; a fault lies at the token. -/
def ofToken (token : Token) : Except Abort Leader :=
  (read token.text).mapError fun cause ↦ ⟨token.offset, cause⟩

end Leader

end PipelineSyntax
