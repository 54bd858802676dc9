import PipelineSyntax.Abort
import PipelineSyntax.Token.Source

/-!
# Cursors

A cursor reads a source with lookahead: a token can be looked at before it is taken, and
up to three tokens can be put back after they were. Two short lists stand between the
source and the reader:

* `pending` holds tokens that come before those of the source, put back or looked at;
* `returned` remembers the last three tokens given out, and only these can be put back.

A pushback that does not take the latest token alone names the tokens it expects. It is
refused when it would leave more than three tokens pending or when it does not agree with
what was given out. A refusal leaves the pending tokens and the source alone; what it has
already taken from the memory of returned tokens stays taken.
-/

namespace PipelineSyntax

/-- A reader of a source, which is a stream unless said otherwise, that can look ahead and go
back. -/
structure Cursor (σ : Type := TokenStream) where
  /-- The source of the tokens that have not been pulled yet. -/
  stream : σ
  /-- The tokens to be given before those of the source, the next one first. -/
  pending : List Token := []
  /-- The tokens given last, the latest first; never more than `Cursor.lookback`. -/
  returned : List Token := []
  deriving DecidableEq, Repr

/-- Why a pushback is refused. -/
inductive PushbackFault where
  /-- So many tokens do not fit beside those that are pending. -/
  | noRoom (count pending : Nat)
  /-- No token is remembered that could be put back. -/
  | neverReturned
  /-- The remembered token is not the expected one. -/
  | outOfOrder (expected returned : Token)
  deriving DecidableEq, Repr

namespace Cursor

/-- How many tokens can be put back, and so how many are remembered. -/
def lookback : Nat := 3

end Cursor

/-- The wording of a refused pushback. -/
def PushbackFault.message : PushbackFault → String
  | noRoom count pending =>
    "pushback of " ++ toString count ++ " token(s) exceeds depth " ++
      toString Cursor.lookback ++ " (" ++ toString pending ++ " pending)"
  | neverReturned => "pushback of a token that was never returned"
  | outOfOrder expected returned =>
    "pushback out of order: expected " ++ expected.describe ++ ", last returned " ++
      returned.describe

namespace Cursor

variable {σ : Type}

/-! ### Reading -/

/-- A cursor at the beginning of a source. -/
def ofStream (stream : σ) : Cursor σ :=
  { stream }

/-- How many blanks can come next at most. Of a stream these are the tokens that are left before
the end of the input repeats for ever. -/
def remaining [TokenSource σ] (cursor : Cursor σ) : Nat :=
  cursor.pending.length + TokenSource.patience cursor.stream

/-- Remembers a token as the one given last, and forgets the oldest where there are too
many. -/
def remember (cursor : Cursor σ) (token : Token) : Cursor σ :=
  { cursor with returned := (token :: cursor.returned).take lookback }

/-- Gives the next token. -/
def next [TokenSource σ] (cursor : Cursor σ) : Token × Cursor σ :=
  match cursor.pending with
  | token :: pending => (token, { cursor with pending }.remember token)
  | [] =>
    let (token, stream) := TokenSource.pull cursor.stream
    (token, { cursor with stream }.remember token)

/-- Looks at the next token without taking it. -/
def peek [TokenSource σ] (cursor : Cursor σ) : Token × Cursor σ :=
  match cursor.pending with
  | token :: _ => (token, cursor)
  | [] =>
    let (token, stream) := TokenSource.pull cursor.stream
    (token, { cursor with stream, pending := [token] })

/-- Gives the next token that is no blank, with at most `fuel` blanks before it. -/
def skipBlanks [TokenSource σ] : (fuel : Nat) → Cursor σ → Token × Cursor σ
  | 0, cursor => cursor.next
  | fuel + 1, cursor =>
    let (token, cursor) := cursor.next
    if token.kind = .space then skipBlanks fuel cursor else (token, cursor)

/-- Gives the next token that is no blank. No more blanks can come first than remain. -/
def nextNonSpace [TokenSource σ] (cursor : Cursor σ) : Token × Cursor σ :=
  skipBlanks cursor.remaining cursor

/-! ### Going back -/

/-- The offset at which a refusal is reported: that of the next pending token, or else of
the token given last. -/
def position (cursor : Cursor σ) : Nat :=
  match cursor.pending, cursor.returned with
  | token :: _, _ => token.offset
  | [], token :: _ => token.offset
  | [], [] => 0

/-- Takes back as many remembered tokens as `expected` has entries, the latest first, each
of them required to be the token that its entry names. -/
def takeReturned (cursor : Cursor σ) :
    List (Option Token) → Except Abort (List Token) × Cursor σ
  | [] => (.ok [], cursor)
  | expected :: others =>
    match cursor.returned with
    | [] => (.error ⟨cursor.position, .internal PushbackFault.neverReturned.message⟩, cursor)
    | token :: returned =>
      let cursor := { cursor with returned }
      match expected.filter (· ≠ token) with
      | some other =>
        (.error ⟨other.offset, .internal (PushbackFault.outOfOrder other token).message⟩,
          cursor)
      | none =>
        match cursor.takeReturned others with
        | (.ok tokens, cursor) => (.ok (token :: tokens), cursor)
        | (.error abort, cursor) => (.error abort, cursor)

/-- Puts the latest tokens back, one for each entry of `expected`. The oldest of them
comes out first again. -/
def pushback (cursor : Cursor σ) (expected : List (Option Token)) : Except Abort Unit × Cursor σ :=
  if cursor.pending.length + expected.length > lookback then
    let fault := PushbackFault.noRoom expected.length cursor.pending.length
    (.error ⟨cursor.position, .internal fault.message⟩, cursor)
  else
    match cursor.takeReturned expected with
    | (.error abort, cursor) => (.error abort, cursor)
    | (.ok tokens, cursor) =>
      (.ok (), { cursor with pending := tokens.reverse ++ cursor.pending })

/-- Puts the latest token back. -/
def backup (cursor : Cursor σ) : Except Abort Unit × Cursor σ :=
  cursor.pushback [none]

/-- Puts the two latest tokens back, of which `first` is the older one. -/
def backup2 (cursor : Cursor σ) (first : Token) : Except Abort Unit × Cursor σ :=
  cursor.pushback [none, some first]

/-- Puts the three latest tokens back, of which `first` is the oldest and `second` the one
after it. -/
def backup3 (cursor : Cursor σ) (first second : Token) : Except Abort Unit × Cursor σ :=
  cursor.pushback [none, some second, some first]

/-- Skips blanks and looks at the token behind them without taking it. The token is taken
and put back, so this is refused where there is no room to put it. -/
def peekNonSpace [TokenSource σ] (cursor : Cursor σ) : Except Abort Token × Cursor σ :=
  let (_, cursor) := cursor.nextNonSpace
  match cursor.backup with
  | (.error abort, cursor) => (.error abort, cursor)
  | (.ok (), cursor) =>
    let (token, cursor) := cursor.peek
    (.ok token, cursor)

/-! ### What is still to come -/

@[simp]
theorem remaining_ofStream (stream : TokenStream) :
    (ofStream stream).remaining = stream.tokens.length := by
  simp [ofStream, remaining, TokenSource.patience]

end Cursor

end PipelineSyntax
