import PipelineSyntax.Token.Basic

/-!
# Token streams

A stream hands out tokens one by one and never runs dry: after its tokens have been
given it repeats the end of the input for ever.

Where that end lies is part of the state. It starts at an offset of its own, and a token
that itself marks the end of the input moves it, although the tokens behind such a token
are still given in their turn.
-/

namespace PipelineSyntax

/-- Tokens still to come, and where the end of the input lies once they are used up. -/
structure TokenStream where
  /-- The tokens still to be given, the next one first. -/
  tokens : List Token
  /-- The offset of the end-of-input token that follows them. -/
  endOffset : Nat
  deriving DecidableEq, Repr

namespace TokenStream

/-- Gives the next token and the stream behind it. -/
def pull (stream : TokenStream) : Token × TokenStream :=
  match stream.tokens with
  | [] => (.endOfInput stream.endOffset, stream)
  | token :: rest =>
    let endOffset := if token.kind = .endOfInput then token.offset else stream.endOffset
    (token, ⟨rest, endOffset⟩)

/-- Pulls the given number of tokens. -/
def take : Nat → TokenStream → List Token × TokenStream
  | 0, stream => ([], stream)
  | count + 1, stream =>
    let (token, stream) := stream.pull
    let (tokens, stream) := stream.take count
    (token :: tokens, stream)

/-- The first end-of-input token that pulling meets: one of the tokens, or else the one
behind them all. -/
def firstEnd (stream : TokenStream) : Token :=
  match stream.tokens.find? fun token ↦ token.kind = .endOfInput with
  | some token => token
  | none => .endOfInput stream.endOffset

/-! ### What a pull does -/

@[simp]
theorem pull_nil (offset : Nat) : pull ⟨[], offset⟩ = (.endOfInput offset, ⟨[], offset⟩) :=
  rfl

theorem pull_cons (token : Token) (rest : List Token) (offset : Nat) :
    pull ⟨token :: rest, offset⟩ =
      (token, ⟨rest, if token.kind = .endOfInput then token.offset else offset⟩) :=
  rfl

/-- Every pull but one at the end uses up a token. -/
theorem length_pull_tokens (stream : TokenStream) :
    stream.pull.2.tokens.length = stream.tokens.length - 1 := by
  rcases stream with ⟨_ | ⟨token, rest⟩, offset⟩ <;> simp [pull]

end TokenStream

end PipelineSyntax
