import PipelineSyntax.Proofs.Reading

/-!
# Failures are reported at the first violation

A row of tokens is *viable* when a line can still be completed from it. Reading fails at the
first token that makes the row in front of it viable no longer: the tokens before it can be
completed to a line under the same limit, and with it none can, whatever follows.

The second half is determinism. The first half is a completion that is written down for
every state at once (`State.completion`): a word where a factor is required, a closing
bracket where a table may end, then one closing bracket for each that is open, and the end of
the input. Every piece it adds is accepted wherever it is added, so no invariant of the
states that reading can reach is needed; the limit is safe because nothing is opened.
-/

namespace PipelineSyntax

/-- A token that has one spelling only. -/
def Token.Mark.token (mark : Mark) : Token :=
  ⟨mark.kind, mark.spelling, 0, false⟩

namespace Parser

/-! ### Completing a line -/

/-- The mark that closes a bracket. -/
def Contents.closing : Contents → Token.Mark
  | .group _ => .rightParen
  | .table _ _ => .rightBracket

/-- The closing marks of brackets, the innermost first. -/
def closings (stack : List Bracket) : List Token :=
  stack.map fun bracket ↦ bracket.contents.closing.token

/-- A word, for where a factor is required. -/
def filler : Token :=
  ⟨.bare, "x", 0, false⟩

/-- Tokens that complete the line that has been read so far. Where no term is being read
there is no bracket to close. -/
def State.completion (state : State) : List Token :=
  let pending := match state.expect with
    | .line | .tail => []
    | .term | .primary _ | .joined _ => filler :: closings state.stack
    | .table _ | .element _ _ => Token.Mark.rightBracket.token :: closings state.stack
    | .more _ _ => closings state.stack
  pending ++ [.endOfInput 0]

variable (limit : Nat)

/-- Behind a factor, the open brackets can be closed one after the other. -/
theorem reads_closings (line : OpenLine) (stack : List Bracket) (term : OpenTerm) (blank : Bool)
    (hint : Option Hint) :
    ∃ parsed, Reads limit ⟨line, stack, .more term blank, hint⟩
      (closings stack ++ [.endOfInput 0]) (.ok parsed) := by
  induction stack generalizing term blank with
  | nil =>
    rcases line with ⟨pos, commands, args, redirections, _ | ⟨fd, mode⟩⟩ <;>
      exact ⟨_, .accept rfl⟩
  | cons bracket stack ih =>
    -- Closing a bracket leaves its place filled, behind a factor of the term around it.
    rcases bracket with ⟨place, terms | ⟨table, _ | key⟩⟩
    case group =>
      obtain ⟨parsed, hreads⟩ := ih (place.fill (.list (termList (term.close :: terms)))) false
      exact ⟨parsed, .more rfl hreads⟩
    case table.none =>
      obtain ⟨parsed, hreads⟩ := ih (place.fill (table.addElement term.close).close) false
      exact ⟨parsed, .more rfl hreads⟩
    case table.some =>
      obtain ⟨parsed, hreads⟩ := ih (place.fill (table.addPair key term.close).close) false
      exact ⟨parsed, .more rfl hreads⟩

/-- Every state can be completed, and without a bracket more. -/
theorem reads_completion (state : State) :
    ∃ parsed, Reads limit state state.completion (.ok parsed) := by
  rcases state with ⟨line, stack, expect, hint⟩
  cases expect with
  | line => exact ⟨_, .accept rfl⟩
  | tail => exact ⟨_, .accept rfl⟩
  | more term blank => exact reads_closings limit line stack term blank hint
  | term =>
    obtain ⟨parsed, hreads⟩ := reads_closings limit line stack
      ((Place.start 0).fill (.string 0 "x" "x")) false none
    exact ⟨parsed, .more rfl hreads⟩
  | primary place =>
    obtain ⟨parsed, hreads⟩ := reads_closings limit line stack
      (place.fill (.string 0 "x" "x")) false none
    exact ⟨parsed, .more rfl hreads⟩
  | joined term =>
    obtain ⟨parsed, hreads⟩ := reads_closings limit line stack
      ({ term, pos := 0, join := .caret : Place }.fill (.string 0 "x" "x")) false none
    exact ⟨parsed, .more rfl hreads⟩
  | table place =>
    obtain ⟨parsed, hreads⟩ := reads_closings limit line stack
      (place.fill (OpenTable.close { pos := 0 })) false hint
    exact ⟨parsed, .more rfl hreads⟩
  | element place table =>
    obtain ⟨parsed, hreads⟩ := reads_closings limit line stack (place.fill table.close) false hint
    exact ⟨parsed, .more rfl hreads⟩

/-! ### Viable rows of tokens -/

/-- Tokens that can be completed to a line, whatever the offset of the end of the input. -/
def Viable (tokens : List Token) : Prop :=
  ∃ continuation, ∀ offset, ∃ parsed,
    (readLine limit ⟨tokens ++ continuation, offset⟩).1 = .ok parsed

variable {limit}

/-- A row that completes the line, from the state in front of it, is viable as it stands. -/
theorem readLine_of_reads {tokens : List Token} {parsed : Parsed}
    (h : Reads limit (.start (origin tokens)) tokens (.ok parsed)) (offset : Nat) :
    (readLine limit ⟨tokens, offset⟩).1 = .ok parsed := by
  have htake := TokenStream.take_append tokens [] offset
  rw [List.append_nil] at htake
  exact (pulled_eq_of_reads htake h).2

/-- Tokens that leave the line open are viable. -/
theorem viable_of_steps {tokens : List Token} {state : State}
    (h : Steps limit (.start (origin tokens)) tokens state) : Viable limit tokens := by
  obtain ⟨parsed, hreads⟩ := reads_completion limit state
  refine ⟨state.completion, fun offset ↦ ⟨parsed, readLine_of_reads ?_ offset⟩⟩
  have horigin : origin (tokens ++ state.completion) = origin tokens := by
    cases h with
    | nil => rfl
    | cons => rfl
  rw [horigin]
  exact .prepend h hreads

/-- Where reading fails, the tokens in front of the last one are viable. -/
theorem viable_of_reads_error {front : List Token} {last : Token} {abort : Abort}
    (h : Reads limit (.start (origin (front ++ [last]))) (front ++ [last]) (.error abort)) :
    Viable limit front := by
  obtain ⟨front', last', state, heq, hsteps, -⟩ := h.split_error
  obtain ⟨rfl, -⟩ := List.append_inj' heq rfl
  cases front with
  | nil => exact viable_of_steps (.nil _)
  | cons token front => exact viable_of_steps hsteps

/-! ### The theorem -/

/-- **Failures are reported at the first violation.** When reading fails, the tokens in front
of the last one that it has pulled are viable, and no stream that begins with all that it has
pulled can be read, whatever follows. -/
theorem failure_at_first_violation (limit : Nat) (stream : TokenStream) (abort : Abort)
    (h : (readLine limit stream).1 = .error abort) :
    ∃ front last, pulled limit stream = front ++ [last] ∧
      stream.take (front.length + 1) = (front ++ [last], (readLine limit stream).2) ∧
      Viable limit front ∧
      ∀ other : TokenStream, (other.take (front.length + 1)).1 = front ++ [last] →
        ∀ parsed, (readLine limit other).1 ≠ .ok parsed := by
  have hreads := reads_pulled limit stream
  rw [h] at hreads
  obtain ⟨front, last, state, hpulled, -, -⟩ := hreads.split_error
  have htake := take_pulled limit stream
  rw [hpulled] at hreads htake
  rw [List.length_append] at htake
  refine ⟨front, last, hpulled, htake, viable_of_reads_error hreads, fun other hother ↦ ?_⟩
  intro parsed hparsed
  rw [(pulled_eq_of_reads (by rwa [List.length_append]) hreads).2] at hparsed
  cases hparsed

/-- A redirection inside a group, behind a table: `([a=b]>f`. -/
def leaderInGroup : TokenStream where
  tokens := [⟨.leftParen, "(", 0, false⟩, ⟨.leftBracket, "[", 1, false⟩, ⟨.bare, "a", 2, false⟩,
    ⟨.bare, "=", 3, false⟩, ⟨.bare, "b", 4, false⟩, ⟨.rightBracket, "]", 5, false⟩,
    ⟨.leader, ">", 6, false⟩, ⟨.bare, "f", 7, false⟩]
  endOffset := 8

/-- The group can be completed in front of the leader, and not behind it. -/
theorem failure_at_first_violation_leaderInGroup :
    (∃ abort, (readLine 2 leaderInGroup).1 = .error abort ∧ abort.offset = 6) ∧
      Viable 2 (leaderInGroup.tokens.take 6) ∧
      ∀ other : TokenStream, (other.take 7).1 = leaderInGroup.tokens.take 7 →
        ∀ parsed, (readLine 2 other).1 ≠ .ok parsed := by
  obtain ⟨front, last, hpulled, -, hviable, hother⟩ :=
    failure_at_first_violation 2 leaderInGroup _ rfl
  have hall : leaderInGroup.tokens.take 6 ++ [⟨.leader, ">", 6, false⟩] = front ++ [last] :=
    hpulled
  obtain ⟨rfl, hlast⟩ := List.append_inj' hall rfl
  obtain rfl := List.singleton_inj.1 hlast
  exact ⟨⟨_, rfl, rfl⟩, hviable, hother⟩

end Parser

end PipelineSyntax
