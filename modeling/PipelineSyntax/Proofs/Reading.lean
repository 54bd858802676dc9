import PipelineSyntax.Proofs.StepLaws

/-!
# Reading a row of tokens

What a machine makes of a list of tokens, apart from any stream or cursor:

* `Steps limit state tokens last`: every one of the tokens leaves the line open, and they lead
  from the one state to the other;
* `Reads limit state tokens outcome`: the same, but for the last token, which decides the
  outcome. The tokens are then exactly those that are read.

`pulled` is the row of tokens that reading a line pulls from a stream. It follows the run of
the cursor token by token, and `reads_pulled` and `take_pulled` tie it to both sides: the
machine reads exactly these tokens, and the stream is left behind exactly these.

The one fact that makes the run end is that the end of the input ends every line
(`State.open_of_step_more`): a cursor that has nothing but that end left cannot be asked for
one more token.
-/

namespace PipelineSyntax

/-! ### Rows of tokens at the head of a stream -/

/-- Where a row of tokens begins. -/
def origin : List Token → Nat
  | [] => 0
  | token :: _ => token.offset

@[simp]
theorem origin_cons (token : Token) (tokens : List Token) :
    origin (token :: tokens) = token.offset :=
  rfl

theorem origin_append {front : List Token} (h : front ≠ []) (back : List Token) :
    origin (front ++ back) = origin front := by
  cases front with
  | nil => exact absurd rfl h
  | cons token rest => rfl

namespace TokenStream

theorem take_succ (count : Nat) (stream : TokenStream) :
    stream.take (count + 1) =
      (stream.pull.1 :: (stream.pull.2.take count).1, (stream.pull.2.take count).2) :=
  rfl

/-- Tokens that a stream begins with are what pulling as many gives. -/
theorem take_append (tokens rest : List Token) (offset : Nat) :
    (take tokens.length ⟨tokens ++ rest, offset⟩).1 = tokens := by
  induction tokens generalizing offset with
  | nil => rfl
  | cons token tokens ih =>
    rw [List.length_cons, take_succ]
    exact congrArg (token :: ·) (ih _)

theorem origin_take {count : Nat} (h : count ≠ 0) (stream : TokenStream) :
    origin (stream.take count).1 = stream.pull.1.offset := by
  obtain ⟨count, rfl⟩ := Nat.exists_eq_succ_of_ne_zero h
  rfl

/-- Pulling more tokens gives the same ones first. -/
theorem take_prefix {count count' : Nat} (h : count ≤ count') (stream : TokenStream) :
    (stream.take count).1 <+: (stream.take count').1 := by
  induction count generalizing count' stream with
  | zero => exact List.nil_prefix
  | succ count ih =>
    cases count' with
    | zero => omega
    | succ count' => exact List.cons_prefix_cons.2 ⟨rfl, ih (by omega) _⟩

theorem length_take (count : Nat) (stream : TokenStream) :
    (stream.take count).1.length = count := by
  induction count generalizing stream with
  | zero => rfl
  | succ count ih => rw [take_succ, List.length_cons, ih]

end TokenStream

namespace Parser

/-! ### Steps -/

/-- Reads tokens none of which ends the line or violates the grammar. -/
inductive Steps (limit : Nat) : State → List Token → State → Prop
  | nil (state : State) : Steps limit state [] state
  | cons {state next last : State} {token : Token} {tokens : List Token}
      (step : state.step limit token = .ok (.more next)) (rest : Steps limit next tokens last) :
      Steps limit state (token :: tokens) last

namespace Steps

variable {limit : Nat} {state next last : State} {token : Token} {front back : List Token}

theorem single (h : state.step limit token = .ok (.more next)) :
    Steps limit state [token] next :=
  .cons h (.nil next)

theorem append (h : Steps limit state front next) (h' : Steps limit next back last) :
    Steps limit state (front ++ back) last := by
  induction h with
  | nil => exact h'
  | cons step _ ih => exact .cons step (ih h')

/-- No token on the way ends the line. -/
theorem endsLine_eq_false (h : Steps limit state front last) :
    ∀ token ∈ front, token.kind.endsLine = false := by
  induction h with
  | nil => simp
  | cons step _ ih =>
    intro token hmem
    rcases List.mem_cons.1 hmem with rfl | hmem
    · exact (State.open_of_step_more step).1
    · exact ih token hmem

/-- The position of the line does not move. -/
theorem line_pos (h : Steps limit state front last) : last.line.pos = state.line.pos := by
  induction h with
  | nil => rfl
  | cons step _ ih => rw [ih, (State.open_of_step_more step).2]

end Steps

/-! ### Rows that decide the outcome -/

/-- Reads exactly the given tokens, the last of which decides the outcome. -/
inductive Reads (limit : Nat) : State → List Token → Except Abort Parsed → Prop
  | accept {state : State} {token : Token} {parsed : Parsed}
      (step : state.step limit token = .ok (.done parsed)) :
      Reads limit state [token] (.ok parsed)
  | reject {state : State} {token : Token} {abort : Abort}
      (step : state.step limit token = .error abort) :
      Reads limit state [token] (.error abort)
  | more {state next : State} {token : Token} {tokens : List Token}
      {outcome : Except Abort Parsed} (step : state.step limit token = .ok (.more next))
      (rest : Reads limit next tokens outcome) : Reads limit state (token :: tokens) outcome

namespace Reads

variable {limit : Nat} {state next : State} {tokens tokens' front back : List Token}
  {outcome outcome' : Except Abort Parsed} {parsed : Parsed} {abort : Abort}

theorem ne_nil (h : Reads limit state tokens outcome) : tokens ≠ [] := by
  cases h <;> simp

/-- Steps may stand in front of what decides. -/
theorem prepend (h : Steps limit state front next) (h' : Reads limit next back outcome) :
    Reads limit state (front ++ back) outcome := by
  induction h with
  | nil => exact h'
  | cons step _ ih => exact .more step (ih h')

/-- A row that completes the line is a row of steps and one token that ends the line. -/
theorem split_ok (h : Reads limit state tokens (.ok parsed)) :
    ∃ front token last, tokens = front ++ [token] ∧ Steps limit state front last ∧
      last.step limit token = .ok (.done parsed) := by
  generalize houtcome : Except.ok parsed = outcome at h
  induction h with
  | accept step =>
    cases houtcome
    exact ⟨[], _, _, rfl, .nil _, step⟩
  | reject => cases houtcome
  | more step _ ih =>
    obtain ⟨front, token, last, rfl, hsteps, hdone⟩ := ih houtcome
    exact ⟨_ :: front, token, last, rfl, .cons step hsteps, hdone⟩

/-- A row that violates the grammar is a row of steps and one token that does not fit. -/
theorem split_error (h : Reads limit state tokens (.error abort)) :
    ∃ front token last, tokens = front ++ [token] ∧ Steps limit state front last ∧
      last.step limit token = .error abort := by
  generalize houtcome : Except.error abort = outcome at h
  induction h with
  | accept => cases houtcome
  | reject step =>
    cases houtcome
    exact ⟨[], _, _, rfl, .nil _, step⟩
  | more step _ ih =>
    obtain ⟨front, token, last, rfl, hsteps, herror⟩ := ih houtcome
    exact ⟨_ :: front, token, last, rfl, .cons step hsteps, herror⟩

/-- A row that completes the line is open up to its last token, which ends it. -/
theorem exists_last_of_ok (h : Reads limit state tokens (.ok parsed)) :
    ∃ front last, tokens = front ++ [last] ∧
      (∀ token ∈ front, token.kind.endsLine = false) ∧ last.kind.endsLine = true := by
  obtain ⟨front, last, state', htokens, hsteps, hdone⟩ := h.split_ok
  exact ⟨front, last, htokens, hsteps.endsLine_eq_false, (State.closed_of_step_done hdone).1⟩

/-- A row that violates the grammar is open up to its last token, at which it does so. -/
theorem exists_last_of_error (h : Reads limit state tokens (.error abort)) :
    ∃ front last, tokens = front ++ [last] ∧
      (∀ token ∈ front, token.kind.endsLine = false) ∧ abort.offset = last.offset := by
  obtain ⟨front, last, state', htokens, hsteps, herror⟩ := h.split_error
  exact ⟨front, last, htokens, hsteps.endsLine_eq_false, State.offset_of_step_error herror⟩

/-- The machine is deterministic: what a row of tokens has decided is not decided again, or
otherwise, by a longer one. -/
theorem unique (h : Reads limit state tokens outcome) (h' : Reads limit state tokens' outcome')
    (hpre : tokens <+: tokens') : tokens' = tokens ∧ outcome' = outcome := by
  induction h generalizing tokens' with
  | accept step | reject step =>
    cases h' with
    | accept step' | reject step' =>
      obtain ⟨rfl, -⟩ := List.cons_prefix_cons.1 hpre
      rw [step] at step'
      cases step' <;> exact ⟨rfl, rfl⟩
    | more step' =>
      obtain ⟨rfl, -⟩ := List.cons_prefix_cons.1 hpre
      rw [step] at step'
      cases step'
  | more step rest ih =>
    cases h' with
    | accept | reject =>
      obtain ⟨-, hnil⟩ := List.cons_prefix_cons.1 hpre
      exact absurd (List.prefix_nil.1 hnil) rest.ne_nil
    | more step' rest' =>
      obtain ⟨rfl, htail⟩ := List.cons_prefix_cons.1 hpre
      rw [step] at step'
      cases step'
      obtain ⟨rfl, rfl⟩ := ih rest' htail
      exact ⟨rfl, rfl⟩

end Reads

/-! ### What is pulled from a stream -/

/-- The tokens that a run takes from a cursor, in their order. -/
def State.taken (limit : Nat) : (fuel : Nat) → State → Cursor → List Token
  | fuel, state, cursor =>
    let (token, cursor) := cursor.next
    match state.step limit token, fuel with
    | .ok (.more state), fuel + 1 => token :: state.taken limit fuel cursor
    | _, _ => [token]

/-- The tokens that reading a line pulls from a stream. -/
def pulled (limit : Nat) (stream : TokenStream) : List Token :=
  let (first, cursor) := (Cursor.ofStream stream).peek
  (State.start first.offset).taken limit cursor.remaining cursor

namespace State

variable {limit fuel : Nat} {state next : State} {cursor : Cursor} {abort : Abort}
  {parsed : Parsed}

theorem run_of_error (h : state.step limit cursor.next.1 = .error abort) :
    state.run limit fuel cursor = (.error abort, cursor.next.2) := by
  cases fuel <;> simp [run, h]

theorem run_of_done (h : state.step limit cursor.next.1 = .ok (.done parsed)) :
    state.run limit fuel cursor = (.ok parsed, cursor.next.2) := by
  cases fuel <;> simp [run, h]

theorem run_of_more (h : state.step limit cursor.next.1 = .ok (.more next)) :
    state.run limit (fuel + 1) cursor = next.run limit fuel cursor.next.2 := by
  rw [run]
  simp only [h]

theorem taken_of_error (h : state.step limit cursor.next.1 = .error abort) :
    state.taken limit fuel cursor = [cursor.next.1] := by
  cases fuel <;> simp [taken, h]

theorem taken_of_done (h : state.step limit cursor.next.1 = .ok (.done parsed)) :
    state.taken limit fuel cursor = [cursor.next.1] := by
  cases fuel <;> simp [taken, h]

theorem taken_of_more (h : state.step limit cursor.next.1 = .ok (.more next)) :
    state.taken limit (fuel + 1) cursor =
      cursor.next.1 :: next.taken limit fuel cursor.next.2 := by
  rw [taken]
  simp only [h]

/-- A token that leaves the line open is one of the tokens of the stream, and not the end
behind them. -/
theorem length_tokens_pos {stream : TokenStream}
    (h : state.step limit stream.pull.1 = .ok (.more next)) : 0 < stream.tokens.length := by
  rcases stream with ⟨_ | ⟨token, rest⟩, offset⟩
  · have hends : (Token.endOfInput offset).kind.endsLine = false := (open_of_step_more h).1
    cases hends
  · simp

end State

/-- A cursor from which the tokens of a stream come, whether or not the first of them has
been looked at already. -/
def StandsAt (cursor : Cursor) (stream : TokenStream) : Prop :=
  cursor.next.1 = stream.pull.1 ∧ cursor.next.2.stream = stream.pull.2 ∧
    cursor.next.2.pending = []

theorem standsAt_of_pending_nil {cursor : Cursor} (h : cursor.pending = []) :
    StandsAt cursor cursor.stream := by
  rcases cursor with ⟨stream, pending, returned⟩
  cases h
  exact ⟨rfl, rfl, rfl⟩

theorem standsAt_peek (stream : TokenStream) :
    StandsAt (Cursor.ofStream stream).peek.2 stream :=
  ⟨rfl, rfl, rfl⟩

/-- A run reads the tokens that it takes, and leaves the stream behind them. -/
theorem reads_taken (limit : Nat) {fuel : Nat} {stream : TokenStream}
    (hfuel : stream.tokens.length ≤ fuel) (state : State) {cursor : Cursor}
    (hat : StandsAt cursor stream) :
    Reads limit state (state.taken limit fuel cursor) (state.run limit fuel cursor).1 ∧
      stream.take (state.taken limit fuel cursor).length =
        (state.taken limit fuel cursor, (state.run limit fuel cursor).2.stream) := by
  obtain ⟨htoken, hstream, hpending⟩ := hat
  have hlast : stream.take 1 = ([cursor.next.1], cursor.next.2.stream) := by
    rw [htoken, hstream]
    rfl
  cases hstep : state.step limit cursor.next.1 with
  | error abort =>
    rw [State.taken_of_error hstep, State.run_of_error hstep]
    exact ⟨.reject hstep, hlast⟩
  | ok progress =>
    cases progress with
    | done parsed =>
      rw [State.taken_of_done hstep, State.run_of_done hstep]
      exact ⟨.accept hstep, hlast⟩
    | more next =>
      -- No run exhausts the fuel: what leaves the line open has used up a token of the
      -- stream, and the fuel counts those.
      have hpos := State.length_tokens_pos (htoken ▸ hstep)
      cases fuel with
      | zero => omega
      | succ fuel =>
        have hrest : stream.pull.2.tokens.length ≤ fuel := by
          rw [TokenStream.length_pull_tokens]
          omega
        have hat : StandsAt cursor.next.2 stream.pull.2 :=
          hstream ▸ standsAt_of_pending_nil hpending
        obtain ⟨hreads, htake⟩ := reads_taken limit hrest next hat
        rw [State.taken_of_more hstep, State.run_of_more hstep]
        refine ⟨.more hstep hreads, ?_⟩
        rw [List.length_cons, TokenStream.take_succ, htake, htoken]

/-! ### Reading a line -/

section Line

variable (limit : Nat) (stream : TokenStream)

/-- Looking at the first token leaves a cursor that comes to no end too early. -/
theorem length_tokens_le_remaining_peek :
    stream.tokens.length ≤ (Cursor.ofStream stream).peek.2.remaining := by
  have hremaining : (Cursor.ofStream stream).peek.2.remaining =
      1 + stream.pull.2.tokens.length := rfl
  rw [hremaining, TokenStream.length_pull_tokens]
  omega

/-- The machine reads what is pulled from the state in front of it, and nothing behind it is
used up. -/
private theorem reads_and_take_pulled :
    Reads limit (State.start stream.pull.1.offset) (pulled limit stream)
        (readLine limit stream).1 ∧
      stream.take (pulled limit stream).length =
        (pulled limit stream, (readLine limit stream).2) :=
  reads_taken limit (length_tokens_le_remaining_peek stream) (State.start stream.pull.1.offset)
    (standsAt_peek stream)

/-- What is pulled are the first tokens of the stream, and the rest of it is left. -/
theorem take_pulled :
    stream.take (pulled limit stream).length =
      (pulled limit stream, (readLine limit stream).2) :=
  (reads_and_take_pulled limit stream).2

theorem take_length_pulled :
    (stream.take (pulled limit stream).length).1 = pulled limit stream := by
  rw [take_pulled]

/-- Reading a line is what the machine makes of the tokens that are pulled. -/
theorem reads_pulled :
    Reads limit (State.start (origin (pulled limit stream))) (pulled limit stream)
      (readLine limit stream).1 := by
  have hreads := (reads_and_take_pulled limit stream).1
  have hne := mt List.length_eq_zero_iff.1 hreads.ne_nil
  rw [← TokenStream.origin_take hne stream, take_length_pulled] at hreads
  exact hreads

variable {limit stream}

/-- A row that decides the outcome and stands at the head of the stream is what is pulled,
and its outcome is that of the line. -/
theorem pulled_eq_of_reads {tokens : List Token} {outcome : Except Abort Parsed}
    (htake : (stream.take tokens.length).1 = tokens)
    (h : Reads limit (State.start (origin tokens)) tokens outcome) :
    pulled limit stream = tokens ∧ (readLine limit stream).1 = outcome := by
  have hpulled := reads_pulled limit stream
  have htake' := take_length_pulled limit stream
  have horigin : origin (pulled limit stream) = origin tokens := by
    rw [← htake, ← htake', TokenStream.origin_take (mt List.length_eq_zero_iff.1 h.ne_nil),
      TokenStream.origin_take (mt List.length_eq_zero_iff.1 hpulled.ne_nil)]
  rcases Nat.le_total tokens.length (pulled limit stream).length with hle | hle
  · have hpre := TokenStream.take_prefix hle stream
    rw [htake, htake'] at hpre
    exact h.unique (horigin ▸ hpulled) hpre
  · have hpre := TokenStream.take_prefix hle stream
    rw [htake, htake'] at hpre
    obtain ⟨heq, houtcome⟩ := hpulled.unique (horigin ▸ h) hpre
    exact ⟨heq.symm, houtcome.symm⟩

end Line

end Parser

end PipelineSyntax
